import BlockSeal.Proofs.Rlp.Framing
import BlockSeal.Proofs.SlotSeal
import Mathlib.Data.List.TakeDrop

/-! # Where a slot seal ends

The written form of a seal is one list, which tells its own length. So nothing can be cut off it and
nothing put behind it: a sealed form does not turn into an unsealed one by losing its last item.

* `decode_of_broken`: a written form that breaks off is refused.
* `decode_of_extended`: so is one that something stands behind.
* `encode_framed`: what was written is read, and nothing else that starts the same.
-/

set_option autoImplicit false

namespace BlockSeal.SlotSeal

theorem isItem_and_isList_encode (s : SlotSeal) :
    Rlp.IsItem s.encode ∧ Rlp.isList s.encode = true :=
  (decode_eq_ok_iff_listItems.1 s.decode_encode).1

theorem decode_of_broken {s : SlotSeal} {bytes : Bytes} (hbroken : bytes <+: s.encode)
    (hne : bytes ≠ s.encode) :
    decode bytes =
      .error (.malformedSeal (if bytes = [] then .notAList else .undecodable .tooShort)) := by
  obtain ⟨hitem, hlist⟩ := s.isItem_and_isList_encode
  split
  · rename_i hnil
    rw [hnil]
    rfl
  · rename_i hnil
    rw [← Rlp.isList_of_prefix hbroken hnil] at hlist
    have hshort := Rlp.extent_of_broken hitem hbroken hne
    simp only [decode, hlist, hshort, undecodable, Bool.not_true, Bool.false_eq_true, if_false, bind,
      Except.bind]

theorem decode_of_extended (s : SlotSeal) {rest : Bytes} (hne : rest ≠ []) :
    decode (s.encode ++ rest) = .error (.malformedSeal .trailingBytes) := by
  obtain ⟨⟨e, hextent, htotal⟩, hlist⟩ := s.isItem_and_isList_encode
  have hnil : s.encode ≠ [] := by
    intro hnil
    rw [hnil] at hlist
    cases hlist
  rw [Rlp.isList_of_prefix (List.prefix_append _ rest) hnil] at hlist
  have hlonger : e.total ≠ (s.encode ++ rest).length := by
    have hpos := List.length_pos_iff.2 hne
    rw [htotal, List.length_append]
    omega
  simp only [decode, hlist, Rlp.extent_append hextent rest, undecodable, Bool.not_true,
    Bool.false_eq_true, if_false, bind, Except.bind, if_pos hlonger, throw, throwThe,
    MonadExceptOf.throw]

/-- **The frame of a seal.** A seal is read off its written form as it was. The beginning of a written
form, up to anywhere before its end, is refused as malformed: it is no list if there is nothing at
all, and else too short. A written form with anything behind it is refused for what stands there. -/
theorem encode_framed (s : SlotSeal) :
    decode s.encode = .ok s ∧
    (∀ bytes, bytes <+: s.encode → bytes ≠ s.encode → decode bytes =
      .error (.malformedSeal (if bytes = [] then .notAList else .undecodable .tooShort))) ∧
    ∀ rest, rest ≠ [] → decode (s.encode ++ rest) = .error (.malformedSeal .trailingBytes) :=
  ⟨s.decode_encode, fun _ => decode_of_broken, fun _ => s.decode_of_extended⟩

end BlockSeal.SlotSeal

namespace BlockSeal.Sample

/-- The signature's item stands behind the first five bytes of the written form. -/
def signedSeal : SlotSeal where
  slot := 33
  epoch := 1
  turn := 1
  signature := some (Octets.replicate 96 7)

end BlockSeal.Sample

namespace BlockSeal.SlotSeal

/-- Neither without the signature's item nor with another item is the form read. -/
theorem signedSeal_framed :
    decode (Sample.signedSeal.encode.take 5) = .error (.malformedSeal (.undecodable .tooShort)) ∧
    decode (Sample.signedSeal.encode ++ [0x80]) = .error (.malformedSeal .trailingBytes) := by
  obtain ⟨-, hbroken, hextended⟩ := Sample.signedSeal.encode_framed
  refine ⟨?_, hextended _ (List.cons_ne_nil _ _)⟩
  have hlength : Sample.signedSeal.encode.length = 103 := by decide +kernel
  have hne : Sample.signedSeal.encode.take 5 ≠ Sample.signedSeal.encode := by
    rw [ne_eq, List.take_eq_self_iff, hlength]
    decide
  have hnil : Sample.signedSeal.encode.take 5 ≠ [] := by
    rw [ne_eq, List.take_eq_nil_iff, ← List.length_eq_zero_iff, hlength]
    decide
  rw [hbroken _ (List.take_prefix _ _) hne, if_neg hnil]

end BlockSeal.SlotSeal
