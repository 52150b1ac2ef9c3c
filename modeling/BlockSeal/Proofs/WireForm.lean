import BlockSeal.Proofs.Header
import BlockSeal.SealVerifier
import Mathlib.Data.List.TakeDrop

/-! # Headers on the wire

A header is sent in its wire form, and workers in slot mode get it as the payload of their work.

* `decode_encode`: what was sent is what is read.
* `decode_of_broken`: a wire form that breaks off is refused.
* `wire_roundTrip`: both, and what a worker in slot mode learns from the work.
-/

set_option autoImplicit false

namespace BlockSeal.Header

variable {h : Header}

/-! ## Lengths -/

theorem length_wireItems_lt (hfits : h.encode.length < UInt64.size) :
    h.wireItems.flatten.length < UInt64.size := by
  rw [encode_eq_encodeList, Rlp.encodeList, List.length_append] at hfits
  omega

theorem length_extra_lt (hfits : h.encode.length < UInt64.size) : h.extra.length < UInt64.size := by
  have hitems := length_wireItems_lt hfits
  have hextra := Rlp.length_le_encodeString h.extra
  rw [flatten_wireItems, List.length_append, List.length_append] at hitems
  omega

theorem isItem_of_mem_wireItems (hfits : h.encode.length < UInt64.size) {item : Bytes}
    (hitem : item ∈ h.wireItems) : Rlp.IsItem item := by
  have hitems : h.wireItems = h.leadingItems ++ [Rlp.encodeString h.extra,
      Rlp.encodeString h.mixDigest.toList, Rlp.encodeString h.nonce.toList] := rfl
  simp only [hitems, List.mem_append, List.mem_cons, List.not_mem_nil, or_false] at hitem
  rcases hitem with hleading | rfl | rfl | rfl
  · exact isItem_of_mem_leadingItems hleading
  · exact Rlp.isItem_encodeString (length_extra_lt hfits)
  · exact isItem_octets _ (by decide)
  · exact isItem_octets _ (by decide)

/-! ## Reading -/

theorem decode_encode (hfits : h.encode.length < UInt64.size) : decode h.encode = .ok h := by
  have hitems : Rlp.listItems h.encode = .ok h.wireItems :=
    Rlp.listItems_encodeList (fun _ => isItem_of_mem_wireItems hfits) (length_wireItems_lt hfits)
  have hextra := Rlp.string_encodeString (length_extra_lt hfits)
  have hhash : ∀ a : Hash, Rlp.octets 32 (Rlp.encodeString a.toList) = .ok a :=
    Rlp.octets_encodeString (by decide) (by decide)
  have haddress : ∀ a : Address, Rlp.octets 20 (Rlp.encodeString a.toList) = .ok a :=
    Rlp.octets_encodeString (by decide) (by decide)
  have hnonce : ∀ a : Nonce, Rlp.octets 8 (Rlp.encodeString a.toList) = .ok a :=
    Rlp.octets_encodeString (by decide) (by decide)
  simp only [decode, hitems, wireItems, unsealedItems, bind, Except.bind, List.cons_append,
    List.nil_append, hhash, haddress, hnonce, Rlp.word_encodeWord, hextra]
  rfl

/-- No item can be read off a wire form that breaks off. -/
theorem decode_of_broken (hfits : h.encode.length < UInt64.size) {bytes : Bytes}
    (hbroken : bytes <+: h.encode) (hne : bytes ≠ h.encode) :
    decode bytes = .error (if bytes = [] then .notAList else .listLength) := by
  have hitem : Rlp.IsItem h.encode := Rlp.isItem_encodeList (length_wireItems_lt hfits)
  have hlist : Rlp.isList h.encode = true := Rlp.isList_header_append true _ _
  rw [decode, Rlp.listItems_of_broken hitem hlist hbroken hne]
  split <;> rfl

/-- **The wire form.** A header is read off its wire form as it was. A part of the wire form, from
its beginning up to anywhere before its end, is refused. In slot mode the payload of the work for a
header is its wire form, so a worker can read the header, and the seal hash that any verifier in slot
mode finds for it is the one that the work names. -/
theorem wire_roundTrip (hfits : h.encode.length < UInt64.size) :
    decode h.encode = .ok h ∧
    (∀ bytes, bytes <+: h.encode → bytes ≠ h.encode →
      decode bytes = .error (if bytes = [] then .notAList else .listLength)) ∧
    ∀ v : SlotVerifier, ∃ work read, (SealVerifier.slot v).workPackage h = .ok work ∧
      decode work.payload = .ok read ∧ read = h ∧
      ∀ w : SlotVerifier, (SealVerifier.slot w).sealHash read = work.sealHash := by
  refine ⟨decode_encode hfits, fun bytes => decode_of_broken hfits, ?_⟩
  intro v
  exact ⟨_, h, rfl, decode_encode hfits, rfl, fun w => rfl⟩

end BlockSeal.Header

namespace BlockSeal.Sample

/-- A header whose `extra` takes a long string and whose wire form takes a long list. -/
def lengthy : Header where
  difficulty := 0x7f
  number := 0x80
  extra := List.replicate 300 0xc0

end BlockSeal.Sample

namespace BlockSeal.Header

theorem lengthy_roundTrip : Sample.lengthy.encode.length < UInt64.size ∧
    decode Sample.lengthy.encode = .ok Sample.lengthy ∧
    decode (Sample.lengthy.encode.take 200) = .error .listLength := by
  have hlength : Sample.lengthy.encode.length = 507 := by decide +kernel
  have hfits : Sample.lengthy.encode.length < UInt64.size := by
    rw [hlength]
    decide
  obtain ⟨hread, hbroken, -⟩ := wire_roundTrip hfits
  have hne : Sample.lengthy.encode.take 200 ≠ Sample.lengthy.encode := by
    rw [ne_eq, List.take_eq_self_iff, hlength]
    decide
  have hnil : Sample.lengthy.encode.take 200 ≠ [] := by
    rw [ne_eq, List.take_eq_nil_iff, ← List.length_eq_zero_iff, hlength]
    decide
  refine ⟨hfits, hread, ?_⟩
  rw [hbroken _ (List.take_prefix _ _) hne, if_neg hnil]

end BlockSeal.Header
