import BlockSeal.Header
import BlockSeal.Proofs.Rlp.Framing

/-! # What the bytes of a header tell

* `leadingItems`: the items of a header in front of the one for `extra`; `leadingItems_eq_iff`: the
  fields that they stand for.
* `encodeUnsealed_eq_iff`: headers with the same bytes, mix digest and nonce left out, are the same
  but for these two fields.
* `encode_injective`: headers with the same wire form are the same.
* `encode_ne_encodeUnsealed`: no wire form is that of a header with mix digest and nonce left out.
-/

set_option autoImplicit false

namespace BlockSeal.Header

/-! ## Items -/

/-- The items in front of the one for `extra`. -/
def leadingItems (h : Header) : List Bytes := h.unsealedItems.take 10

/-- The bytes behind the item for `extra`, in the wire form. -/
def trailer (h : Header) : Bytes :=
  Rlp.encodeString h.mixDigest.toList ++ Rlp.encodeString h.nonce.toList

/-- The items of the wire form. -/
def wireItems (h : Header) : List Bytes :=
  h.unsealedItems ++ [Rlp.encodeString h.mixDigest.toList, Rlp.encodeString h.nonce.toList]

theorem encode_eq_encodeList (h : Header) : h.encode = Rlp.encodeList h.wireItems := rfl

theorem flatten_unsealedItems (h : Header) :
    h.unsealedItems.flatten = h.leadingItems.flatten ++ Rlp.encodeString h.extra := by
  have hitems : h.unsealedItems = h.leadingItems ++ [Rlp.encodeString h.extra] := rfl
  rw [hitems, List.flatten_append, List.flatten_singleton]

theorem flatten_wireItems (h : Header) : h.wireItems.flatten =
    h.leadingItems.flatten ++ (Rlp.encodeString h.extra ++ h.trailer) := by
  rw [wireItems, List.flatten_append, flatten_unsealedItems, List.append_assoc, List.flatten_cons,
    List.flatten_singleton]
  rfl

theorem isItem_octets {n : ℕ} (a : Octets n) (hn : n < UInt64.size) :
    Rlp.IsItem (Rlp.encodeString a.toList) := by
  apply Rlp.isItem_encodeString
  rwa [a.length_toList]

theorem isItem_of_mem_leadingItems {h : Header} {item : Bytes} (hitem : item ∈ h.leadingItems) :
    Rlp.IsItem item := by
  simp only [leadingItems, unsealedItems, List.take_succ_cons, List.take_zero, List.mem_cons,
    List.not_mem_nil, or_false] at hitem
  rcases hitem with rfl | rfl | rfl | rfl | rfl | rfl | rfl | rfl | rfl | rfl
  · exact isItem_octets _ (by decide)
  · exact isItem_octets _ (by decide)
  · exact isItem_octets _ (by decide)
  · exact isItem_octets _ (by decide)
  · exact isItem_octets _ (by decide)
  · exact Rlp.isItem_encodeWord _
  · exact Rlp.isItem_encodeWord _
  · exact Rlp.isItem_encodeWord _
  · exact Rlp.isItem_encodeWord _
  · exact Rlp.isItem_encodeWord _

theorem octets_eq_of_encodeString {n : ℕ} {a b : Octets n}
    (h : Rlp.encodeString a.toList = Rlp.encodeString b.toList) : a = b :=
  Octets.ext (Rlp.encodeString_injective h)

theorem length_trailer (h : Header) : h.trailer.length = 42 := by
  have hdigest := Rlp.encodeString_eq_header (by decide) h.mixDigest
  have hnonce := Rlp.encodeString_eq_header (by decide) h.nonce
  rw [trailer, hdigest, hnonce, List.length_append, List.length_append, List.length_append,
    h.mixDigest.length_toList, h.nonce.length_toList]
  rfl

variable {a b : Header}

/-- The leading items stand for the fields other than `extra`, mix digest and nonce. -/
theorem leadingItems_eq_iff : a.leadingItems = b.leadingItems ↔
    a = { b with extra := a.extra, mixDigest := a.mixDigest, nonce := a.nonce } := by
  constructor
  · intro h
    simp only [leadingItems, unsealedItems, List.take_succ_cons, List.take_zero, List.cons.injEq,
      and_true] at h
    obtain ⟨hparent, hcoinbase, hstate, htx, hreceipt, hdifficulty, hnumber, hlimit, hused, htime⟩ := h
    have hparent' := octets_eq_of_encodeString hparent
    have hcoinbase' := octets_eq_of_encodeString hcoinbase
    have hstate' := octets_eq_of_encodeString hstate
    have htx' := octets_eq_of_encodeString htx
    have hreceipt' := octets_eq_of_encodeString hreceipt
    rw [← hparent', ← hcoinbase', ← hstate', ← htx', ← hreceipt',
      ← Rlp.encodeWord_injective hdifficulty, ← Rlp.encodeWord_injective hnumber,
      ← Rlp.encodeWord_injective hlimit, ← Rlp.encodeWord_injective hused,
      ← Rlp.encodeWord_injective htime]
  · intro h
    exact (congrArg leadingItems h :)

theorem leadingItems_cancel {x y : Bytes}
    (h : a.leadingItems.flatten ++ x = b.leadingItems.flatten ++ y) :
    a.leadingItems = b.leadingItems ∧ x = y :=
  Rlp.flatten_append_injective (fun _ => isItem_of_mem_leadingItems)
    (fun _ => isItem_of_mem_leadingItems) rfl h

/-! ## The bytes -/

theorem encodeUnsealed_eq_iff : a.encodeUnsealed = b.encodeUnsealed ↔
    a = { b with mixDigest := a.mixDigest, nonce := a.nonce } := by
  constructor
  · intro h
    have hbytes := Rlp.flatten_eq_of_encodeList h
    rw [flatten_unsealedItems, flatten_unsealedItems] at hbytes
    obtain ⟨hleading, hextra⟩ := leadingItems_cancel hbytes
    have hsame := leadingItems_eq_iff.1 hleading
    rwa [Rlp.encodeString_injective hextra] at hsame
  · intro h
    exact (congrArg encodeUnsealed h :)

theorem encode_injective (h : a.encode = b.encode) : a = b := by
  have hbytes : a.wireItems.flatten = b.wireItems.flatten := Rlp.flatten_eq_of_encodeList h
  rw [flatten_wireItems, flatten_wireItems] at hbytes
  obtain ⟨hleading, hrest⟩ := leadingItems_cancel hbytes
  -- The trailers are of one length, so `extra` ends where it should even if it is too long to tell.
  obtain ⟨hextra, htrailer⟩ := List.append_inj' hrest (by rw [length_trailer, length_trailer])
  have hwidth : (Rlp.encodeString a.mixDigest.toList).length =
      (Rlp.encodeString b.mixDigest.toList).length := by
    rw [Rlp.encodeString_eq_header (by decide), Rlp.encodeString_eq_header (by decide),
      List.length_append, List.length_append, a.mixDigest.length_toList, b.mixDigest.length_toList]
  obtain ⟨hdigest, hnonce⟩ := List.append_inj htrailer hwidth
  have hsame := leadingItems_eq_iff.1 hleading
  rwa [Rlp.encodeString_injective hextra, octets_eq_of_encodeString hdigest,
    octets_eq_of_encodeString hnonce] at hsame

theorem encode_ne_encodeUnsealed (a b : Header) : a.encode ≠ b.encodeUnsealed := by
  intro h
  -- Behind the leading items one form ends with `extra`, and the other one goes on.
  have hbytes : a.wireItems.flatten = b.unsealedItems.flatten := Rlp.flatten_eq_of_encodeList h
  rw [flatten_wireItems, flatten_unsealedItems] at hbytes
  have hlength := a.length_trailer
  obtain ⟨_, htrailer⟩ := Rlp.encodeString_append_injective (by rw [hlength]; decide)
    (leadingItems_cancel hbytes).2
  rw [htrailer] at hlength
  cases hlength

end BlockSeal.Header
