import BlockSeal.Proofs.Rlp
import BlockSeal.SlotSeal

/-! # Which byte strings are slot seals

A seal has one written form, but more byte strings than that are read as seals: the list may go on
after its last item with bytes that are no item, and the signature may stand in a list of its own
instead of a string.

* `spelled`: the byte strings that spell a seal in this wider sense.
* `decode_eq_ok_iff`: these are exactly the byte strings that are read.
* `decode_encode`: the written form is one of them.
* `decode_canonical_iff`: the written form is read, and a byte string that is read is the written
  form exactly when it has no stray bytes and no signature in a list.
-/

set_option autoImplicit false

namespace BlockSeal.SlotSeal

/-! ## Spellings -/

/-- The item that a signature stands in: a string, or a list with the signature for its payload. -/
def signatureItem (asList : Bool) (signature : SignatureBytes) : Bytes :=
  if asList then Rlp.encodeList [signature.toList] else Rlp.encodeString signature.toList

def items (s : SlotSeal) (asList : Bool) : List Bytes :=
  [Rlp.encodeWord s.slot, Rlp.encodeWord s.epoch, Rlp.encodeWord s.turn]
    ++ s.signature.toList.map (signatureItem asList)

/-- A list of the items of a seal with `stray` bytes behind the last item. -/
def spelled (s : SlotSeal) (asList : Bool) (stray : Bytes) : Bytes :=
  Rlp.encodeList (s.items asList ++ [stray])

/-- Whether the bytes behind the items are no item themselves, and the list not too long to tell
its length. -/
def Fits (s : SlotSeal) (asList : Bool) (stray : Bytes) : Prop :=
  Rlp.Unreadable stray ∧ (s.items asList ++ [stray]).flatten.length < UInt64.size

theorem encode_eq_spelled (s : SlotSeal) : s.encode = s.spelled false [] := by
  simp only [encode, spelled, items, Rlp.encodeList, List.flatten_append, List.flatten_singleton,
    List.append_nil]
  rfl

theorem isItem_of_mem_items {s : SlotSeal} {asList : Bool} {item : Bytes}
    (h : item ∈ s.items asList) : Rlp.IsItem item := by
  simp only [items, List.mem_append, List.mem_cons, List.not_mem_nil, or_false, List.mem_map,
    Option.mem_toList] at h
  rcases h with (rfl | rfl | rfl) | ⟨signature, _, rfl⟩
  · exact Rlp.isItem_encodeWord _
  · exact Rlp.isItem_encodeWord _
  · exact Rlp.isItem_encodeWord _
  · have hlen : signature.toList.length < UInt64.size := by
      rw [signature.length_toList]
      decide
    cases asList with
    | false => exact Rlp.isItem_encodeString hlen
    | true => exact Rlp.isItem_encodeList (by rwa [List.flatten_singleton])

/-! ## Reading -/

theorem ofItems_eq_ok_iff {slot epoch turn : Bytes} {signature : Option SignatureBytes}
    {s : SlotSeal} :
    ofItems slot epoch turn signature = .ok s ↔
      Rlp.word slot = .ok s.slot ∧ Rlp.word epoch = .ok s.epoch ∧ Rlp.word turn = .ok s.turn ∧
        s.signature = signature := by
  obtain ⟨sl, ep, tu, sg⟩ := s
  simp only [ofItems, bind, Except.bind, pure, Except.pure]
  cases Rlp.word slot with
  | error e => simp [undecodable]
  | ok w₀ =>
    cases Rlp.word epoch with
    | error e => simp [undecodable]
    | ok w₁ =>
      cases Rlp.word turn with
      | error e => simp [undecodable]
      | ok w₂ => simp [undecodable, eq_comm (a := sg)]

theorem ofItems_encodeWord (s : SlotSeal) :
    ofItems (Rlp.encodeWord s.slot) (Rlp.encodeWord s.epoch) (Rlp.encodeWord s.turn) s.signature =
      .ok s :=
  ofItems_eq_ok_iff.2
    ⟨Rlp.word_encodeWord _, Rlp.word_encodeWord _, Rlp.word_encodeWord _, rfl⟩

def ofItemList : List Bytes → Except Error SlotSeal
  | [slot, epoch, turn] => ofItems slot epoch turn none
  | [slot, epoch, turn, signature] =>
    match Rlp.octets 96 signature with
    | .error _ => .error (.malformedSeal .signatureWidth)
    | .ok signature => ofItems slot epoch turn (some signature)
  | l => .error (.malformedSeal (.itemCount l.length))

theorem ofItemList_items (s : SlotSeal) (asList : Bool) : ofItemList (s.items asList) = .ok s := by
  obtain ⟨slot, epoch, turn, signature⟩ := s
  cases signature with
  | none => exact ofItems_encodeWord ⟨slot, epoch, turn, none⟩
  | some signature =>
    have hmem : signatureItem asList signature ∈
        items ⟨slot, epoch, turn, some signature⟩ asList := by simp [items]
    have hitem := isItem_of_mem_items hmem
    have hread : Rlp.octets 96 (signatureItem asList signature) = .ok signature := by
      rw [Rlp.octets_eq_ok_iff_of_isItem (by decide) (by decide) hitem]
      cases asList
      · exact .inl rfl
      · exact .inr rfl
    have hlist : items ⟨slot, epoch, turn, some signature⟩ asList =
        [Rlp.encodeWord slot, Rlp.encodeWord epoch, Rlp.encodeWord turn,
          signatureItem asList signature] := rfl
    simp only [hlist, ofItemList, hread]
    exact ofItems_encodeWord ⟨slot, epoch, turn, some signature⟩

/-- A list of items that holds a seal is a list of the seal's items. -/
theorem eq_items_of_ofItemList {l : List Bytes} (hl : ∀ i ∈ l, Rlp.IsItem i) {s : SlotSeal}
    (h : ofItemList l = .ok s) : ∃ asList, l = s.items asList := by
  unfold ofItemList at h
  split at h
  · rename_i slot epoch turn
    obtain ⟨h₀, h₁, h₂, hs⟩ := ofItems_eq_ok_iff.1 h
    have e₀ := Rlp.eq_encodeWord_of_word (hl slot (by simp)) h₀
    have e₁ := Rlp.eq_encodeWord_of_word (hl epoch (by simp)) h₁
    have e₂ := Rlp.eq_encodeWord_of_word (hl turn (by simp)) h₂
    exact ⟨false, by rw [e₀, e₁, e₂, items, hs]; rfl⟩
  · rename_i slot epoch turn item
    split at h
    · cases h
    rename_i signature hsig
    obtain ⟨h₀, h₁, h₂, hs⟩ := ofItems_eq_ok_iff.1 h
    have e₀ := Rlp.eq_encodeWord_of_word (hl slot (by simp)) h₀
    have e₁ := Rlp.eq_encodeWord_of_word (hl epoch (by simp)) h₁
    have e₂ := Rlp.eq_encodeWord_of_word (hl turn (by simp)) h₂
    rcases (Rlp.octets_eq_ok_iff_of_isItem (by decide) (by decide) (hl item (by simp))).1 hsig with
      e₃ | e₃
    · exact ⟨false, by rw [e₀, e₁, e₂, e₃, items, hs]; rfl⟩
    · exact ⟨true, by rw [e₀, e₁, e₂, e₃, items, hs]; rfl⟩
  · cases h

theorem decode_eq_ok_iff_listItems {b : Bytes} {s : SlotSeal} :
    decode b = .ok s ↔ (Rlp.IsItem b ∧ Rlp.isList b = true) ∧
      ∃ l, Rlp.listItems b = .ok l ∧ ofItemList l = .ok s := by
  simp only [decode, bind, Except.bind, throw, throwThe, MonadExceptOf.throw]
  cases hlist : Rlp.isList b with
  | false => simp
  | true =>
    simp only [Bool.not_true, Bool.false_eq_true, if_false, and_true]
    cases hext : Rlp.extent b with
    | error e => simp [undecodable, Rlp.IsItem, hext]
    | ok e =>
      have hitem : Rlp.IsItem b ↔ e.total = b.length := by
        constructor
        · rintro ⟨e', he', ht⟩
          rw [hext, Except.ok.injEq] at he'
          rw [he', ht]
        · exact fun ht => ⟨e, hext, ht⟩
      rw [hitem]
      simp only [undecodable]
      split
      · rename_i hne
        simp [hne]
      · rename_i heq
        simp only [ne_eq, not_not] at heq
        cases Rlp.listItems b with
        | error err => simp
        | ok l =>
          simp only [heq, true_and, Except.ok.injEq, exists_eq_left']
          rfl

/-- **What is read as a seal.** A byte string is read as a seal exactly when it spells the seal. -/
theorem decode_eq_ok_iff {b : Bytes} {s : SlotSeal} :
    decode b = .ok s ↔ ∃ asList stray, s.Fits asList stray ∧ b = s.spelled asList stray := by
  rw [decode_eq_ok_iff_listItems, Rlp.isItem_and_isList_iff]
  constructor
  · rintro ⟨⟨payload, hs, rfl⟩, l, hl, hof⟩
    obtain ⟨hitems, stray, hstray, rfl⟩ := (Rlp.listItems_header_eq_ok_iff hs).1 hl
    obtain ⟨asList, rfl⟩ := eq_items_of_ofItemList hitems hof
    rw [← List.flatten_singleton (l := stray), ← List.flatten_append] at hs ⊢
    exact ⟨asList, stray, ⟨hstray, hs⟩, rfl⟩
  · rintro ⟨asList, stray, ⟨hstray, hs⟩, rfl⟩
    refine ⟨⟨_, hs, rfl⟩, s.items asList, ?_, ofItemList_items s asList⟩
    refine (Rlp.listItems_header_eq_ok_iff hs).2 ⟨fun i hi => isItem_of_mem_items hi, stray, hstray, ?_⟩
    rw [List.flatten_append, List.flatten_singleton]

/-! ## The written form -/

theorem length_signatureItem_false (signature : SignatureBytes) :
    (signatureItem false signature).length = 98 := by
  have h : signatureItem false signature = Rlp.header (Rlp.mark false) 96 ++ signature.toList :=
    Rlp.encodeString_eq_header (by decide) signature
  rw [h, List.length_append, signature.length_toList]
  decide

theorem fits_encode (s : SlotSeal) : s.Fits false [] := by
  refine ⟨Rlp.unreadable_nil, ?_⟩
  have h₀ := Rlp.length_encodeWord_le s.slot
  have h₁ := Rlp.length_encodeWord_le s.epoch
  have h₂ := Rlp.length_encodeWord_le s.turn
  have hs : UInt64.size = 18446744073709551616 := rfl
  cases hsig : s.signature with
  | none =>
    simp only [items, hsig, Option.toList_none, List.map_nil, List.append_nil, List.flatten_append,
      List.flatten_cons, List.flatten_nil, List.length_append]
    omega
  | some signature =>
    have h₃ := length_signatureItem_false signature
    simp only [items, hsig, Option.toList_some, List.map_cons, List.map_nil, List.flatten_append,
      List.flatten_cons, List.flatten_nil, List.length_append, List.append_nil]
    omega

theorem decode_encode (s : SlotSeal) : decode s.encode = .ok s :=
  decode_eq_ok_iff.2 ⟨false, [], s.fits_encode, s.encode_eq_spelled⟩

def finished (header : Header) (s : SlotSeal) (signature : SignatureBytes) (nonce : Nonce) : Header :=
  { s.applied header signature with nonce := nonce }

/-- Putting a signature into a header leaves alone what the signature is made over. -/
theorem preSealHash_finished {header : Header} {s : SlotSeal} (hunsigned : s.signature = none)
    (hextra : header.extra = s.encode) (signature : SignatureBytes) (nonce : Nonce) :
    (s.withSignature signature).preSealHash (s.finished header signature nonce) =
      s.preSealHash header := by
  have hwith : unsealed { s with signature := some signature } = s := by
    cases s
    cases hunsigned
    rfl
  simp only [preSealHash, preimage, isSealed, withSignature, hunsigned, Option.isSome_some,
    Option.isSome_none, if_true, Bool.false_eq_true, if_false]
  rw [hwith]
  simp only [Header.encodeUnsealed, Header.unsealedItems, finished, applied, hextra]

theorem listItems_spelled {s : SlotSeal} {asList : Bool} {stray : Bytes} (h : s.Fits asList stray) :
    Rlp.listItems (s.spelled asList stray) = .ok (s.items asList) := by
  refine (Rlp.listItems_header_eq_ok_iff h.2).2 ⟨fun i hi => isItem_of_mem_items hi, stray, h.1, ?_⟩
  rw [List.flatten_append, List.flatten_singleton]

theorem items_eq_iff {s : SlotSeal} {asList : Bool} :
    s.items asList = s.items false ↔ (asList = true → s.signature = none) := by
  cases hsig : s.signature with
  | none => simp [items, hsig]
  | some signature =>
    cases asList with
    | false => simp
    | true =>
      have hstr : Rlp.isList (signatureItem false signature) = false := by
        have h : signatureItem false signature = Rlp.header (Rlp.mark false) 96 ++ signature.toList :=
          Rlp.encodeString_eq_header (by decide) signature
        rw [h, Rlp.isList_header_append]
      have hlist : Rlp.isList (signatureItem true signature) = true := by
        have h : signatureItem true signature = _ := Rlp.encodeList_singleton signature.toList
        rw [h, Rlp.isList_header_append]
      simp only [items, hsig, Option.toList_some, List.map_cons, List.map_nil, reduceCtorEq,
        imp_false, not_true_eq_false, iff_false]
      intro h
      simp only [List.append_cancel_left_eq, List.cons.injEq, and_true] at h
      rw [h, hstr] at hlist
      cases hlist

theorem spelled_eq_encode_iff {s : SlotSeal} {asList : Bool} {stray : Bytes}
    (h : s.Fits asList stray) :
    s.spelled asList stray = s.encode ↔ stray = [] ∧ (asList = true → s.signature = none) := by
  rw [encode_eq_spelled, ← items_eq_iff]
  constructor
  · intro heq
    have hitems := listItems_spelled h
    rw [heq, listItems_spelled s.fits_encode, Except.ok.injEq] at hitems
    have hext := Rlp.extent_header h.2 true
    have hext' := Rlp.extent_header s.fits_encode.2 true
    have hlen : (s.items asList ++ [stray]).flatten.length =
        (s.items false ++ [[]]).flatten.length := by
      have : Rlp.extent (s.spelled asList stray) = Rlp.extent (s.spelled false []) := by rw [heq]
      have := hext.symm.trans (this.trans hext')
      rw [Except.ok.injEq, Rlp.Extent.mk.injEq] at this
      exact this.2
    rw [← hitems, List.flatten_append, List.flatten_append, List.length_append, List.length_append,
      List.flatten_singleton, List.flatten_singleton, List.length_nil] at hlen
    exact ⟨List.length_eq_zero_iff.1 (by omega), hitems.symm⟩
  · rintro ⟨rfl, hitems⟩
    rw [spelled, hitems]
    rfl

/-! ## Refusals -/

theorem malformed_of_undecodable {α : Type} {r : Except Rlp.DecodeError α} {e : Error}
    (h : undecodable r = .error e) : ∃ fault, e = .malformedSeal fault := by
  cases r with
  | ok a => cases h
  | error cause =>
    cases h
    exact ⟨.undecodable cause, rfl⟩

theorem malformed_of_ofItems {slot epoch turn : Bytes} {signature : Option SignatureBytes}
    {e : Error} (h : ofItems slot epoch turn signature = .error e) :
    ∃ fault, e = .malformedSeal fault := by
  simp only [ofItems, bind, Except.bind, pure, Except.pure] at h
  split at h
  · rename_i e' h'
    cases h
    exact malformed_of_undecodable h'
  split at h
  · rename_i e' h'
    cases h
    exact malformed_of_undecodable h'
  split at h
  · rename_i e' h'
    cases h
    exact malformed_of_undecodable h'
  · cases h

theorem malformed_of_ofItemList {l : List Bytes} {e : Error} (h : ofItemList l = .error e) :
    ∃ fault, e = .malformedSeal fault := by
  unfold ofItemList at h
  split at h
  · exact malformed_of_ofItems h
  · split at h
    · cases h
      exact ⟨_, rfl⟩
    · exact malformed_of_ofItems h
  · cases h
    exact ⟨_, rfl⟩

/-- Whatever is refused is refused as a malformed seal. -/
theorem malformed_of_decode {b : Bytes} {e : Error} (h : decode b = .error e) :
    ∃ fault, e = .malformedSeal fault := by
  simp only [decode, bind, Except.bind, throw, throwThe, MonadExceptOf.throw] at h
  split at h
  · cases h
    exact ⟨_, rfl⟩
  split at h
  · rename_i e' h'
    cases h
    exact malformed_of_undecodable h'
  split at h
  · cases h
    exact ⟨_, rfl⟩
  split at h
  · rename_i e' h'
    cases h
    exact malformed_of_undecodable h'
  · exact malformed_of_ofItemList h

/-- **When reading is canonical.** Whatever is not read as a seal is refused as malformed; what is
read as the seal `s` are its spellings; and of these only the one without stray bytes, and with the
signature in a string, is the written form. -/
theorem decode_canonical_iff (b : Bytes) :
    (∀ e, decode b = .error e → ∃ fault, e = .malformedSeal fault) ∧
    (∀ s, decode b = .ok s ↔ ∃ asList stray, s.Fits asList stray ∧ b = s.spelled asList stray) ∧
    (∀ (s : SlotSeal) asList stray, s.Fits asList stray → b = s.spelled asList stray →
      (s.encode = b ↔ stray = [] ∧ (asList = true → s.signature = none))) := by
  refine ⟨fun e h => malformed_of_decode h, fun s => decode_eq_ok_iff, ?_⟩
  rintro s asList stray hfits rfl
  rw [eq_comm]
  exact spelled_eq_encode_iff hfits

/-- A list that goes on with a byte that is no item is read, and is no written form. -/
theorem decode_stray_byte :
    decode [0xc4, 1, 2, 3, 0x81] = .ok ⟨1, 2, 3, none⟩ ∧
      encode ⟨1, 2, 3, none⟩ ≠ [0xc4, 1, 2, 3, 0x81] := by
  constructor
  · rfl
  · decide

end BlockSeal.SlotSeal
