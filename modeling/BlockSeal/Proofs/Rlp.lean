import BlockSeal.Proofs.Digits
import BlockSeal.Rlp

/-! # Items and the bytes they are written with

* `claimedExtent_eq_ok_iff`: a header can be read exactly when it is the one header that is
  written for its kind and its length.
* `IsItem`, `isItem_iff`: the byte strings that are one whole item, and their two shapes.
* `itemsUpTo_eq_iff`: the items read off some bytes are the only cut of the bytes into whole items
  and a rest that cannot be read.
* `listItems_encodeList`, `string_encodeString`, `word_encodeWord`, `octets_encodeString`: what was
  written is read.
* `eq_encodeString_of_string`, `eq_encodeWord_of_word`, `octets_eq_ok_iff_of_isItem`: what an item
  that can be read as a string, a word or a fixed-width field looks like.
-/

set_option autoImplicit false

namespace BlockSeal.Rlp

/-! ## Headers -/

/-- What the header of an item starts from, for a list or for a string. -/
def mark (list : Bool) : UInt8 := if list then 0xc0 else 0x80

theorem toNat_mark (list : Bool) : (mark list).toNat = if list then 192 else 128 := by
  cases list <;> rfl

theorem header_short {base : UInt8} {n : ℕ} (hn : n ≤ 55) : header base n = [base + UInt8.ofNat n] :=
  if_pos hn

theorem header_long {base : UInt8} {n : ℕ} (hn : ¬ n ≤ 55) :
    header base n = (base + 55 + UInt8.ofNat (minimalBigEndian (UInt64.ofNat n)).length) ::
      minimalBigEndian (UInt64.ofNat n) :=
  if_neg hn

theorem header_ne_nil (base : UInt8) (n : ℕ) : header base n ≠ [] := by
  by_cases hn : n ≤ 55
  · simp [header_short hn]
  · simp [header_long hn]

/-- The claimed extent, by the number of the first byte. -/
theorem claimedExtent_cons (b : UInt8) (rest : Bytes) :
    claimedExtent (b :: rest) =
      if b.toNat < 128 then .ok ⟨0, 1⟩
      else if b.toNat ≤ 183 then .ok ⟨1, b.toNat - 128⟩
      else if b.toNat ≤ 191 then longExtent (b.toNat - 183) rest
      else if b.toNat ≤ 247 then .ok ⟨1, b.toNat - 192⟩
      else longExtent (b.toNat - 247) rest := by
  have hsub : ∀ c : UInt8, c ≤ b → (b - c).toNat = b.toNat - c.toNat := fun c hc =>
    UInt8.toNat_sub_of_le _ _ hc
  simp only [claimedExtent, UInt8.lt_iff_toNat_lt, UInt8.le_iff_toNat_le] at hsub ⊢
  simp only [UInt8.reduceToNat]
  split
  · rfl
  · split
    · rw [hsub 0x80 (by simp only [UInt8.reduceToNat]; omega)]
      rfl
    · split
      · rw [hsub 0xb7 (by simp only [UInt8.reduceToNat]; omega)]
        rfl
      · split
        · rw [hsub 0xc0 (by simp only [UInt8.reduceToNat]; omega)]
          rfl
        · rw [hsub 0xf7 (by simp only [UInt8.reduceToNat]; omega)]
          rfl

/-- A long extent is read exactly off the digits that are written for it. -/
theorem longExtent_eq_ok_iff {count : ℕ} (hc : count ≤ 8) {rest : Bytes} {e : Extent} :
    longExtent count rest = .ok e ↔
      55 < e.payload ∧ e.payload < UInt64.size ∧ e.header = 1 + count ∧
        (minimalBigEndian (UInt64.ofNat e.payload)).length = count ∧
        minimalBigEndian (UInt64.ofNat e.payload) <+: rest := by
  cases rest with
  | nil =>
    simp only [longExtent, reduceCtorEq, false_iff, not_and, List.prefix_nil]
    intro hlong hsize _ _ hnil
    have hpos := length_minimalBigEndian_pos (by omega) hsize
    rw [hnil, List.length_nil] at hpos
    omega
  | cons b rest =>
    constructor
    · intro h
      simp only [longExtent] at h
      split at h
      · cases h
      rename_i hb
      split at h
      · cases h
      rename_i hlen
      split at h
      · cases h
      rename_i hlong
      cases h
      simp only [not_lt] at hlen
      have htake : ((b :: rest).take count).length = count := by
        rw [List.length_take]
        omega
      have hval : minimalBigEndian (UInt64.ofNat (bigEndianNat ((b :: rest).take count))) =
          (b :: rest).take count := by
        apply minimalBigEndian_bigEndianNat (by omega)
        cases count with
        | zero => simp
        | succ count => simpa using hb
      have hlt := bigEndianNat_lt ((b :: rest).take count)
      rw [htake] at hlt
      have hpow : 256 ^ count ≤ 256 ^ 8 := Nat.pow_le_pow_right (by omega) hc
      refine ⟨by simpa using hlong, lt_of_lt_of_le hlt hpow, rfl, ?_, ?_⟩
      · rw [hval, htake]
      · rw [hval]
        exact List.take_prefix _ _
    · rintro ⟨hlong, hsize, hheader, hcount, hpre⟩
      have hval := bigEndianNat_minimalBigEndian (UInt64.ofNat e.payload)
      rw [UInt64.toNat_ofNat_of_lt' hsize] at hval
      have htake : (b :: rest).take count = minimalBigEndian (UInt64.ofNat e.payload) := by
        rw [← hcount]
        exact (List.prefix_iff_eq_take.1 hpre).symm
      have hlen := hpre.length_le
      have hb : b ≠ 0 := by
        rintro rfl
        cases hd : minimalBigEndian (UInt64.ofNat e.payload) with
        | nil =>
          rw [hd, bigEndianNat_nil] at hval
          omega
        | cons c ds =>
          rw [hd] at hpre
          have hc0 : c = 0 := (List.cons_prefix_cons.1 hpre).1
          exact head?_minimalBigEndian (UInt64.ofNat e.payload) (by rw [hd, hc0]; rfl)
      simp only [longExtent, if_neg hb]
      rw [if_neg (by omega), htake, hval, if_neg (by omega), ← hheader]

theorem length_header (base : UInt8) (n : ℕ) : (header base n).length =
    if n ≤ 55 then 1 else 1 + (minimalBigEndian (UInt64.ofNat n)).length := by
  split
  · rename_i hn
    rw [header_short hn, List.length_singleton]
  · rename_i hn
    rw [header_long hn, List.length_cons, Nat.add_comm]

/-- Where a written header stands in front, its first byte tells the kind and the length, or the
length of the length. -/
theorem header_prefix_cons_iff {list : Bool} {n : ℕ} {b : UInt8} {rest : Bytes} :
    header (mark list) n <+: b :: rest ↔
      (n ≤ 55 ∧ b.toNat = (if list then 192 else 128) + n) ∨
      (55 < n ∧ b.toNat = (if list then 192 else 128) + 55 +
        (minimalBigEndian (UInt64.ofNat n)).length ∧ minimalBigEndian (UInt64.ofNat n) <+: rest) := by
  by_cases hn : n ≤ 55
  · have hval : (mark list + UInt8.ofNat n).toNat = (if list then 192 else 128) + n := by
      rw [UInt8.toNat_add, toNat_mark, UInt8.toNat_ofNat']
      split <;> omega
    rw [header_short hn, List.cons_prefix_cons, ← UInt8.toNat_inj, hval]
    simp only [List.nil_prefix, and_true]
    omega
  · have hk := length_minimalBigEndian_le (UInt64.ofNat n)
    have hval : (mark list + 55 + UInt8.ofNat (minimalBigEndian (UInt64.ofNat n)).length).toNat =
        (if list then 192 else 128) + 55 + (minimalBigEndian (UInt64.ofNat n)).length := by
      rw [UInt8.toNat_add, UInt8.toNat_add, toNat_mark, UInt8.toNat_ofNat']
      simp only [UInt8.reduceToNat]
      split <;> omega
    rw [header_long hn, List.cons_prefix_cons, ← UInt8.toNat_inj, hval]
    constructor
    · rintro ⟨hb, hpre⟩
      exact .inr ⟨by omega, hb.symm, hpre⟩
    · rintro (⟨hn', _⟩ | ⟨_, hb, hpre⟩)
      · exact absurd hn' hn
      · exact ⟨hb.symm, hpre⟩

/-- The two ways a header can be read: a byte that is its own item, or the written header of a
kind and a length. -/
theorem claimedExtent_eq_ok_iff {bytes : Bytes} {e : Extent} :
    claimedExtent bytes = .ok e ↔
      (e = ⟨0, 1⟩ ∧ ∃ b : UInt8, b < 0x80 ∧ [b] <+: bytes) ∨
      ∃ list, e.payload < UInt64.size ∧ e.header = (header (mark list) e.payload).length ∧
        header (mark list) e.payload <+: bytes := by
  have hsize : UInt64.size = 18446744073709551616 := rfl
  cases bytes with
  | nil =>
    simp only [claimedExtent, reduceCtorEq, false_iff, List.prefix_nil, not_or, not_and, not_exists]
    exact ⟨fun _ _ _ h => h.elim, fun list _ _ h => header_ne_nil _ _ h⟩
  | cons b rest =>
    have hb : b.toNat < 256 := b.toNat_lt
    simp only [claimedExtent_cons, header_prefix_cons_iff, length_header, List.cons_prefix_cons,
      List.nil_prefix, and_true, Bool.exists_bool, Bool.false_eq_true, if_false, if_true,
      exists_eq_right, UInt8.lt_iff_toNat_lt, UInt8.reduceToNat]
    constructor
    · intro h
      split at h
      · rename_i h1
        cases h
        exact .inl ⟨rfl, h1⟩
      rename_i h1
      right
      split at h
      · rename_i h2
        cases h
        exact .inl ⟨by simp only; omega, by simp; omega, .inl (by simp only; omega)⟩
      rename_i h2
      split at h
      · obtain ⟨hlong, hlt, hh, hc, hpre⟩ := (longExtent_eq_ok_iff (by omega)).1 h
        exact .inl ⟨hlt, by rw [if_neg (by omega)]; omega, .inr ⟨hlong, by omega, hpre⟩⟩
      rename_i h3
      split at h
      · rename_i h4
        cases h
        exact .inr ⟨by simp only; omega, by simp; omega, .inl (by simp only; omega)⟩
      · obtain ⟨hlong, hlt, hh, hc, hpre⟩ := (longExtent_eq_ok_iff (by omega)).1 h
        exact .inr ⟨hlt, by rw [if_neg (by omega)]; omega, .inr ⟨hlong, by omega, hpre⟩⟩
    · have hk := length_minimalBigEndian_le (UInt64.ofNat e.payload)
      rintro (⟨rfl, h1⟩ | ⟨hlt, hh, ⟨hn, hb1⟩ | ⟨hn, hb1, hpre⟩⟩ | ⟨hlt, hh, ⟨hn, hb1⟩ | ⟨hn, hb1, hpre⟩⟩)
      · rw [if_pos h1]
      · rw [if_pos hn] at hh
        rw [if_neg (by omega), if_pos (by omega), ← hh, hb1, Nat.add_sub_cancel_left]
      · rw [if_neg (by omega)] at hh
        have hpos := length_minimalBigEndian_pos (by omega) hlt
        rw [if_neg (by omega), if_neg (by omega), if_pos (by omega)]
        exact (longExtent_eq_ok_iff (by omega)).2 ⟨hn, hlt, by omega, by omega, hpre⟩
      · rw [if_pos hn] at hh
        rw [if_neg (by omega), if_neg (by omega), if_neg (by omega), if_pos (by omega), ← hh, hb1,
          Nat.add_sub_cancel_left]
      · rw [if_neg (by omega)] at hh
        have hpos := length_minimalBigEndian_pos (by omega) hlt
        rw [if_neg (by omega), if_neg (by omega), if_neg (by omega), if_neg (by omega)]
        exact (longExtent_eq_ok_iff (by omega)).2 ⟨hn, hlt, by omega, by omega, hpre⟩

/-! ## Whole items -/

/-- Bytes that are one item and nothing else. -/
def IsItem (bytes : Bytes) : Prop := ∃ e, extent bytes = .ok e ∧ e.total = bytes.length

/-- Bytes with no item at their front. -/
def Unreadable (bytes : Bytes) : Prop := ∀ e, extent bytes ≠ .ok e

theorem extent_eq_ok_iff {bytes : Bytes} {e : Extent} :
    extent bytes = .ok e ↔ claimedExtent bytes = .ok e ∧ e.total ≤ bytes.length := by
  unfold extent
  cases claimedExtent bytes with
  | error err => simp
  | ok c =>
    simp only [Except.ok.injEq]
    split
    · rename_i h
      simp only [reduceCtorEq, false_iff, not_and, not_le]
      rintro rfl
      exact h
    · rename_i h
      simp only [Except.ok.injEq]
      constructor
      · rintro rfl
        exact ⟨rfl, by omega⟩
      · exact And.left

theorem unreadable_nil : Unreadable [] := by
  intro e h
  cases (extent_eq_ok_iff.1 h).1

theorem Extent.total_pos {bytes : Bytes} {e : Extent} (h : extent bytes = .ok e) : 0 < e.total := by
  rcases claimedExtent_eq_ok_iff.1 (extent_eq_ok_iff.1 h).1 with ⟨rfl, _⟩ | ⟨list, _, hh, _⟩
  · decide
  · have := List.length_pos_iff.2 (header_ne_nil (mark list) e.payload)
    unfold Extent.total
    omega

/-- An item is read the same whatever stands behind it. -/
theorem extent_append {item : Bytes} {e : Extent} (h : extent item = .ok e) (rest : Bytes) :
    extent (item ++ rest) = .ok e := by
  obtain ⟨hc, hl⟩ := extent_eq_ok_iff.1 h
  refine extent_eq_ok_iff.2 ⟨?_, by rw [List.length_append]; omega⟩
  rcases claimedExtent_eq_ok_iff.1 hc with ⟨he, b, hb, hp⟩ | ⟨list, hs, hh, hp⟩
  · exact claimedExtent_eq_ok_iff.2 (.inl ⟨he, b, hb, hp.trans (List.prefix_append _ _)⟩)
  · exact claimedExtent_eq_ok_iff.2 (.inr ⟨list, hs, hh, hp.trans (List.prefix_append _ _)⟩)

/-- An item is read the same when what stands behind it is cut off. -/
theorem extent_take {bytes : Bytes} {e : Extent} (h : extent bytes = .ok e) :
    extent (bytes.take e.total) = .ok e := by
  obtain ⟨hc, hl⟩ := extent_eq_ok_iff.1 h
  refine extent_eq_ok_iff.2 ⟨?_, by rw [List.length_take]; omega⟩
  rcases claimedExtent_eq_ok_iff.1 hc with ⟨rfl, b, hb, hp⟩ | ⟨list, hs, hh, hp⟩
  · exact claimedExtent_eq_ok_iff.2 (.inl ⟨rfl, b, hb, List.prefix_take_iff.2 ⟨hp, le_rfl⟩⟩)
  · exact claimedExtent_eq_ok_iff.2
      (.inr ⟨list, hs, hh, List.prefix_take_iff.2 ⟨hp, by unfold Extent.total; omega⟩⟩)

theorem isItem_take {bytes : Bytes} {e : Extent} (h : extent bytes = .ok e) :
    IsItem (bytes.take e.total) :=
  ⟨e, extent_take h, by rw [List.length_take]; have := (extent_eq_ok_iff.1 h).2; omega⟩

theorem IsItem.length_pos {item : Bytes} (h : IsItem item) : 0 < item.length := by
  obtain ⟨e, he, ht⟩ := h
  rw [← ht]
  exact Extent.total_pos he

/-! ### The two shapes of an item -/

theorem extent_byte {b : UInt8} (hb : b < 0x80) : extent [b] = .ok ⟨0, 1⟩ :=
  extent_eq_ok_iff.2 ⟨claimedExtent_eq_ok_iff.2 (.inl ⟨rfl, b, hb, List.prefix_rfl⟩), le_rfl⟩

theorem extent_header {payload : Bytes} (hs : payload.length < UInt64.size) (list : Bool) :
    extent (header (mark list) payload.length ++ payload) =
      .ok ⟨(header (mark list) payload.length).length, payload.length⟩ := by
  refine extent_eq_ok_iff.2 ⟨claimedExtent_eq_ok_iff.2 (.inr ⟨list, hs, rfl, ?_⟩), ?_⟩
  · exact List.prefix_append _ _
  · rw [List.length_append]
    exact le_rfl

/-- An item is a single byte, or a written header and its payload. -/
theorem isItem_iff {item : Bytes} :
    IsItem item ↔ (∃ b : UInt8, b < 0x80 ∧ item = [b]) ∨
      ∃ list payload, payload.length < UInt64.size ∧
        item = header (mark list) payload.length ++ payload := by
  constructor
  · rintro ⟨e, he, ht⟩
    rcases claimedExtent_eq_ok_iff.1 (extent_eq_ok_iff.1 he).1 with
      ⟨rfl, b, hb, hp⟩ | ⟨list, hs, hh, payload, hp⟩
    · exact .inl ⟨b, hb, (hp.eq_of_length (by rw [← ht]; rfl)).symm⟩
    · have hlen : e.payload = payload.length := by
        have := congrArg List.length hp
        rw [List.length_append, ← ht, ← hh, Extent.total] at this
        omega
      rw [hlen] at hs hp
      exact .inr ⟨list, payload, hs, hp.symm⟩
  · rintro (⟨b, hb, rfl⟩ | ⟨list, payload, hs, rfl⟩)
    · exact ⟨_, extent_byte hb, rfl⟩
    · exact ⟨_, extent_header hs list, by rw [List.length_append]; rfl⟩

theorem isList_header_append (list : Bool) (n : ℕ) (bytes : Bytes) :
    isList (header (mark list) n ++ bytes) = list := by
  cases hh : header (mark list) n with
  | nil => exact absurd hh (header_ne_nil _ _)
  | cons b rest =>
    have hb := header_prefix_cons_iff.1 (hh ▸ List.prefix_rfl : header (mark list) n <+: b :: rest)
    have hk := length_minimalBigEndian_le (UInt64.ofNat n)
    have hbyte : isList (b :: rest ++ bytes) = decide (192 ≤ b.toNat) := by
      simp only [List.cons_append, isList, UInt8.le_iff_toNat_le, UInt8.reduceToNat]
    rw [hbyte]
    cases list with
    | false =>
      simp only [Bool.false_eq_true, if_false] at hb
      rw [decide_eq_false_iff_not]
      omega
    | true =>
      simp only [if_true] at hb
      rw [decide_eq_true_iff]
      omega

/-- The lists are the items of the second shape that start from the mark of a list. -/
theorem isItem_and_isList_iff {item : Bytes} :
    IsItem item ∧ isList item = true ↔
      ∃ payload : Bytes, payload.length < UInt64.size ∧
        item = header 0xc0 payload.length ++ payload := by
  constructor
  · rintro ⟨hitem, hlist⟩
    rcases isItem_iff.1 hitem with ⟨b, hb, rfl⟩ | ⟨list, payload, hs, rfl⟩
    · simp only [isList, decide_eq_true_eq, UInt8.le_iff_toNat_le, UInt8.lt_iff_toNat_lt,
        UInt8.reduceToNat] at hb hlist
      omega
    · rw [isList_header_append] at hlist
      subst hlist
      exact ⟨payload, hs, rfl⟩
  · rintro ⟨payload, hs, rfl⟩
    exact ⟨isItem_iff.2 (.inr ⟨true, payload, hs, rfl⟩), isList_header_append true _ payload⟩

/-! ## Items one after another -/

theorem itemsUpTo_of_unreadable {bytes : Bytes} (h : Unreadable bytes) (count : ℕ) :
    itemsUpTo count bytes = [] := by
  cases count with
  | zero => rfl
  | succ count =>
    cases he : extent bytes with
    | error err => simp [itemsUpTo, he]
    | ok e => exact absurd he (h e)

theorem itemsUpTo_append {item : Bytes} (h : IsItem item) (count : ℕ) (rest : Bytes) :
    itemsUpTo (count + 1) (item ++ rest) = item :: itemsUpTo count rest := by
  obtain ⟨e, he, ht⟩ := h
  simp only [itemsUpTo, extent_append he rest, ht, List.take_left, List.drop_left]

theorem length_le_flatten {items : List Bytes} (h : ∀ i ∈ items, IsItem i) :
    items.length ≤ items.flatten.length := by
  induction items with
  | nil => rfl
  | cons item items ih =>
    have hpos := (h item (List.mem_cons_self ..)).length_pos
    have := ih (fun i hi => h i (List.mem_cons_of_mem item hi))
    rw [List.length_cons, List.flatten_cons, List.length_append]
    omega

/-- Enough tries read off all items, and leave a rest that is no item. -/
theorem exists_rest_of_itemsUpTo {count : ℕ} {bytes : Bytes} (hc : bytes.length ≤ count) :
    (∀ i ∈ itemsUpTo count bytes, IsItem i) ∧
      ∃ rest, Unreadable rest ∧ bytes = (itemsUpTo count bytes).flatten ++ rest := by
  induction count generalizing bytes with
  | zero =>
    have hnil : bytes = [] := List.length_eq_zero_iff.1 (by omega)
    subst hnil
    exact ⟨by simp [itemsUpTo], [], unreadable_nil, rfl⟩
  | succ count ih =>
    cases he : extent bytes with
    | error err =>
      have hrest : Unreadable bytes := by
        intro e h
        rw [he] at h
        cases h
      rw [itemsUpTo_of_unreadable hrest]
      exact ⟨by simp, bytes, hrest, rfl⟩
    | ok e =>
      have hpos := Extent.total_pos he
      have hlen := (extent_eq_ok_iff.1 he).2
      have hshort : (bytes.drop e.total).length ≤ count := by
        rw [List.length_drop]
        omega
      obtain ⟨hitems, rest, hrest, heq⟩ := ih hshort
      have hstep : itemsUpTo (count + 1) bytes =
          bytes.take e.total :: itemsUpTo count (bytes.drop e.total) := by
        simp only [itemsUpTo, he]
      rw [hstep]
      refine ⟨?_, rest, hrest, ?_⟩
      · intro i hi
        rcases List.mem_cons.1 hi with rfl | hi
        · exact isItem_take he
        · exact hitems i hi
      · rw [List.flatten_cons, List.append_assoc, ← heq, List.take_append_drop]

/-- The items read off some bytes are the only cut into whole items and a rest that is none. -/
theorem itemsUpTo_eq_iff {count : ℕ} {bytes : Bytes} {items : List Bytes}
    (hc : bytes.length ≤ count) :
    itemsUpTo count bytes = items ↔
      (∀ i ∈ items, IsItem i) ∧ ∃ rest, Unreadable rest ∧ bytes = items.flatten ++ rest := by
  constructor
  · rintro rfl
    exact exists_rest_of_itemsUpTo hc
  · rintro ⟨hitems, rest, hrest, rfl⟩
    have hle := length_le_flatten hitems
    rw [List.length_append] at hc
    obtain ⟨k, rfl⟩ : ∃ k, count = items.length + k := ⟨count - items.length, by omega⟩
    clear hc hle
    induction items with
    | nil => exact itemsUpTo_of_unreadable hrest _
    | cons item items ih =>
      rw [List.flatten_cons, List.append_assoc, List.length_cons,
        show items.length + 1 + k = items.length + k + 1 by omega,
        itemsUpTo_append (hitems item (List.mem_cons_self ..)),
        ih (fun i hi => hitems i (List.mem_cons_of_mem item hi))]

/-- The items of a list that nothing stands behind. -/
theorem listItems_header_eq_ok_iff {payload : Bytes} (hs : payload.length < UInt64.size)
    {items : List Bytes} :
    listItems (header 0xc0 payload.length ++ payload) = .ok items ↔
      (∀ i ∈ items, IsItem i) ∧ ∃ rest, Unreadable rest ∧ payload = items.flatten ++ rest := by
  rw [← itemsUpTo_eq_iff (Nat.le_succ payload.length)]
  have hlist : isList (header 0xc0 payload.length ++ payload) = true :=
    isList_header_append true _ payload
  have hext := extent_header hs true
  have hdrop : (header 0xc0 payload.length ++ payload).drop (header 0xc0 payload.length).length = payload :=
    List.drop_left
  simp only [mark, if_true] at hext
  simp only [listItems, hlist, if_true, hext, hdrop, List.take_length, itemsUpTo]
  cases extent payload with
  | error err => simp only [Except.ok.injEq]
  | ok e => simp only [Except.ok.injEq]

theorem listItems_encodeList {items : List Bytes} (hitems : ∀ i ∈ items, IsItem i)
    (hs : items.flatten.length < UInt64.size) : listItems (encodeList items) = .ok items :=
  (listItems_header_eq_ok_iff hs).2 ⟨hitems, [], unreadable_nil, (List.append_nil _).symm⟩

/-! ## What an item holds -/

/-- A string item is a byte below `0x80`, or the header of a string and the string, unless the
string is such a byte. -/
theorem encodeString_cases (bytes : Bytes) :
    (∃ b : UInt8, b < 0x80 ∧ bytes = [b] ∧ encodeString bytes = [b]) ∨
      ((∀ b : UInt8, b < 0x80 → bytes ≠ [b]) ∧
        encodeString bytes = header (mark false) bytes.length ++ bytes) := by
  match bytes with
  | [] => exact .inr ⟨by simp, rfl⟩
  | [b] =>
    by_cases hb : b < 0x80
    · exact .inl ⟨b, hb, rfl, if_pos hb⟩
    · refine .inr ⟨?_, if_neg hb⟩
      rintro c hc h
      cases h
      exact hb hc
  | _ :: _ :: _ => exact .inr ⟨by simp, rfl⟩

theorem isItem_encodeString {bytes : Bytes} (hs : bytes.length < UInt64.size) :
    IsItem (encodeString bytes) := by
  rcases encodeString_cases bytes with ⟨b, hb, _, he⟩ | ⟨_, he⟩
  · exact isItem_iff.2 (.inl ⟨b, hb, he⟩)
  · exact isItem_iff.2 (.inr ⟨false, bytes, hs, he⟩)

theorem isItem_encodeList {items : List Bytes} (hs : items.flatten.length < UInt64.size) :
    IsItem (encodeList items) :=
  isItem_iff.2 (.inr ⟨true, items.flatten, hs, rfl⟩)

theorem payload_byte {b : UInt8} (hb : b < 0x80) : payload [b] = .ok [b] := by
  rw [payload, extent_byte hb]
  rfl

theorem payload_header {bytes : Bytes} (hs : bytes.length < UInt64.size) (list : Bool) :
    payload (header (mark list) bytes.length ++ bytes) = .ok bytes := by
  simp only [payload, extent_header hs list, Except.map, List.drop_left, List.take_length]

/-- A header of one payload byte is the byte `0x81`, and no other header is. -/
theorem header_head?_eq_iff {n : ℕ} (hs : n < UInt64.size) :
    (header (mark false) n).head? = some 0x81 ↔ n = 1 := by
  cases hh : header (mark false) n with
  | nil => exact absurd hh (header_ne_nil _ _)
  | cons b rest =>
    have hb := header_prefix_cons_iff.1 (hh ▸ List.prefix_rfl : header (mark false) n <+: b :: rest)
    have hk : 55 < n → 0 < (minimalBigEndian (UInt64.ofNat n)).length := fun h =>
      length_minimalBigEndian_pos (by omega) hs
    simp only [Bool.false_eq_true, if_false] at hb
    rw [List.head?_cons, Option.some.injEq, ← UInt8.toNat_inj]
    simp only [UInt8.reduceToNat]
    omega

theorem string_byte {b : UInt8} (hb : b < 0x80) : string [b] = .ok [b] := by
  have hlist : isList [b] = false := by
    simp only [isList, decide_eq_false_iff_not, UInt8.le_iff_toNat_le, UInt8.lt_iff_toNat_lt,
      UInt8.reduceToNat] at hb ⊢
    omega
  have h81 : b ≠ 0x81 := by
    rintro rfl
    exact absurd hb (by decide)
  simp only [string, hlist, Bool.false_eq_true, if_false, payload_byte hb]
  split
  · rename_i h1 _
    exact absurd (List.cons.inj h1).1 h81
  · rfl

/-- A string item is refused only when its one byte should have been its own item. -/
theorem string_header_eq_ok_iff {bytes out : Bytes} (hs : bytes.length < UInt64.size) :
    string (header (mark false) bytes.length ++ bytes) = .ok out ↔
      out = bytes ∧ ∀ b : UInt8, b < 0x80 → bytes ≠ [b] := by
  simp only [string, isList_header_append, Bool.false_eq_true, if_false, payload_header hs]
  split
  · rename_i rest b tail hitem
    have hhead : (header (mark false) (b :: tail).length).head? = some 0x81 := by
      cases hh : header (mark false) (b :: tail).length with
      | nil => exact absurd hh (header_ne_nil _ _)
      | cons c cs =>
        rw [hh] at hitem
        rw [List.head?_cons, (List.cons.inj hitem).1]
    have htail : tail = [] := by
      have := (header_head?_eq_iff hs).1 hhead
      exact List.length_eq_zero_iff.1 (by simpa using this)
    subst htail
    split
    · rename_i hb
      simp only [reduceCtorEq, false_iff, not_and, not_forall]
      exact fun _ => ⟨b, hb, fun h => h rfl⟩
    · rename_i hb
      rw [Except.ok.injEq, eq_comm]
      refine ⟨fun h => ⟨h, ?_⟩, And.left⟩
      rintro c hc h
      cases h
      exact hb hc
  · rename_i hno
    rw [Except.ok.injEq, eq_comm]
    refine ⟨fun h => ⟨h, ?_⟩, And.left⟩
    rintro b _ rfl
    exact hno [b] b [] rfl rfl

theorem string_encodeString {bytes : Bytes} (hs : bytes.length < UInt64.size) :
    string (encodeString bytes) = .ok bytes := by
  rcases encodeString_cases bytes with ⟨b, hb, rfl, he⟩ | ⟨hne, he⟩
  · rw [he, string_byte hb]
  · rw [he]
    exact (string_header_eq_ok_iff hs).2 ⟨rfl, hne⟩

theorem eq_encodeString_of_string {item bytes : Bytes} (h : IsItem item)
    (hstr : string item = .ok bytes) : bytes.length < UInt64.size ∧ item = encodeString bytes := by
  rcases isItem_iff.1 h with ⟨b, hb, rfl⟩ | ⟨list, p, hs, rfl⟩
  · rw [string_byte hb] at hstr
    cases hstr
    exact ⟨Nat.lt_of_le_of_lt (Nat.le_refl 1) (by decide), (if_pos hb).symm⟩
  · cases list with
    | true => simp only [string, isList_header_append, if_true, reduceCtorEq] at hstr
    | false =>
      obtain ⟨rfl, hne⟩ := (string_header_eq_ok_iff hs).1 hstr
      refine ⟨hs, ?_⟩
      rcases encodeString_cases bytes with ⟨b, hb, hbytes, _⟩ | ⟨_, he⟩
      · exact absurd hbytes (hne b hb)
      · exact he.symm

/-! ### Words and fields of fixed width -/

theorem length_minimalBigEndian_lt_size (w : UInt64) :
    (minimalBigEndian w).length < UInt64.size :=
  lt_of_le_of_lt (length_minimalBigEndian_le w) (by decide)

theorem isItem_encodeWord (w : UInt64) : IsItem (encodeWord w) :=
  isItem_encodeString (length_minimalBigEndian_lt_size w)

theorem length_encodeString_le {bytes : Bytes} (h : bytes.length ≤ 55) :
    (encodeString bytes).length ≤ 1 + bytes.length := by
  rcases encodeString_cases bytes with ⟨b, _, rfl, he⟩ | ⟨_, he⟩
  · rw [he]
    exact Nat.le_succ 1
  · rw [he, List.length_append, length_header, if_pos h]

theorem length_encodeWord_le (w : UInt64) : (encodeWord w).length ≤ 9 := by
  have hlen := length_minimalBigEndian_le w
  have := length_encodeString_le (hlen.trans (by decide : 8 ≤ 55))
  unfold encodeWord
  omega

theorem word_encodeWord (w : UInt64) : word (encodeWord w) = .ok w := by
  have hlen := length_minimalBigEndian_le w
  rw [word, encodeWord, string_encodeString (length_minimalBigEndian_lt_size w)]
  simp only [if_neg (Nat.not_lt.2 hlen), if_neg (head?_minimalBigEndian w),
    bigEndianNat_minimalBigEndian, UInt64.ofNat_toNat]

theorem eq_encodeWord_of_word {item : Bytes} {w : UInt64} (h : IsItem item)
    (hw : word item = .ok w) : item = encodeWord w := by
  unfold word at hw
  split at hw
  · cases hw
  rename_i bytes hstr
  split at hw
  · cases hw
  rename_i hlen
  split at hw
  · cases hw
  rename_i hhead
  cases hw
  rw [(eq_encodeString_of_string h hstr).2, encodeWord,
    minimalBigEndian_bigEndianNat (Nat.not_lt.1 hlen) hhead]

theorem octets_eq_ok_iff {n : ℕ} {item : Bytes} {a : Octets n} :
    octets n item = .ok a ↔ payload item = .ok a.toList := by
  unfold octets
  cases payload item with
  | error err => simp
  | ok bytes =>
    simp only [Except.ok.injEq]
    rw [eq_comm (a := bytes), ← Octets.ofList?_eq_some_iff]
    cases Octets.ofList? n bytes with
    | none => simp
    | some c => simp

theorem encodeString_eq_header {n : ℕ} (hn : n ≠ 1) (a : Octets n) :
    encodeString a.toList = header (mark false) n ++ a.toList := by
  have hlen := a.length_toList
  rcases encodeString_cases a.toList with ⟨b, _, hb, _⟩ | ⟨_, he⟩
  · rw [hb] at hlen
    exact absurd hlen.symm hn
  · rw [he, hlen]

theorem encodeList_singleton (bytes : Bytes) :
    encodeList [bytes] = header (mark true) bytes.length ++ bytes := by
  simp only [encodeList, List.flatten_singleton]
  rfl

/-- A field of fixed width is read off an item of either kind. -/
theorem octets_eq_ok_iff_of_isItem {n : ℕ} (hn : n ≠ 1) (hs : n < UInt64.size) {item : Bytes}
    {a : Octets n} (h : IsItem item) :
    octets n item = .ok a ↔ item = encodeString a.toList ∨ item = encodeList [a.toList] := by
  have hlen := a.length_toList
  have hlist := encodeList_singleton a.toList
  rw [hlen] at hlist
  rw [octets_eq_ok_iff, encodeString_eq_header hn, hlist]
  constructor
  · intro hp
    rcases isItem_iff.1 h with ⟨b, hb, rfl⟩ | ⟨list, p, hps, rfl⟩
    · rw [payload_byte hb, Except.ok.injEq] at hp
      rw [← hp] at hlen
      exact absurd hlen.symm hn
    · rw [payload_header hps, Except.ok.injEq] at hp
      subst hp
      rw [hlen]
      cases list
      · exact .inl rfl
      · exact .inr rfl
  · rintro (rfl | rfl)
    · have := payload_header (hlen.symm ▸ hs) false
      rwa [hlen] at this
    · have := payload_header (hlen.symm ▸ hs) true
      rwa [hlen] at this

theorem octets_encodeString {n : ℕ} (hn : n ≠ 1) (hs : n < UInt64.size) (a : Octets n) :
    octets n (encodeString a.toList) = .ok a := by
  have hitem : IsItem (encodeString a.toList) := by
    apply isItem_encodeString
    rwa [a.length_toList]
  exact (octets_eq_ok_iff_of_isItem hn hs hitem).2 (.inl rfl)

end BlockSeal.Rlp
