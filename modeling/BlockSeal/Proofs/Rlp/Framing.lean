import BlockSeal.Proofs.Rlp

/-! # Where an item ends

The bytes of an item tell where it ends. So items can stand one behind another without anything
between them, and bytes that break off inside an item are no item.

* `header_append_injective`: bytes start with one header only, whatever it is the header of.
* `encodeString_injective`, `encodeWord_injective`, `flatten_eq_of_encodeList`: what is written can
  only have been written for one string, one word, or the bytes of one list.
* `flatten_append_injective`: so many items in front of some bytes are the only ones there.
* `extent_of_broken`, `listItems_of_broken`: bytes that break off inside an item are too short, and
  if it is a list, no item is read off them.

None of the first three needs a bound on lengths: a length that is too large to be told is told
wrong, but its header is as long as it says.
-/

set_option autoImplicit false

namespace BlockSeal.Rlp

/-! ## Headers -/

theorem length_header_of_prefix {list : Bool} {n m : ℕ} {bytes : Bytes}
    (hn : header (mark list) n <+: bytes) (hm : header (mark list) m <+: bytes) :
    (header (mark list) n).length = (header (mark list) m).length := by
  cases bytes with
  | nil => exact absurd (List.prefix_nil.1 hn) (header_ne_nil _ _)
  | cons b rest =>
    have hn' := header_prefix_cons_iff.1 hn
    have hm' := header_prefix_cons_iff.1 hm
    rw [length_header, length_header]
    split <;> split <;> omega

theorem header_append_injective {list : Bool} {n m : ℕ} {a b : Bytes}
    (h : header (mark list) n ++ a = header (mark list) m ++ b) :
    header (mark list) n = header (mark list) m ∧ a = b := by
  apply List.append_inj h
  apply length_header_of_prefix (List.prefix_append _ a)
  rw [h]
  exact List.prefix_append _ b

/-- Lengths that are not far apart have different headers. -/
theorem eq_zero_of_header_eq {list : Bool} {n k : ℕ} (hk : k + 55 < UInt64.size)
    (h : header (mark list) n = header (mark list) (n + k)) : k = 0 := by
  have hsize : UInt64.size = 18446744073709551616 := rfl
  by_cases hn : n ≤ 55
  · obtain ⟨b, rest, hb⟩ := List.exists_cons_of_ne_nil (header_ne_nil (mark list) n)
    have hshort := header_prefix_cons_iff.1 (hb ▸ List.prefix_rfl : header (mark list) n <+: b :: rest)
    have hother := header_prefix_cons_iff.1
      (hb ▸ h ▸ List.prefix_rfl : header (mark list) (n + k) <+: b :: rest)
    have hpos : 55 < n + k → 0 < (minimalBigEndian (UInt64.ofNat (n + k))).length := fun hlong =>
      length_minimalBigEndian_pos (by omega) (by omega)
    omega
  · rw [header_long hn, header_long (by omega)] at h
    have hdigits := congrArg bigEndianNat (List.cons.inj h).2
    rw [bigEndianNat_minimalBigEndian, bigEndianNat_minimalBigEndian, UInt64.toNat_ofNat',
      UInt64.toNat_ofNat'] at hdigits
    omega

theorem header_append_ne_cons {list : Bool} {n : ℕ} {b : UInt8} (hb : b < 0x80) (x y : Bytes) :
    header (mark list) n ++ x ≠ b :: y := by
  intro h
  have hbegins : header (mark list) n <+: b :: y := by
    rw [← h]
    exact List.prefix_append _ x
  have hbyte := header_prefix_cons_iff.1 hbegins
  simp only [UInt8.lt_iff_toNat_lt, UInt8.reduceToNat] at hb
  cases list <;> simp only [Bool.false_eq_true, if_false, if_true] at hbyte <;> omega

/-! ## Strings, words and lists -/

/-- A string item is not the beginning of another one, unless that is longer by more bytes than a
header can count. -/
theorem encodeString_append_injective {a b rest : Bytes} (hrest : rest.length + 55 < UInt64.size)
    (h : encodeString a ++ rest = encodeString b) : a = b ∧ rest = [] := by
  rcases encodeString_cases a with ⟨x, hx, rfl, ha⟩ | ⟨_, ha⟩
  · rcases encodeString_cases b with ⟨y, hy, rfl, hb⟩ | ⟨_, hb⟩
    · rw [ha, hb, List.singleton_append, List.cons.injEq] at h
      exact ⟨by rw [h.1], h.2⟩
    · rw [ha, hb] at h
      exact absurd h.symm (header_append_ne_cons hx _ _)
  · rcases encodeString_cases b with ⟨y, hy, rfl, hb⟩ | ⟨_, hb⟩
    · rw [ha, hb, List.append_assoc] at h
      exact absurd h (header_append_ne_cons hy _ _)
    · rw [ha, hb, List.append_assoc] at h
      obtain ⟨hheader, rfl⟩ := header_append_injective h
      rw [List.length_append] at hheader
      have hnil : rest = [] := List.length_eq_zero_iff.1 (eq_zero_of_header_eq hrest hheader)
      exact ⟨by rw [hnil, List.append_nil], hnil⟩

theorem encodeString_injective {a b : Bytes} (h : encodeString a = encodeString b) : a = b := by
  have hnothing : encodeString a ++ [] = encodeString b := by rw [List.append_nil, h]
  exact (encodeString_append_injective (by decide) hnothing).1

theorem encodeWord_injective {v w : UInt64} (h : encodeWord v = encodeWord w) : v = w := by
  have hread := word_encodeWord v
  rw [h, word_encodeWord w, Except.ok.injEq] at hread
  exact hread.symm

/-- Two lists written with the same bytes hold the same bytes. -/
theorem flatten_eq_of_encodeList {a b : List Bytes} (h : encodeList a = encodeList b) :
    a.flatten = b.flatten := by
  have hbytes : header (mark true) a.flatten.length ++ a.flatten =
      header (mark true) b.flatten.length ++ b.flatten := h
  exact (header_append_injective hbytes).2

theorem length_le_encodeString (bytes : Bytes) : bytes.length ≤ (encodeString bytes).length := by
  rcases encodeString_cases bytes with ⟨b, _, rfl, he⟩ | ⟨_, he⟩
  · rw [he]
  · rw [he, List.length_append]
    exact Nat.le_add_left _ _

/-! ## Items in front of other bytes -/

theorem IsItem.append_injective {a b x y : Bytes} (ha : IsItem a) (hb : IsItem b)
    (h : a ++ x = b ++ y) : a = b ∧ x = y := by
  obtain ⟨e, he, hea⟩ := ha
  obtain ⟨f, hf, hfb⟩ := hb
  have hread := extent_append he x
  rw [h, extent_append hf y, Except.ok.injEq] at hread
  apply List.append_inj h
  rw [← hea, ← hfb, hread]

/-- There is one way to cut so many items off some bytes. -/
theorem flatten_append_injective {a b : List Bytes} {x y : Bytes} (ha : ∀ i ∈ a, IsItem i)
    (hb : ∀ i ∈ b, IsItem i) (hlength : a.length = b.length)
    (h : a.flatten ++ x = b.flatten ++ y) : a = b ∧ x = y := by
  induction a generalizing b with
  | nil =>
    obtain rfl : b = [] := List.length_eq_zero_iff.1 hlength.symm
    exact ⟨rfl, h⟩
  | cons i a ih =>
    cases b with
    | nil => cases hlength
    | cons j b =>
      rw [List.flatten_cons, List.flatten_cons, List.append_assoc, List.append_assoc] at h
      obtain ⟨rfl, hrest⟩ := (ha i (List.mem_cons_self ..)).append_injective
        (hb j (List.mem_cons_self ..)) h
      obtain ⟨rfl, rfl⟩ := ih (fun k hk => ha k (List.mem_cons_of_mem i hk))
        (fun k hk => hb k (List.mem_cons_of_mem i hk)) (Nat.succ.inj hlength) hrest
      exact ⟨rfl, rfl⟩

/-! ## Bytes that break off -/

/-- The beginning of a length is too short to tell it. -/
theorem longExtent_of_broken {count : ℕ} {digits bytes : Bytes} (hcount : count = digits.length)
    (hzero : digits.head? ≠ some 0) (hbroken : bytes <+: digits) (hne : bytes ≠ digits) :
    longExtent count bytes = .error .tooShort := by
  cases bytes with
  | nil => rfl
  | cons b rest =>
    have hlength : (b :: rest).length < count := by
      rw [hcount]
      refine lt_of_le_of_ne hbroken.length_le fun hsame => ?_
      exact hne (hbroken.eq_of_length hsame)
    have hb : b ≠ 0 := by
      rintro rfl
      obtain ⟨tail, rfl⟩ := hbroken
      exact hzero rfl
    simp only [longExtent, if_neg hb, if_pos hlength]

theorem claimedExtent_of_broken {list : Bool} {n : ℕ} {bytes : Bytes} (hsize : n < UInt64.size)
    (hbroken : bytes <+: header (mark list) n) (hne : bytes ≠ header (mark list) n) :
    claimedExtent bytes = .error .tooShort := by
  cases bytes with
  | nil => rfl
  | cons b rest =>
    by_cases hn : n ≤ 55
    · rw [header_short hn] at hbroken hne
      exact absurd (hbroken.eq_of_length_le (Nat.le_add_left 1 rest.length)) hne
    · have hheader : header (mark list) n = _ := header_long hn
      have hlow := length_minimalBigEndian_le (UInt64.ofNat n)
      have hpos := length_minimalBigEndian_pos (by omega) hsize
      rw [hheader, List.cons_prefix_cons] at hbroken
      obtain ⟨rfl, hrest⟩ := hbroken
      rw [hheader, ne_eq, List.cons.injEq, not_and] at hne
      have hfirst : header (mark list) n <+: _ := ⟨[], (List.append_nil _).trans hheader⟩
      have hbyte := header_prefix_cons_iff.1 hfirst
      have hzero := head?_minimalBigEndian (UInt64.ofNat n)
      rw [claimedExtent_cons]
      cases list with
      | false =>
        simp only [Bool.false_eq_true, if_false] at hbyte
        rw [if_neg (by omega), if_neg (by omega), if_pos (by omega)]
        exact longExtent_of_broken (by omega) hzero hrest (hne rfl)
      | true =>
        simp only [if_true] at hbyte
        rw [if_neg (by omega), if_neg (by omega), if_neg (by omega), if_neg (by omega)]
        exact longExtent_of_broken (by omega) hzero hrest (hne rfl)

/-- Bytes that break off inside an item are too short. -/
theorem extent_of_broken {item bytes : Bytes} (hitem : IsItem item) (hbroken : bytes <+: item)
    (hne : bytes ≠ item) : extent bytes = .error .tooShort := by
  have hlength : bytes.length < item.length := by
    refine lt_of_le_of_ne hbroken.length_le fun hsame => ?_
    exact hne (hbroken.eq_of_length hsame)
  rcases isItem_iff.1 hitem with ⟨b, _, rfl⟩ | ⟨list, payload, hsize, rfl⟩
  · obtain rfl : bytes = [] := List.length_eq_zero_iff.1 (Nat.lt_one_iff.1 hlength)
    rfl
  · have hheader := List.prefix_append (header (mark list) payload.length) payload
    by_cases hwhole : header (mark list) payload.length <+: bytes
    · have hclaimed : claimedExtent bytes =
          .ok ⟨(header (mark list) payload.length).length, payload.length⟩ :=
        claimedExtent_eq_ok_iff.2 (.inr ⟨list, hsize, rfl, hwhole⟩)
      rw [List.length_append] at hlength
      simp only [extent, hclaimed]
      exact if_pos hlength
    · have hinside := (List.prefix_or_prefix_of_prefix hbroken hheader).resolve_right hwhole
      have hother : bytes ≠ header (mark list) payload.length := by
        rintro rfl
        exact hwhole List.prefix_rfl
      simp only [extent, claimedExtent_of_broken hsize hinside hother]

theorem isList_of_prefix {item bytes : Bytes} (hbroken : bytes <+: item) (hne : bytes ≠ []) :
    isList bytes = isList item := by
  obtain ⟨rest, rfl⟩ := hbroken
  cases bytes with
  | nil => exact absurd rfl hne
  | cons b bytes => rfl

/-- Off bytes that break off inside a list no item is read. -/
theorem listItems_of_broken {item bytes : Bytes} (hitem : IsItem item) (hlist : isList item = true)
    (hbroken : bytes <+: item) (hne : bytes ≠ item) :
    listItems bytes = if bytes = [] then .error .notAList else .ok [] := by
  split
  · rename_i hnil
    rw [hnil]
    rfl
  · rename_i hnil
    rw [← isList_of_prefix hbroken hnil] at hlist
    simp only [listItems, hlist, if_true, extent_of_broken hitem hbroken hne]

end BlockSeal.Rlp
