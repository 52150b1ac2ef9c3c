import BlockSeal.Proofs.Hex

/-! # Which texts spell a byte string

A text is read by the bytes that encode it, two at a time. A character that takes more than one byte
starts with a byte that is no digit, so a text is read exactly when its characters are digits, in pairs.

* `digitValue?`, `Spells`: the value of a digit of either case, and byte strings spelled by digits.
* `exists_utf8_cons`: the first byte of a text is a digit exactly when the first character is.
* `Spells.decodePairs_utf8`, `spells_of_decodePairs_utf8`: texts that are read two bytes at a time.
* `decode_eq_ok_iff`: the texts that are read, with the digits alone or with `0x` before them.
-/

set_option autoImplicit false

namespace BlockSeal.Hex

/-! ## Digits -/

/-- The value of a digit: its place among the sixteen digits of its case. -/
def digitValue? (c : Char) : Option Nat :=
  ("0123456789abcdef".toList.idxOf? c).or ("0123456789ABCDEF".toList.idxOf? c)

/-- Two digits for each byte, the high one first. -/
inductive Spells : List Char → Bytes → Prop
  | nil : Spells [] []
  | cons {c d : Char} {high low : Nat} {b : UInt8} {cs : List Char} {bytes : Bytes} :
      digitValue? c = some high → digitValue? d = some low → b.toNat = 16 * high + low →
        Spells cs bytes → Spells (c :: d :: cs) (b :: bytes)

theorem Spells.length_eq {cs : List Char} {bytes : Bytes} (h : Spells cs bytes) :
    cs.length = 2 * bytes.length := by
  induction h with
  | nil => rfl
  | cons _ _ _ _ ih =>
    simp only [List.length_cons, ih]
    omega

theorem value?_ascii (k : Fin 128) :
    (value? (UInt8.ofNat k)).map UInt8.toNat = digitValue? (Char.ofNat k) := by
  revert k
  decide +kernel

theorem value?_of_le {b : UInt8} (h : 0x80 ≤ b) : value? b = none := by
  rw [UInt8.le_iff_toNat_le] at h
  change 128 ≤ b.toNat at h
  simp only [value?, UInt8.le_iff_toNat_le]
  change (if 48 ≤ b.toNat ∧ b.toNat ≤ 57 then _ else if 97 ≤ b.toNat ∧ b.toNat ≤ 102 then _ else
    if 65 ≤ b.toNat ∧ b.toNat ≤ 70 then _ else _) = _
  rw [if_neg (by omega), if_neg (by omega), if_neg (by omega)]

theorem digitValue?_of_le {c : Char} (h : 128 ≤ c.toNat) : digitValue? c = none := by
  have hlower : ∀ d ∈ "0123456789abcdef".toList, d.toNat < 128 := by simp
  have hupper : ∀ d ∈ "0123456789ABCDEF".toList, d.toNat < 128 := by simp
  rw [digitValue?, Option.or_eq_none_iff, List.idxOf?_eq_none_iff, List.idxOf?_eq_none_iff]
  exact ⟨fun hmem => absurd (hlower c hmem) (by omega), fun hmem => absurd (hupper c hmem) (by omega)⟩

theorem value?_lt {b n : UInt8} (h : value? b = some n) : n < 16 := by
  have key : ∀ k : Fin 256, (value? (UInt8.ofNat k)).all (· < 16) = true := by decide +kernel
  have hb := key ⟨b.toNat, b.toNat_lt⟩
  simp only [UInt8.ofNat_toNat, h, Option.all_some, decide_eq_true_eq] at hb
  exact hb

theorem toNat_pair {high low : UInt8} (hhigh : high < 16) (hlow : low < 16) :
    (high <<< 4 ||| low).toNat = 16 * high.toNat + low.toNat := by
  have key : ∀ h l : Fin 16, (UInt8.ofNat h <<< 4 ||| UInt8.ofNat l).toNat = 16 * h.1 + l.1 := by
    decide +kernel
  have h := key ⟨high.toNat, UInt8.lt_iff_toNat_lt.1 hhigh⟩ ⟨low.toNat, UInt8.lt_iff_toNat_lt.1 hlow⟩
  simpa only [UInt8.ofNat_toNat] using h

/-! ## Characters -/

theorem utf8EncodeChar_of_lt {c : Char} (h : c.toNat < 128) :
    String.utf8EncodeChar c = [UInt8.ofNat c.toNat] :=
  if_pos (Nat.le_of_lt_succ h)

theorem utf8EncodeChar_of_le {c : Char} (h : 128 ≤ c.toNat) :
    ∃ b rest, String.utf8EncodeChar c = b :: rest ∧ 0x80 ≤ b := by
  have hfirst : ∀ n mark : Nat, 128 ≤ mark → n + mark < 256 →
      (0x80 : UInt8) ≤ UInt8.ofNat (n + mark) := by
    intro n mark hmark hlt
    rw [UInt8.le_iff_toNat_le, UInt8.toNat_ofNat_of_lt' hlt]
    change 128 ≤ n + mark
    omega
  have hv : c.val.toNat = c.toNat := rfl
  unfold String.utf8EncodeChar
  simp only [hv]
  rw [if_neg (by omega)]
  -- The first of two, three or four bytes.
  split
  · exact ⟨_, _, rfl, hfirst _ 192 (by omega) (by omega)⟩
  split
  · exact ⟨_, _, rfl, hfirst _ 224 (by omega) (by omega)⟩
  · exact ⟨_, _, rfl, hfirst _ 240 (by omega) (by omega)⟩

/-- The first byte of a text is a digit exactly when the first character is, and then it is the whole
of the character. -/
theorem exists_utf8_cons (c : Char) (cs : List Char) :
    ∃ b rest, utf8 (c :: cs) = b :: rest ∧ (value? b).map UInt8.toNat = digitValue? c ∧
      (digitValue? c ≠ none → rest = utf8 cs) := by
  have hcons : utf8 (c :: cs) = String.utf8EncodeChar c ++ utf8 cs := List.flatMap_cons
  by_cases hascii : c.toNat < 128
  · refine ⟨UInt8.ofNat c.toNat, utf8 cs, ?_, ?_, fun _ => rfl⟩
    · rw [hcons, utf8EncodeChar_of_lt hascii, List.singleton_append]
    · have hvalue := value?_ascii ⟨c.toNat, hascii⟩
      rwa [Char.ofNat_toNat] at hvalue
  · obtain ⟨b, rest, hchar, hb⟩ := utf8EncodeChar_of_le (Nat.le_of_not_lt hascii)
    have hnone := digitValue?_of_le (Nat.le_of_not_lt hascii)
    refine ⟨b, rest ++ utf8 cs, ?_, ?_, fun h => absurd hnone h⟩
    · rw [hcons, hchar, List.cons_append]
    · rw [value?_of_le hb, hnone, Option.map_none]

theorem digit_of_value? {c : Char} {cs : List Char} {b n : UInt8} {rest : Bytes}
    (h : utf8 (c :: cs) = b :: rest) (hn : value? b = some n) :
    digitValue? c = some n.toNat ∧ rest = utf8 cs := by
  obtain ⟨b', rest', hutf8, hvalue, hwhole⟩ := exists_utf8_cons c cs
  obtain ⟨rfl, rfl⟩ := List.cons.inj (h.symm.trans hutf8)
  rw [hn, Option.map_some] at hvalue
  exact ⟨hvalue.symm, hwhole (by rw [← hvalue]; exact Option.some_ne_none _)⟩

theorem exists_value?_of_digit {c : Char} {n : Nat} (h : digitValue? c = some n) (cs : List Char) :
    ∃ b v, utf8 (c :: cs) = b :: utf8 cs ∧ value? b = some v ∧ v.toNat = n := by
  obtain ⟨b, rest, hutf8, hvalue, hwhole⟩ := exists_utf8_cons c cs
  rw [h, Option.map_eq_some_iff] at hvalue
  obtain ⟨v, hv, hn⟩ := hvalue
  rw [hwhole (by rw [h]; exact Option.some_ne_none _)] at hutf8
  exact ⟨b, v, hutf8, hv, hn⟩

/-! ## Pairs -/

theorem decodePairs_eq_ok_iff {position : Nat} {high low : UInt8} {rest bytes : Bytes} :
    decodePairs position (high :: low :: rest) = .ok bytes ↔ ∃ h l tail,
      value? high = some h ∧ value? low = some l ∧
        decodePairs (position + 2) rest = .ok tail ∧ bytes = (h <<< 4 ||| l) :: tail := by
  rw [decodePairs]
  cases hhigh : value? high with
  | none => simp
  | some h =>
    cases hlow : value? low with
    | none => simp
    | some l =>
      cases htail : decodePairs (position + 2) rest with
      | error e => simp [Except.map]
      | ok tail => simp [Except.map, eq_comm]

theorem Spells.decodePairs_utf8 {cs : List Char} {bytes : Bytes} (h : Spells cs bytes) :
    (utf8 cs).length = 2 * bytes.length ∧
      ∀ position, decodePairs position (utf8 cs) = .ok bytes := by
  induction h with
  | nil => exact ⟨rfl, fun _ => rfl⟩
  | @cons c d _ _ b cs bytes hc hd hb _ ih =>
    obtain ⟨first, high, hfirst, hhigh, rfl⟩ := exists_value?_of_digit hc (d :: cs)
    obtain ⟨second, low, hsecond, hlow, rfl⟩ := exists_value?_of_digit hd cs
    obtain ⟨hlength, htail⟩ := ih
    rw [hfirst, hsecond]
    refine ⟨by simp only [List.length_cons, hlength]; omega, fun position => ?_⟩
    have hpair : b = high <<< 4 ||| low := by
      rw [← UInt8.toNat_inj, hb, toNat_pair (value?_lt hhigh) (value?_lt hlow)]
    exact decodePairs_eq_ok_iff.2 ⟨high, low, bytes, hhigh, hlow, htail _, by rw [hpair]⟩

/-- What is read off a text of an even number of bytes starts with a pair of its characters. -/
theorem exists_pair_of_decodePairs_utf8 {c : Char} {cs : List Char} {position : Nat} {bytes : Bytes}
    (heven : (utf8 (c :: cs)).length % 2 = 0)
    (h : decodePairs position (utf8 (c :: cs)) = .ok bytes) :
    ∃ d rest high low tail, cs = d :: rest ∧ digitValue? c = some high ∧
      digitValue? d = some low ∧ (utf8 rest).length % 2 = 0 ∧
      decodePairs (position + 2) (utf8 rest) = .ok tail ∧
      ∃ b : UInt8, b.toNat = 16 * high + low ∧ bytes = b :: tail := by
  obtain ⟨first, more, hutf8, -⟩ := exists_utf8_cons c cs
  rw [hutf8] at heven h
  cases more with
  | nil => cases heven
  | cons second rest =>
    obtain ⟨high, low, tail, hhigh, hlow, htail, hbytes⟩ := decodePairs_eq_ok_iff.1 h
    obtain ⟨hc, hmore⟩ := digit_of_value? hutf8 hhigh
    cases cs with
    | nil => cases hmore
    | cons d cs =>
      obtain ⟨hd, rfl⟩ := digit_of_value? hmore.symm hlow
      simp only [List.length_cons] at heven
      exact ⟨d, cs, _, _, tail, rfl, hc, hd, by omega, htail, _,
        toNat_pair (value?_lt hhigh) (value?_lt hlow), hbytes⟩

theorem spells_of_decodePairs_utf8 {cs : List Char} {position : Nat} {bytes : Bytes}
    (heven : (utf8 cs).length % 2 = 0) (h : decodePairs position (utf8 cs) = .ok bytes) :
    Spells cs bytes := by
  induction bytes generalizing cs position with
  | nil =>
    cases cs with
    | nil => exact .nil
    | cons c cs =>
      obtain ⟨_, _, _, _, _, _, _, _, _, _, _, _, hbytes⟩ := exists_pair_of_decodePairs_utf8 heven h
      cases hbytes
  | cons b bytes ih =>
    cases cs with
    | nil => cases h
    | cons c cs =>
      obtain ⟨d, rest, high, low, tail, rfl, hc, hd, hrest, htail, _, hb, hbytes⟩ :=
        exists_pair_of_decodePairs_utf8 heven h
      cases hbytes
      exact .cons hc hd hb (ih hrest htail)

/-! ## Texts -/

theorem decode_eq_ok_iff_withoutMark {s : String} {bytes : Bytes} :
    decode s = .ok bytes ↔ Spells (withoutMark s.toList) bytes := by
  unfold decode
  dsimp only
  constructor
  · intro h
    split at h
    · cases h
    · exact spells_of_decodePairs_utf8 (by omega) h
  · intro h
    obtain ⟨hlength, hread⟩ := h.decodePairs_utf8
    rw [if_neg (by omega), hread]

/-- The mark is no pair of digits, so a text cannot be read in two ways. -/
theorem Spells.withoutMark_eq {cs : List Char} {bytes : Bytes} (h : Spells cs bytes) :
    withoutMark cs = cs := by
  unfold withoutMark
  split
  · cases h with
    | cons _ hx _ _ =>
      rw [show digitValue? 'x' = none by decide] at hx
      cases hx
  · rfl

theorem decode_eq_ok_iff {s : String} {bytes : Bytes} :
    decode s = .ok bytes ↔ ∃ digits : List Char,
      (s.toList = digits ∨ s.toList = '0' :: 'x' :: digits) ∧ Spells digits bytes := by
  rw [decode_eq_ok_iff_withoutMark]
  constructor
  · intro h
    refine ⟨withoutMark s.toList, ?_, h⟩
    unfold withoutMark
    split
    · rename_i hmark
      exact .inr hmark
    · exact .inl rfl
  · rintro ⟨digits, htext | htext, h⟩
    · rwa [htext, h.withoutMark_eq]
    · rwa [htext]

end BlockSeal.Hex
