import BlockSeal.Hex

/-! # Hexadecimal texts are read back

* `utf8_digitList`: the digits of some bytes as bytes of the text, two for each.
* `decodePairs_digitPairs`: reading the digits gives the bytes.
* `decode_text`: a text that was written from bytes spells just these bytes.
-/

set_option autoImplicit false

namespace BlockSeal.Hex

def digitByte (n : UInt8) : UInt8 := if n < 10 then n + 0x30 else n + 0x57

def digitPairs (bytes : Bytes) : Bytes :=
  bytes.flatMap fun (b : UInt8) => [digitByte (b >>> 4), digitByte (b &&& 15)]

/-! ## Digits -/

theorem value?_digitByte {n : UInt8} (h : n < 16) : value? (digitByte n) = some n := by
  have key : ∀ k : Fin 16, value? (digitByte (UInt8.ofNat k)) = some (UInt8.ofNat k) := by decide
  have hn : n.toNat < 16 := UInt8.lt_iff_toNat_lt.1 h
  simpa only [UInt8.ofNat_toNat] using key ⟨n.toNat, hn⟩

/-- A digit takes one byte. -/
theorem utf8EncodeChar_digit {n : UInt8} (h : n < 16) :
    String.utf8EncodeChar (digit n) = [digitByte n] := by
  have key : ∀ k : Fin 16, String.utf8EncodeChar (digit (UInt8.ofNat k)) =
      [digitByte (UInt8.ofNat k)] := by decide
  have hn : n.toNat < 16 := UInt8.lt_iff_toNat_lt.1 h
  simpa only [UInt8.ofNat_toNat] using key ⟨n.toNat, hn⟩

theorem high_lt (b : UInt8) : b >>> 4 < 16 := by
  have hb := b.toNat_lt
  rw [UInt8.lt_iff_toNat_lt, UInt8.toNat_shiftRight]
  change b.toNat >>> 4 < 16
  rw [Nat.shiftRight_eq_div_pow]
  omega

theorem low_lt (b : UInt8) : b &&& 15 < 16 := by
  rw [UInt8.lt_iff_toNat_lt, UInt8.toNat_and]
  change b.toNat &&& 15 < 16
  have : b.toNat &&& 15 ≤ 15 := Nat.and_le_right
  omega

theorem high_or_low (b : UInt8) : (b >>> 4) <<< 4 ||| (b &&& 15) = b := by
  have key : ∀ k : Fin 256, (UInt8.ofNat k >>> 4) <<< 4 ||| (UInt8.ofNat k &&& 15) = UInt8.ofNat k := by
    decide +kernel
  simpa only [UInt8.ofNat_toNat] using key ⟨b.toNat, b.toNat_lt⟩

/-! ## Texts -/

theorem utf8_digitList (bytes : Bytes) : utf8 (digitList bytes) = digitPairs bytes := by
  induction bytes with
  | nil => rfl
  | cons b bytes ih =>
    rw [utf8, digitList, digitPairs] at *
    rw [List.flatMap_cons, List.flatMap_cons, List.flatMap_append, ih]
    simp only [List.flatMap_cons, List.flatMap_nil, List.append_nil,
      utf8EncodeChar_digit (high_lt b), utf8EncodeChar_digit (low_lt b), List.singleton_append]

@[simp] theorem length_digitPairs (bytes : Bytes) :
    (digitPairs bytes).length = 2 * bytes.length := by
  induction bytes with
  | nil => rfl
  | cons b bytes ih =>
    rw [digitPairs] at *
    rw [List.flatMap_cons, List.length_append, ih, List.length_cons, List.length_cons,
      List.length_cons, List.length_nil]
    omega

theorem decodePairs_digitPairs (bytes : Bytes) (position : Nat) :
    decodePairs position (digitPairs bytes) = .ok bytes := by
  induction bytes generalizing position with
  | nil => rfl
  | cons b bytes ih =>
    have hpairs : digitPairs (b :: bytes) =
        digitByte (b >>> 4) :: digitByte (b &&& 15) :: digitPairs bytes := rfl
    rw [hpairs, decodePairs, value?_digitByte (high_lt b), value?_digitByte (low_lt b)]
    simp only [ih, Except.map, high_or_low]

/-- A text that was written from bytes spells these bytes. -/
theorem decode_text (bytes : Bytes) : decode (text bytes) = .ok bytes := by
  have hmark : withoutMark (text bytes).toList = digitList bytes := by
    rw [text, String.toList_ofList]
    rfl
  unfold decode
  rw [hmark, utf8_digitList]
  dsimp only
  rw [length_digitPairs, if_neg (by omega), decodePairs_digitPairs]

end BlockSeal.Hex
