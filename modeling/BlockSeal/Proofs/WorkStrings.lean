import BlockSeal.Proofs.Digits
import BlockSeal.Proofs.Hex.Spelling
import BlockSeal.Work

/-! # The texts of a work package

A package is handed out as four texts. The first three spell its byte strings, and the last one spells
the digits of its number without a leading zero, so that the package can be read off the texts.

* `minimalBigEndian_eq_nil_iff`: only zero has no digits.
* `WorkPackage.decode_strings`: what the four texts spell.
* `WorkPackage.strings_lossless`: different packages have different texts, and the texts that are read
  as a byte string are those that spell it.
-/

set_option autoImplicit false

namespace BlockSeal

theorem minimalBigEndian_eq_nil_iff {n : UInt64} : minimalBigEndian n = [] ↔ n = 0 := by
  constructor
  · intro h
    have hvalue := bigEndianNat_minimalBigEndian n
    rw [h, bigEndianNat_nil] at hvalue
    exact UInt64.toNat_inj.1 hvalue.symm
  · rintro rfl
    rfl

namespace WorkPackage

theorem decode_strings (w : WorkPackage) : w.strings.map Hex.decode =
    [.ok w.sealHash.toList, .ok w.secondary.toList, .ok w.payload, .ok (minimalBigEndian w.number)] := by
  simp only [strings, Hex.number, List.map_cons, List.map_nil, Hex.decode_text]

theorem eq_of_strings_eq {w w' : WorkPackage} (h : w.strings = w'.strings) : w = w' := by
  have hread := congrArg (List.map Hex.decode) h
  rw [decode_strings, decode_strings] at hread
  simp only [List.cons.injEq, Except.ok.injEq, and_true] at hread
  obtain ⟨hsealHash, hsecondary, hpayload, hdigits⟩ := hread
  have hnumber := congrArg bigEndianNat hdigits
  rw [bigEndianNat_minimalBigEndian, bigEndianNat_minimalBigEndian] at hnumber
  cases w
  cases w'
  rw [mk.injEq]
  exact ⟨Octets.ext hsealHash, Octets.ext hsecondary, hpayload, UInt64.toNat_inj.1 hnumber⟩

/-- **The texts of a package.** They spell the two hashes, the payload and the digits of the number, of
which the first is not zero and which are none at all for zero. Two packages with the same texts are
the same. A text is read as a byte string when it consists of two digits of either case for each byte,
with or without `0x` before them, and no other text is. -/
theorem strings_lossless :
    (∀ w : WorkPackage,
      w.strings.map Hex.decode = [.ok w.sealHash.toList, .ok w.secondary.toList, .ok w.payload,
        .ok (minimalBigEndian w.number)] ∧
      (minimalBigEndian w.number).head? ≠ some 0 ∧
      bigEndianNat (minimalBigEndian w.number) = w.number.toNat ∧
      (minimalBigEndian w.number = [] ↔ w.number = 0)) ∧
    (∀ w w' : WorkPackage, w.strings = w'.strings → w = w') ∧
    ∀ (text : String) (bytes : Bytes), Hex.decode text = .ok bytes ↔ ∃ digits : List Char,
      (text.toList = digits ∨ text.toList = '0' :: 'x' :: digits) ∧
        digits.length = 2 * bytes.length ∧ Hex.Spells digits bytes := by
  refine ⟨fun w => ⟨w.decode_strings, head?_minimalBigEndian _, bigEndianNat_minimalBigEndian _,
    minimalBigEndian_eq_nil_iff⟩, fun _ _ => eq_of_strings_eq, fun text bytes => ?_⟩
  rw [Hex.decode_eq_ok_iff]
  refine exists_congr fun digits => and_congr_right fun _ => ?_
  exact ⟨fun h => ⟨h.length_eq, h⟩, fun h => h.2⟩

end WorkPackage

/-! ## A package whose payload starts with zero -/

namespace Sample

def padded : WorkPackage where
  sealHash := Octets.zero
  secondary := Octets.replicate 32 255
  payload := [0, 10]
  number := 256

end Sample

namespace WorkPackage

/-- The zero of the payload is spelled, and those of the number are not. -/
theorem padded_lossless :
    Sample.padded.strings.map Hex.decode = [.ok (List.replicate 32 0), .ok (List.replicate 32 255),
      .ok [0, 10], .ok [1, 0]] ∧
    Sample.padded.strings ≠ { Sample.padded with payload := [10] }.strings ∧
    Hex.decode "0xaBFf" = .ok [0xab, 0xff] := by
  obtain ⟨hread, hinjective, hdecode⟩ := strings_lossless
  refine ⟨(hread Sample.padded).1, fun hsame => ?_, ?_⟩
  · exact absurd (congrArg payload (hinjective _ _ hsame)) (by decide)
  · refine (hdecode _ _).2 ⟨['a', 'B', 'F', 'f'], .inr rfl, rfl, ?_⟩
    have hlast : Hex.Spells ['F', 'f'] [0xff] :=
      .cons (show Hex.digitValue? 'F' = some 15 by decide) (show Hex.digitValue? 'f' = some 15 by decide)
        (by decide) .nil
    exact .cons (show Hex.digitValue? 'a' = some 10 by decide)
      (show Hex.digitValue? 'B' = some 11 by decide) (by decide) hlast

end WorkPackage

end BlockSeal
