import BlockSeal.Pow.MemoryWalk
import BlockSeal.Proofs.Digits

/-! # The walk stays inside its material

The page of a visit is chosen by a digest, which can be any number. Its remainder reaches only pages
that the material has in full, also when some bytes are left over after the last of them.

* `exists_generate`, `generate_of_longest_lt`: when a dataset can be made; it has whole pages then.
* `MixesPage`: a digest that is taken of another one and a whole page. `mixesPage_step`: each visit.
* `compute?`: the walk in words, which stops at a number that does not fit into a word and at a page
  that is not there. `compute?_eq_some`, `compute?_eq_none`: it stops only if there is no page at all.
* `walk_stays_inside`: all of this for any sizes.
-/

set_option autoImplicit false

/-! ## Words that have to fit -/

namespace UInt64

variable {m n : ℕ}

/-- The word that `n` is, if it fits into one. -/
def ofNat? (n : ℕ) : Option UInt64 := if n < UInt64.size then some (UInt64.ofNat n) else none

def add? (a b : UInt64) : Option UInt64 := ofNat? (a.toNat + b.toNat)

def mul? (a b : UInt64) : Option UInt64 := ofNat? (a.toNat * b.toNat)

/-- The remainder, if there is something to divide by. -/
def mod? (a b : UInt64) : Option UInt64 := if b = 0 then none else some (a % b)

theorem ofNat?_eq_some (h : n < UInt64.size) : ofNat? n = some (UInt64.ofNat n) := if_pos h

theorem add?_ofNat (h : m + n < UInt64.size) :
    add? (UInt64.ofNat m) (UInt64.ofNat n) = some (UInt64.ofNat (m + n)) := by
  rw [add?, toNat_ofNat_of_lt' (by omega), toNat_ofNat_of_lt' (by omega), ofNat?_eq_some h]

theorem mul?_ofNat (hm : m < UInt64.size) (hn : n < UInt64.size) (h : m * n < UInt64.size) :
    mul? (UInt64.ofNat m) (UInt64.ofNat n) = some (UInt64.ofNat (m * n)) := by
  rw [mul?, toNat_ofNat_of_lt' hm, toNat_ofNat_of_lt' hn, ofNat?_eq_some h]

theorem mod?_ofNat (hm : m < UInt64.size) (hn : n < UInt64.size) (hpos : 0 < n) :
    mod? (UInt64.ofNat m) (UInt64.ofNat n) = some (UInt64.ofNat (m % n)) := by
  have hne : UInt64.ofNat n ≠ 0 := by
    intro hzero
    have hnat := congrArg UInt64.toNat hzero
    rw [toNat_ofNat_of_lt' hn, UInt64.toNat_zero] at hnat
    omega
  have hle := Nat.mod_le m n
  rw [mod?, if_neg hne]
  apply congrArg some
  apply UInt64.toNat_inj.1
  rw [UInt64.toNat_mod, toNat_ofNat_of_lt' hm, toNat_ofNat_of_lt' hn, toNat_ofNat_of_lt' (by omega)]

end UInt64

namespace BlockSeal

namespace MemoryWalk

variable {w : MemoryWalk} {material : Bytes} {index : ℕ}

/-! ## The material -/

section

variable (materialLength accesses : UInt64)

theorem toNat_materialLength_ofSizes :
    (ofSizes materialLength accesses).materialLength.toNat = max materialLength.toNat 32 :=
  UInt64.toNat_max materialLength 32

theorem toNat_accesses_ofSizes :
    (ofSizes materialLength accesses).accesses.toNat = max accesses.toNat 1 :=
  UInt64.toNat_max accesses 1

theorem pageLength_le_wholeLength : pageLength ≤ (ofSizes materialLength accesses).wholeLength := by
  rw [wholeLength, toNat_materialLength_ofSizes, pageLength]
  omega

/-- Memory ends one byte before a page does, so leaving out a broken page does not help. -/
theorem wholeLength_le_longest_iff :
    (ofSizes materialLength accesses).wholeLength ≤ longestMaterial ↔
      materialLength.toNat ≤ longestMaterial := by
  rw [wholeLength, toNat_materialLength_ofSizes, pageLength, longestMaterial]
  omega

end

variable {materialLength accesses : UInt64}

theorem exists_generate (h : materialLength.toNat ≤ longestMaterial) (epoch : UInt64) (seed : Hash) :
    ∃ material, (ofSizes materialLength accesses).generate epoch seed = some material ∧
      material ≠ [] ∧ pageLength ∣ material.length ∧ material.length ≤ longestMaterial := by
  have hlongest := (wholeLength_le_longest_iff materialLength accesses).2 h
  have hpage := pageLength_le_wholeLength materialLength accesses
  refine ⟨_, if_pos hlongest, List.ne_nil_of_length_pos ?_, ?_, ?_⟩ <;>
    rw [Blake3.length_extended]
  · exact Nat.lt_of_lt_of_le (by decide) hpage
  · exact Nat.dvd_sub_mod _
  · exact hlongest

theorem generate_of_longest_lt (h : longestMaterial < materialLength.toNat) (epoch : UInt64)
    (seed : Hash) : (ofSizes materialLength accesses).generate epoch seed = none := by
  apply if_neg
  rw [wholeLength_le_longest_iff]
  omega

/-- A length that is one byte too long for memory is still a word. -/
theorem generate_oversized :
    ¬ ∃ material, (ofSizes 9223372036854775808 1).generate 0 Octets.zero = some material ∧
      material ≠ [] ∧ pageLength ∣ material.length := by
  rintro ⟨material, hsome, -⟩
  have hlt : longestMaterial < (9223372036854775808 : UInt64).toNat := by decide
  rw [generate_of_longest_lt hlt] at hsome
  cases hsome

/-! ## Pages -/

theorem pageCount_of_le (h : pageLength ≤ material.length) :
    pageCount material = material.length / pageLength := by
  rw [pageLength] at h
  rw [pageCount, pageLength]
  omega

theorem pageCount_pos : 0 < pageCount material := by
  rw [pageCount]
  omega

/-- The page that a remainder leads to stops where the material does, or before. -/
theorem pageIndex_inside (material : Bytes) (mix : Hash) :
    pageIndex (pageCount material) mix * pageLength + pageLength ≤
      max material.length pageLength := by
  have hlt : pageIndex (pageCount material) mix < pageCount material :=
    Nat.mod_lt _ pageCount_pos
  rw [pageCount] at hlt ⊢
  rw [pageLength] at hlt ⊢
  omega

theorem length_take_drop (h : index * pageLength + pageLength ≤ material.length) :
    ((material.drop (index * pageLength)).take pageLength).length = pageLength := by
  rw [List.length_take, List.length_drop]
  omega

theorem page_of_inside (h : index * pageLength + pageLength ≤ material.length) :
    page material index = (material.drop (index * pageLength)).take pageLength :=
  if_pos (length_take_drop h)

/-! ## Visits -/

/-- `next` is the digest of `mix` and what a visit finds for it in the material, and that is one whole
page. Its number is the word that `mix` begins with, modulo the number of pages. -/
def MixesPage (material : Bytes) (mix next : Hash) : Prop :=
  ∃ before bytes after, page material (pageIndex (pageCount material) mix) = bytes ∧
    material = before ++ bytes ++ after ∧
    before.length =
      littleEndianNat (mix.toList.take 8) % (material.length / pageLength) * pageLength ∧
    bytes.length = pageLength ∧ next = Blake3.hash (mix.toList ++ bytes)

theorem mixesPage_step (h : pageLength ≤ material.length) (mix : Hash) :
    MixesPage material mix (step material (pageCount material) mix) := by
  have hinside := pageIndex_inside material mix
  rw [Nat.max_eq_left h] at hinside
  have hpage := page_of_inside hinside
  refine ⟨material.take (pageIndex (pageCount material) mix * pageLength), _,
    (material.drop (pageIndex (pageCount material) mix * pageLength)).drop pageLength,
    hpage, ?_, ?_, length_take_drop hinside, ?_⟩
  · rw [List.append_assoc, List.take_append_drop, List.take_append_drop]
  · rw [← pageCount_of_le h, List.length_take]
    show min (pageIndex (pageCount material) mix * pageLength) material.length =
      pageIndex (pageCount material) mix * pageLength
    omega
  · rw [step, hpage]

/-- The digest after some visits. -/
def mixAfter (material : Bytes) (sealHash : Hash) (nonce : UInt64) (visits : ℕ) : Hash :=
  Nat.repeat (step material (pageCount material)) visits (start sealHash nonce)

/-! ## The walk in words -/

/-- Where the page that `mix` leads to starts and where it stops. -/
def pageBounds? (pages : UInt64) (mix : Hash) : Option (UInt64 × UInt64) := do
  let index ← (UInt64.ofNat (littleEndianNat (mix.toList.take 8))).mod? pages
  let first ← index.mul? 32
  let stop ← first.add? 32
  return (first, stop)

/-- The bytes from `first` up to `stop`, if the material has them all. -/
def slice? (material : Bytes) (first stop : UInt64) : Option Bytes :=
  if first.toNat ≤ stop.toNat ∧ stop.toNat ≤ material.length then
    some ((material.drop first.toNat).take (stop.toNat - first.toNat))
  else none

/-- One visit, if its page can be found and read. -/
def step? (material : Bytes) (pages : UInt64) (mix : Hash) : Option Hash := do
  let (first, stop) ← pageBounds? pages mix
  let bytes ← slice? material first stop
  return Blake3.hash (mix.toList ++ bytes)

/-- The walk, if the page of every visit can be found and read. -/
def compute? (w : MemoryWalk) (material : Bytes) (sealHash : Hash) (nonce : UInt64) :
    Option (Hash × Hash) := do
  let length ← UInt64.ofNat? material.length
  let mix ← Nat.repeat (fun mix? => mix?.bind (step? material (max (length / 32) 1)))
    w.accesses.toNat (some (start sealHash nonce))
  return (mix, Blake3.hash (sealHash.toList ++ littleEndian 8 nonce.toNat ++ mix.toList))

theorem littleEndianNat_take_lt (mix : Hash) :
    littleEndianNat (mix.toList.take 8) < UInt64.size := by
  have hlt := bigEndianNat_lt (mix.toList.take 8).reverse
  rw [bigEndianNat_reverse, List.length_reverse] at hlt
  have hlength : (mix.toList.take 8).length ≤ 8 := List.length_take_le 8 _
  exact Nat.lt_of_lt_of_le hlt (Nat.pow_le_pow_right (by decide) hlength)

section

variable (hfits : material.length < UInt64.size)
include hfits

theorem pageCount_lt : pageCount material < UInt64.size := by
  rw [pageCount, pageLength]
  rw [UInt64.size] at hfits ⊢
  omega

theorem max_pages_eq :
    max (UInt64.ofNat material.length / 32) 1 = UInt64.ofNat (pageCount material) := by
  apply UInt64.toNat_inj.1
  rw [UInt64.toNat_max, UInt64.toNat_div, UInt64.toNat_ofNat_of_lt' hfits,
    UInt64.toNat_ofNat_of_lt' (pageCount_lt hfits)]
  rfl

theorem pageStop_lt (mix : Hash) :
    pageIndex (pageCount material) mix * 32 + 32 < UInt64.size := by
  have hinside := pageIndex_inside material mix
  rw [pageLength] at hinside
  rw [UInt64.size] at hfits ⊢
  omega

theorem pageBounds?_eq (mix : Hash) :
    pageBounds? (UInt64.ofNat (pageCount material)) mix =
      some (UInt64.ofNat (pageIndex (pageCount material) mix * 32),
        UInt64.ofNat (pageIndex (pageCount material) mix * 32 + 32)) := by
  have hstop := pageStop_lt hfits mix
  have hindex := UInt64.mod?_ofNat (littleEndianNat_take_lt mix) (pageCount_lt hfits) pageCount_pos
  have hfirst : (UInt64.ofNat (pageIndex (pageCount material) mix)).mul? 32 =
      some (UInt64.ofNat (pageIndex (pageCount material) mix * 32)) :=
    UInt64.mul?_ofNat (n := 32) (by omega) (by decide) (by omega)
  have hlast : (UInt64.ofNat (pageIndex (pageCount material) mix * 32)).add? 32 =
      some (UInt64.ofNat (pageIndex (pageCount material) mix * 32 + 32)) :=
    UInt64.add?_ofNat (n := 32) hstop
  rw [pageIndex] at hfirst hlast ⊢
  simp only [pageBounds?, hindex, hfirst, hlast, Option.bind_eq_bind, Option.bind_some,
    Option.pure_def]

theorem slice?_pageBounds (mix : Hash) :
    slice? material (UInt64.ofNat (pageIndex (pageCount material) mix * 32))
        (UInt64.ofNat (pageIndex (pageCount material) mix * 32 + 32)) =
      if pageLength ≤ material.length then
        some (page material (pageIndex (pageCount material) mix))
      else none := by
  have hstop := pageStop_lt hfits mix
  have hinside := pageIndex_inside material mix
  rw [slice?, UInt64.toNat_ofNat_of_lt' (by omega), UInt64.toNat_ofNat_of_lt' hstop,
    Nat.add_sub_cancel_left]
  by_cases h : pageLength ≤ material.length
  · rw [Nat.max_eq_left h] at hinside
    rw [if_pos h, page_of_inside hinside]
    exact if_pos ⟨Nat.le_add_right _ _, hinside⟩
  · rw [if_neg h]
    apply if_neg
    rw [pageLength] at h
    omega

/-- **One visit.** It reads a page exactly if there is one. -/
theorem step?_eq (mix : Hash) :
    step? material (UInt64.ofNat (pageCount material)) mix =
      if pageLength ≤ material.length then some (step material (pageCount material) mix)
      else none := by
  simp only [step?, pageBounds?_eq hfits, Option.bind_eq_bind, Option.bind_some,
    slice?_pageBounds hfits]
  split
  · rfl
  · rfl

theorem repeat_step?_eq (h : pageLength ≤ material.length) (mix : Hash) (visits : ℕ) :
    Nat.repeat (fun mix? => mix?.bind (step? material (UInt64.ofNat (pageCount material)))) visits
        (some mix) =
      some (Nat.repeat (step material (pageCount material)) visits mix) := by
  induction visits with
  | zero => rfl
  | succ visits ih =>
    rw [Nat.repeat, Nat.repeat, ih, Option.bind_some, step?_eq hfits, if_pos h]

theorem compute?_eq_some (w : MemoryWalk) (h : pageLength ≤ material.length) (sealHash : Hash)
    (nonce : UInt64) :
    w.compute? material sealHash nonce = some (w.compute material sealHash nonce) := by
  simp only [compute?, UInt64.ofNat?_eq_some hfits, max_pages_eq hfits, repeat_step?_eq hfits h,
    Option.bind_eq_bind, Option.bind_some, Option.pure_def, compute]

/-- Without a page, the walk ends at its last visit at the latest. -/
theorem compute?_eq_none (hvisits : 0 < w.accesses.toNat) (h : material.length < pageLength)
    (sealHash : Hash) (nonce : UInt64) : w.compute? material sealHash nonce = none := by
  have hstep : step? material (UInt64.ofNat (pageCount material)) = fun _ => none := by
    funext mix
    rw [step?_eq hfits, if_neg (by omega)]
  obtain ⟨visits, hsucc⟩ := Nat.exists_eq_add_of_lt hvisits
  rw [Nat.zero_add] at hsucc
  simp only [compute?, UInt64.ofNat?_eq_some hfits, max_pages_eq hfits, hsucc, Nat.repeat, hstep,
    Option.bind_eq_bind, Option.bind_some, Option.bind_fun_none, Option.bind_none]

end

/-! ## Any sizes -/

/-- **The walk stays inside its material.** Walks of any sizes make a dataset of whole pages, at
least one of them, unless the material is longer than memory. In material that has a page, every
visit mixes in one whole page of it, and the last one leaves the mix digest. The walk in words, if
one can tell the length, comes to the same result, so no remainder, product or sum fails in it and no
page is missing; it stops exactly if the material has no page. -/
theorem walk_stays_inside (materialLength accesses : UInt64) :
    (∀ epoch seed,
      (materialLength.toNat ≤ longestMaterial → ∃ material,
        (ofSizes materialLength accesses).generate epoch seed = some material ∧
        material ≠ [] ∧ pageLength ∣ material.length ∧ material.length ≤ longestMaterial) ∧
      (longestMaterial < materialLength.toNat →
        (ofSizes materialLength accesses).generate epoch seed = none)) ∧
    ∀ material sealHash nonce,
      (pageLength ≤ material.length →
        (∀ visits < max accesses.toNat 1, MixesPage material
          (mixAfter material sealHash nonce visits) (mixAfter material sealHash nonce (visits + 1))) ∧
        ((ofSizes materialLength accesses).compute material sealHash nonce).1 =
          mixAfter material sealHash nonce (max accesses.toNat 1)) ∧
      (material.length < UInt64.size →
        ((ofSizes materialLength accesses).compute? material sealHash nonce =
            some ((ofSizes materialLength accesses).compute material sealHash nonce) ↔
          pageLength ≤ material.length)) := by
  refine ⟨fun epoch seed => ⟨fun h => exists_generate h epoch seed,
    fun h => generate_of_longest_lt h epoch seed⟩, fun material sealHash nonce => ⟨?_, ?_⟩⟩
  · intro h
    refine ⟨fun visits _ => mixesPage_step h _, ?_⟩
    rw [← toNat_accesses_ofSizes materialLength]
    rfl
  · intro hfits
    refine ⟨fun hsome => ?_, fun h => compute?_eq_some hfits _ h sealHash nonce⟩
    by_contra hshort
    have hvisits : 0 < (ofSizes materialLength accesses).accesses.toNat := by
      rw [toNat_accesses_ofSizes]
      omega
    rw [compute?_eq_none hfits hvisits (by omega)] at hsome
    cases hsome

end MemoryWalk

/-! ## Two pages and a broken one -/

namespace Sample

def ragged : Bytes := List.replicate 95 7

end Sample

namespace MemoryWalk

/-- The first visit leads to the last whole page. One more length than memory has makes no dataset. -/
theorem ragged_stays_inside :
    (100 : UInt64).toNat ≤ longestMaterial ∧
    (∃ material, (ofSizes 100 0).generate 5 Octets.zero = some material ∧ material ≠ [] ∧
      pageLength ∣ material.length ∧ material.length ≤ longestMaterial) ∧
    longestMaterial < (9223372036854775808 : UInt64).toNat ∧
    (ofSizes 9223372036854775808 0).generate 5 Octets.zero = none ∧
    pageLength ≤ Sample.ragged.length ∧
    pageIndex (pageCount Sample.ragged) (mixAfter Sample.ragged Octets.zero 7 0) = 1 ∧
    MixesPage Sample.ragged (mixAfter Sample.ragged Octets.zero 7 0)
      (mixAfter Sample.ragged Octets.zero 7 1) ∧
    Sample.ragged.length < UInt64.size ∧
    (ofSizes 100 0).compute? Sample.ragged Octets.zero 7 =
      some ((ofSizes 100 0).compute Sample.ragged Octets.zero 7) := by
  have hle : (100 : UInt64).toNat ≤ longestMaterial := by decide
  have hlt : longestMaterial < (9223372036854775808 : UInt64).toNat := by decide
  have hpage : pageLength ≤ Sample.ragged.length := by decide
  have hfits : Sample.ragged.length < UInt64.size := by decide
  have hlast : pageIndex (pageCount Sample.ragged) (mixAfter Sample.ragged Octets.zero 7 0) = 1 := by
    decide +kernel
  obtain ⟨hgenerate, hwalk⟩ := walk_stays_inside 100 0
  obtain ⟨hvisits, hwords⟩ := hwalk Sample.ragged Octets.zero 7
  exact ⟨hle, (hgenerate 5 Octets.zero).1 hle, hlt,
    ((walk_stays_inside 9223372036854775808 0).1 5 Octets.zero).2 hlt, hpage, hlast,
    (hvisits hpage).1 0 (by decide), hfits, (hwords hfits).2 hpage⟩

end MemoryWalk

end BlockSeal
