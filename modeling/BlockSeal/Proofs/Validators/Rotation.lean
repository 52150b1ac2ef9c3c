import BlockSeal.Validators.Rotation
import Mathlib.Data.List.Nodup
import Mathlib.Data.List.TakeWhile

/-! # Rotations in order

* `Ordered`: the activation heights of a rotation increase strictly. Rotations that are made of
  bindings are ordered, and hold just these bindings (`ofBindings_eq_ok`); all that are ordered can be
  made (`Ordered.ofBindings_bindings`).
* `Ordered.resolve_eq_iff`: a height is resolved to the binding with the greatest activation up to it.
* `Ordered.activation_of_resolve_ne`: where the resolution changes, a binding is activated.
* `resolve_mapBindings`, `resolve_map`: resolution only looks at the heights.
-/

set_option autoImplicit false

namespace BlockSeal.Rotation

variable {α β : Type} {r : Rotation α} {height : UInt64}

/-- Each binding is activated after the one before it. -/
def Ordered (r : Rotation α) : Prop := r.bindings.Pairwise fun a b => a.1 < b.1

/-! ## Construction -/

theorem pairwise_lt_of_sharedActivation? {bindings : List (UInt64 × α)}
    (hsorted : bindings.Pairwise fun a b => a.1 ≤ b.1) (h : sharedActivation? bindings = none) :
    bindings.Pairwise fun a b => a.1 < b.1 := by
  fun_induction sharedActivation? bindings with
  | case1 a b rest hsame => cases h
  | case2 a b rest hdiffer ih =>
    obtain ⟨hhead, htail⟩ := List.pairwise_cons.1 hsorted
    have hrest := ih htail h
    have hlt : a.1 < b.1 := UInt64.lt_of_le_of_ne (hhead b List.mem_cons_self) hdiffer
    refine List.pairwise_cons.2 ⟨fun c hc => ?_, hrest⟩
    rcases List.mem_cons.1 hc with rfl | hc
    · exact hlt
    · exact UInt64.lt_trans hlt ((List.pairwise_cons.1 hrest).1 c hc)
  | case3 bindings hshort =>
    match bindings, hshort with
    | [], _ => exact List.Pairwise.nil
    | [a], _ => exact List.pairwise_singleton _ a
    | a :: b :: rest, hshort => exact absurd rfl (hshort a b rest)

theorem sharedActivation?_eq_none {bindings : List (UInt64 × α)}
    (hsorted : bindings.Pairwise fun a b => a.1 < b.1) : sharedActivation? bindings = none := by
  fun_induction sharedActivation? bindings with
  | case1 a b rest hsame =>
    have hlt := (List.pairwise_cons.1 hsorted).1 b List.mem_cons_self
    exact absurd hsame (UInt64.ne_of_lt hlt)
  | case2 a b rest hdiffer ih => exact ih (List.pairwise_cons.1 hsorted).2
  | case3 bindings hshort => rfl

theorem pairwise_le_mergeSort (bindings : List (UInt64 × α)) :
    (bindings.mergeSort fun a b => decide (a.1 ≤ b.1)).Pairwise fun a b => a.1 ≤ b.1 := by
  have hsorted : (bindings.mergeSort fun a b => decide (a.1 ≤ b.1)).Pairwise
      fun a b => decide (a.1 ≤ b.1) = true := by
    refine List.pairwise_mergeSort (fun a b c hab hbc => ?_) (fun a b => ?_) bindings
    · simp only [decide_eq_true_eq] at hab hbc ⊢
      exact UInt64.le_trans hab hbc
    · simpa using UInt64.le_total a.1 b.1
  simpa only [decide_eq_true_eq] using hsorted

/-- A rotation of bindings is ordered and has no others. -/
theorem ofBindings_eq_ok {bindings : List (UInt64 × α)} (h : ofBindings bindings = .ok r) :
    r.Ordered ∧ r.bindings.Perm bindings := by
  have hperm := List.mergeSort_perm bindings fun a b => decide (a.1 ≤ b.1)
  have hsorted := pairwise_le_mergeSort bindings
  unfold ofBindings at h
  split at h
  · cases h
  rename_i activation first later hmerge
  split at h
  · cases h
  rename_i hzero
  rw [Decidable.not_not] at hzero
  subst hzero
  split at h
  · cases h
  rename_i hshared
  cases h
  rw [hmerge] at hperm hsorted
  exact ⟨pairwise_lt_of_sharedActivation? hsorted hshared, hperm⟩

theorem Ordered.mergeSort_bindings (hr : r.Ordered) :
    r.bindings.mergeSort (fun a b => decide (a.1 ≤ b.1)) = r.bindings :=
  List.mergeSort_of_pairwise (List.Pairwise.imp
    (fun hlt => decide_eq_true (UInt64.le_of_lt hlt)) hr)

/-- A rotation that is ordered is made of its bindings. -/
theorem Ordered.ofBindings_bindings (hr : r.Ordered) : ofBindings r.bindings = .ok r := by
  have hshared := sharedActivation?_eq_none hr
  unfold ofBindings
  rw [hr.mergeSort_bindings]
  simp only [bindings] at hshared ⊢
  rw [if_neg (not_not_intro rfl), hshared]

theorem Ordered.nodup_activations (hr : r.Ordered) : (r.bindings.map (·.1)).Nodup :=
  List.pairwise_map.2 (List.Pairwise.imp UInt64.ne_of_lt hr)

/-! ## Resolution -/

theorem resolve_mem (r : Rotation α) (height : UInt64) : r.resolve height ∈ r.bindings := by
  unfold resolve bindings
  cases hlast : (r.later.takeWhile fun b => b.1 ≤ height).getLast? with
  | none => exact List.mem_cons_self
  | some b =>
    have hmem : b ∈ r.later.takeWhile fun b => b.1 ≤ height := List.mem_of_getLast? hlast
    exact List.mem_cons_of_mem _ ((List.takeWhile_sublist _).subset hmem)

theorem resolve_le (r : Rotation α) (height : UInt64) : (r.resolve height).1 ≤ height := by
  unfold resolve
  cases hlast : (r.later.takeWhile fun b => b.1 ≤ height).getLast? with
  | none => exact UInt64.zero_le
  | some b =>
    have hmem : b ∈ r.later.takeWhile fun b => b.1 ≤ height := List.mem_of_getLast? hlast
    simpa using List.mem_takeWhile_imp hmem

/-- In order, the first bindings up to a height end no earlier than any binding up to it. -/
theorem exists_getLast?_takeWhile {later : List (UInt64 × α)}
    (hsorted : later.Pairwise fun a b => a.1 < b.1) {b : UInt64 × α} (hb : b ∈ later)
    (hle : b.1 ≤ height) :
    ∃ last, (later.takeWhile fun b => b.1 ≤ height).getLast? = some last ∧ b.1 ≤ last.1 := by
  induction later with
  | nil => cases hb
  | cons a later ih =>
    obtain ⟨hhead, htail⟩ := List.pairwise_cons.1 hsorted
    rcases List.mem_cons.1 hb with rfl | hb
    · rw [List.takeWhile_cons_of_pos (by simpa using hle), List.getLast?_cons]
      refine ⟨_, rfl, ?_⟩
      cases hlast : (later.takeWhile fun b => b.1 ≤ height).getLast? with
      | none => exact UInt64.le_refl _
      | some last =>
        have hmem : last ∈ later.takeWhile fun b => b.1 ≤ height := List.mem_of_getLast? hlast
        exact UInt64.le_of_lt (hhead last ((List.takeWhile_sublist _).subset hmem))
    · have hfirst : a.1 ≤ height := UInt64.le_trans (UInt64.le_of_lt (hhead b hb)) hle
      obtain ⟨last, hlast, hle'⟩ := ih htail hb
      rw [List.takeWhile_cons_of_pos (by simpa using hfirst), List.getLast?_cons, hlast]
      exact ⟨last, rfl, hle'⟩

theorem Ordered.le_resolve (hr : r.Ordered) {b : UInt64 × α} (hb : b ∈ r.bindings)
    (hle : b.1 ≤ height) : b.1 ≤ (r.resolve height).1 := by
  rcases List.mem_cons.1 hb with rfl | hb
  · exact UInt64.zero_le
  · obtain ⟨last, hlast, hle'⟩ := exists_getLast?_takeWhile (List.pairwise_cons.1 hr).2 hb hle
    rw [resolve, hlast]
    exact hle'

theorem Ordered.eq_of_activation (hr : r.Ordered) {a b : UInt64 × α} (ha : a ∈ r.bindings)
    (hb : b ∈ r.bindings) (h : a.1 = b.1) : a = b :=
  List.inj_on_of_nodup_map hr.nodup_activations ha hb h

/-- A height is resolved to the binding with the greatest activation up to it. -/
theorem Ordered.resolve_eq_iff (hr : r.Ordered) {b : UInt64 × α} :
    r.resolve height = b ↔ b ∈ r.bindings ∧ b.1 ≤ height ∧
      ∀ other ∈ r.bindings, other.1 ≤ height → other.1 ≤ b.1 := by
  constructor
  · rintro rfl
    exact ⟨r.resolve_mem height, r.resolve_le height, fun other => hr.le_resolve⟩
  · rintro ⟨hb, hle, hgreatest⟩
    apply hr.eq_of_activation (r.resolve_mem height) hb
    exact UInt64.le_antisymm (hgreatest _ (r.resolve_mem height) (r.resolve_le height))
      (hr.le_resolve hb hle)

theorem toNat_sub_one {n : UInt64} (h : n ≠ 0) : (n - 1).toNat = n.toNat - 1 := by
  have hpos : n.toNat ≠ 0 := fun hzero => h (UInt64.toNat_inj.1 hzero)
  refine UInt64.toNat_sub_of_le _ _ (UInt64.le_iff_toNat_le.2 ?_)
  rw [UInt64.toNat_one]
  omega

/-- Where the resolution of a height differs from that of the height before, a binding is
activated. -/
theorem Ordered.activation_of_resolve_ne (hr : r.Ordered) {n : UInt64} (hn : n ≠ 0)
    (hne : r.resolve n ≠ r.resolve (n - 1)) : (r.resolve n).1 = n := by
  by_contra hother
  apply hne
  -- Otherwise the binding was active at the height before, and it was the last one there, too.
  refine (hr.resolve_eq_iff.2 ⟨r.resolve_mem _, ?_, fun other hmem hle => ?_⟩).symm
  · have hle := UInt64.le_iff_toNat_le.1 (r.resolve_le n)
    have hne' : (r.resolve n).1.toNat ≠ n.toNat := fun h => hother (UInt64.toNat_inj.1 h)
    rw [UInt64.le_iff_toNat_le, toNat_sub_one hn]
    omega
  · apply hr.le_resolve hmem
    rw [UInt64.le_iff_toNat_le, toNat_sub_one hn] at hle
    rw [UInt64.le_iff_toNat_le]
    omega

/-- Things that are replaced one by one, with a view to their heights, are resolved as before. -/
theorem resolve_mapBindings (f : UInt64 → α → β) (r : Rotation α) (height : UInt64) :
    resolve { first := f 0 r.first, later := r.later.map fun b => (b.1, f b.1 b.2) } height =
      ((r.resolve height).1, f (r.resolve height).1 (r.resolve height).2) := by
  have htake : ((r.later.map fun b => (b.1, f b.1 b.2)).takeWhile fun b => b.1 ≤ height) =
      (r.later.takeWhile fun b => b.1 ≤ height).map fun b => (b.1, f b.1 b.2) := by
    rw [List.takeWhile_map]
    rfl
  unfold resolve
  rw [htake, List.getLast?_map]
  cases (r.later.takeWhile fun b => b.1 ≤ height).getLast? <;> rfl

theorem resolve_map (f : α → β) (r : Rotation α) (height : UInt64) :
    resolve { first := f r.first, later := r.later.map fun b => (b.1, f b.2) } height =
      ((r.resolve height).1, f (r.resolve height).2) :=
  resolve_mapBindings (fun _ => f) r height

end BlockSeal.Rotation
