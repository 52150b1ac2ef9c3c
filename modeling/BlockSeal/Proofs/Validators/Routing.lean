import BlockSeal.Proofs.Validators.Rotation

/-! # Every call goes to the binding in force

* `ofBindings_eq_ok_iff`, `exists_ofBindings_iff`: which rotation is made of bindings, whatever order
  they come in, and when there is one.
* `Ordered.exists_partition`: in the sorted bindings, those up to a height come first, and the last of
  them is the one that the height is resolved to.
* `ValidatorSet.Call`, `ValidatorSet.logged`, `Rotation.logged`: sources whose calls are written down.
* `ValidatorSet.Forwards`: calls at a height are calls on the source of one binding.
* `routes_by_height`: all of this for any bindings.
-/

set_option autoImplicit false

namespace BlockSeal

namespace Rotation

variable {α : Type} {r : Rotation α} {bindings : List (UInt64 × α)} {height : UInt64}

/-! ## What is made of bindings -/

/-- The rotation that is made of bindings is the one that holds them in order. -/
theorem ofBindings_eq_ok_iff : ofBindings bindings = .ok r ↔
    r.Ordered ∧ r.bindings.Perm bindings := by
  refine ⟨ofBindings_eq_ok, fun ⟨horder, hperm⟩ => ?_⟩
  -- Both lists are sorted, and no two bindings share a height.
  have hsame : bindings.mergeSort (fun a b => decide (a.1 ≤ b.1)) = r.bindings := by
    have hsorted := (List.mergeSort_perm bindings fun a b => decide (a.1 ≤ b.1)).trans hperm.symm
    have hle := pairwise_le_mergeSort r.bindings
    rw [horder.mergeSort_bindings] at hle
    refine List.Perm.eq_of_pairwise ?_ (pairwise_le_mergeSort bindings) hle hsorted
    intro a b ha hb hab hba
    exact horder.eq_of_activation (hsorted.mem_iff.1 ha) hb (UInt64.le_antisymm hab hba)
  have hmade := horder.ofBindings_bindings
  rw [ofBindings, horder.mergeSort_bindings] at hmade
  rw [ofBindings, hsame, hmade]

/-- There is a rotation of bindings exactly when one starts at zero and no two share a height. -/
theorem exists_ofBindings_iff : (∃ r, ofBindings bindings = .ok r) ↔
    (∃ b ∈ bindings, b.1 = 0) ∧ (bindings.map (·.1)).Nodup := by
  constructor
  · rintro ⟨r, hr⟩
    obtain ⟨horder, hperm⟩ := ofBindings_eq_ok hr
    exact ⟨⟨(0, r.first), hperm.mem_iff.1 List.mem_cons_self, rfl⟩,
      (hperm.map (·.1)).nodup_iff.1 horder.nodup_activations⟩
  · rintro ⟨⟨b, hb, hzero⟩, hnodup⟩
    have hperm := List.mergeSort_perm bindings fun a b => decide (a.1 ≤ b.1)
    have hle := pairwise_le_mergeSort bindings
    have hne : (bindings.mergeSort fun a b => decide (a.1 ≤ b.1)).Pairwise
        fun a b => a.1 ≠ b.1 :=
      List.pairwise_map.1 ((hperm.map Prod.fst).nodup_iff.2 hnodup)
    have hlt : (bindings.mergeSort fun a b => decide (a.1 ≤ b.1)).Pairwise
        fun a b => a.1 < b.1 :=
      hle.imp₂ (fun _ _ => UInt64.lt_of_le_of_ne) hne
    have hmem := hperm.mem_iff.2 hb
    cases hsorted : bindings.mergeSort fun a b => decide (a.1 ≤ b.1) with
    | nil =>
      rw [hsorted] at hmem
      cases hmem
    | cons a later =>
      rw [hsorted] at hperm hle hlt hmem
      -- The binding that starts at zero cannot stand behind another one.
      have hfirst : a.1 = 0 := by
        rcases List.mem_cons.1 hmem with rfl | hlater
        · exact hzero
        · have hbelow := (List.pairwise_cons.1 hle).1 b hlater
          rw [hzero] at hbelow
          exact UInt64.le_zero_iff.1 hbelow
      obtain ⟨activation, first⟩ := a
      change activation = 0 at hfirst
      subst hfirst
      exact ⟨{ first := first, later := later }, ofBindings_eq_ok_iff.2 ⟨hlt, hperm⟩⟩

/-! ## Where the binding in force stands -/

/-- The bindings up to a height end right behind the one that the height is resolved to. -/
theorem Ordered.exists_partition (hr : r.Ordered) (height : UInt64) :
    ∃ point, 0 < point ∧ point ≤ r.bindings.length ∧
      (∀ i b, r.bindings[i]? = some b → (b.1 ≤ height ↔ i < point)) ∧
      r.bindings[point - 1]? = some (r.resolve height) := by
  obtain ⟨place, hplace⟩ := List.mem_iff_getElem?.1 (r.resolve_mem height)
  obtain ⟨hbound, hget⟩ := List.getElem?_eq_some_iff.1 hplace
  refine ⟨place + 1, Nat.succ_pos _, hbound, fun i b hi => ?_, hplace⟩
  obtain ⟨hi', hb⟩ := List.getElem?_eq_some_iff.1 hi
  have hlt := List.pairwise_iff_getElem.1 hr
  constructor
  · intro hle
    by_contra hbehind
    have hafter := hlt place i hbound hi' (by omega)
    rw [hget, hb] at hafter
    have hmem : b ∈ r.bindings := List.mem_of_getElem? hi
    exact absurd (hr.le_resolve hmem hle) (UInt64.not_le.2 hafter)
  · intro hbefore
    rcases Nat.lt_or_eq_of_le (Nat.le_of_lt_succ hbefore) with hless | rfl
    · have hahead := hlt i place hi' hbound hless
      rw [hget, hb] at hahead
      exact UInt64.le_trans (UInt64.le_of_lt hahead) (r.resolve_le height)
    · rw [← hb, hget]
      exact r.resolve_le height

end Rotation

/-! ## Calls that are written down -/

namespace ValidatorSet

/-- A call on a source, with all that it is given. -/
inductive Call
  | signalToChange (first : Bool) (receipts : List Receipt) (header : Header) (chain : Chain)
      (store : KeyValueStore)
  | finalizeChange (header : Header) (state : StateDb)
  | validatorsAt (height : UInt64)
  | count
  | prepareBackend (header : Header) (chain : Chain) (store : KeyValueStore)

/-- The calls that were made, each with the activation height of the source that it was made on. -/
abbrev CallLog := List (UInt64 × Call)

variable {m : Type → Type} [Monad m] {β : Type}

/-- The action `action`, for which one entry is written down. -/
def noting (entry : UInt64 × Call) (action : m β) : StateT CallLog m β :=
  fun log => (fun answer => (answer, log ++ [entry])) <$> action

/-- The source, writing down every call under its activation height. -/
def logged (activation : UInt64) (set : ValidatorSet m) : ValidatorSet (StateT CallLog m) where
  signalToChange := fun first receipts header chain store =>
    noting (activation, .signalToChange first receipts header chain store)
      (set.signalToChange first receipts header chain store)
  finalizeChange := fun header state =>
    noting (activation, .finalizeChange header state) (set.finalizeChange header state)
  validatorsAt := fun height => noting (activation, .validatorsAt height) (set.validatorsAt height)
  count := noting (activation, .count) set.count
  prepareBackend := fun header chain store =>
    noting (activation, .prepareBackend header chain store) (set.prepareBackend header chain store)

/-- At `height`, each call on `set` is one call on the source of the binding `b`. That is the only
entry in the log, the other arguments are passed on as they are, and the answer is that source's own,
with the storage that it leaves. It is told that it is new when its activation is `height`. -/
structure Forwards (set : ValidatorSet (StateT CallLog m)) (b : UInt64 × ValidatorSet m)
    (height : UInt64) : Prop where
  signalToChange : ∀ told receipts header chain store log, header.number = height →
    (set.signalToChange told receipts header chain store).run log =
      (fun signal => (signal, log ++
        [(b.1, .signalToChange (b.1 = height) receipts header chain store)])) <$>
      b.2.signalToChange (b.1 = height) receipts header chain store
  finalizeChange : ∀ header state log, header.number = height →
    (set.finalizeChange header state).run log =
      (fun after => (after, log ++ [(b.1, .finalizeChange header state)])) <$>
      b.2.finalizeChange header state
  validatorsAt : ∀ log, (set.validatorsAt height).run log =
    (fun validators => (validators, log ++ [(b.1, .validatorsAt height)])) <$>
    b.2.validatorsAt height
  prepareBackend : ∀ header chain store log, header.number = height →
    (set.prepareBackend header chain store).run log =
      (fun after => (after, log ++ [(b.1, .prepareBackend header chain store)])) <$>
      b.2.prepareBackend header chain store

end ValidatorSet

namespace Rotation

variable {m : Type → Type} [Monad m] {height : UInt64}

/-- The rotation of the same sources, each of which writes down its calls. -/
def logged (r : Rotation (ValidatorSet m)) :
    Rotation (ValidatorSet (StateT ValidatorSet.CallLog m)) where
  first := r.first.logged 0
  later := r.later.map fun b => (b.1, b.2.logged b.1)

theorem forwards_resolve (r : Rotation (ValidatorSet m)) (height : UInt64) :
    r.logged.toSet.Forwards (r.resolve height) height := by
  have hresolve : r.logged.resolve height =
      ((r.resolve height).1, (r.resolve height).2.logged (r.resolve height).1) :=
    resolve_mapBindings (fun activation set => ValidatorSet.logged activation set) r height
  constructor
  case signalToChange =>
    rintro told receipts header chain store log rfl
    simp only [toSet, hresolve]
    rfl
  case finalizeChange =>
    rintro header state log rfl
    simp only [toSet, hresolve]
    rfl
  case validatorsAt =>
    intro log
    simp only [toSet, hresolve]
    rfl
  case prepareBackend =>
    rintro header chain store log rfl
    simp only [toSet, hresolve]
    rfl

/-- **Routing by height.** There is a rotation of bindings exactly when one of them starts at zero and
no two share a height, and in any order they make the same one. At every height it resolves to the one
binding with the greatest activation up to it; in the sorted bindings, that is the last of those up to
the height, and there is one. The change, its completion, the validators and the preparation at this
height are one call each on the source of this binding, and on no other. -/
theorem routes_by_height (bindings : List (UInt64 × ValidatorSet m)) :
    ((∃ r, ofBindings bindings = .ok r) ↔
      (∃ b ∈ bindings, b.1 = 0) ∧ (bindings.map (·.1)).Nodup) ∧
    ∀ r, ofBindings bindings = .ok r →
      (∀ reordered, reordered.Perm bindings → ofBindings reordered = .ok r) ∧
      ∀ height,
        (∀ b, r.resolve height = b ↔ b ∈ bindings ∧ b.1 ≤ height ∧
          ∀ other ∈ bindings, other.1 ≤ height → other.1 ≤ b.1) ∧
        (∃ point, 0 < point ∧ point ≤ r.bindings.length ∧
          (∀ i b, r.bindings[i]? = some b → (b.1 ≤ height ↔ i < point)) ∧
          r.bindings[point - 1]? = some (r.resolve height)) ∧
        r.logged.toSet.Forwards (r.resolve height) height := by
  refine ⟨exists_ofBindings_iff, fun r hr => ?_⟩
  obtain ⟨horder, hperm⟩ := ofBindings_eq_ok hr
  refine ⟨fun reordered hreordered => ?_, fun height => ⟨fun b => ?_, ?_, ?_⟩⟩
  · exact ofBindings_eq_ok_iff.2 ⟨horder, hperm.trans hreordered.symm⟩
  · rw [horder.resolve_eq_iff]
    simp only [hperm.mem_iff]
  · exact horder.exists_partition height
  · exact r.forwards_resolve height

end Rotation

/-! ## Bindings out of order -/

namespace Sample

def fixedAt (height : UInt64) (byte : UInt8) : UInt64 × ValidatorSet Id :=
  (height, .fixed [Octets.replicate 20 byte])

def outOfOrder : List (UInt64 × ValidatorSet Id) := [fixedAt 500 3, fixedAt 0 1, fixedAt 100 2]

end Sample

namespace Rotation

/-- At height 100 the binding that starts there is asked, and told so. -/
theorem outOfOrder_routes : ∃ r, ofBindings Sample.outOfOrder = .ok r ∧
    ofBindings Sample.outOfOrder.reverse = .ok r ∧ r.resolve 100 = Sample.fixedAt 100 2 ∧
    (r.logged.toSet.signalToChange false [] { number := 100 } [] {}).run [] =
      ({ validators := [Octets.replicate 20 2], changed := true, finalized := true },
        [(100, .signalToChange true [] { number := 100 } [] {})]) := by
  obtain ⟨hmade, hroutes⟩ := routes_by_height Sample.outOfOrder
  have hstart : Sample.fixedAt 0 1 ∈ Sample.outOfOrder := by simp [Sample.outOfOrder]
  obtain ⟨r, hr⟩ := hmade.2 ⟨⟨_, hstart, rfl⟩, by decide⟩
  obtain ⟨hreordered, hheight⟩ := hroutes r hr
  obtain ⟨hresolve, -, hforwards⟩ := hheight 100
  have hhundred : r.resolve 100 = Sample.fixedAt 100 2 := by
    rw [hresolve]
    refine ⟨by simp [Sample.outOfOrder], by decide, ?_⟩
    simp [Sample.outOfOrder, Sample.fixedAt]
  refine ⟨r, hr, hreordered _ (List.reverse_perm _), hhundred, ?_⟩
  rw [hforwards.signalToChange _ _ _ _ _ _ rfl, hhundred]
  rfl

end Rotation

end BlockSeal
