import BlockSeal.Proofs.Validators.Rotation

/-! # The source that governs a height

In a tree of rotations a height is resolved at the root, then in the member found there, and so on,
until a source is reached. Every rotation tells the member that it calls whether the height is the
one at which this member is activated, whatever it was told itself. So the source learns about its
own activation, and nothing about those further up.

* `Governor`, `governor`: the source that governs a height, and the way down to it.
* `Built`, `Ordered`: the trees that can be built, and that all their rotations are in order.
* `signalToChange_toSet`: the call on a tree is one call on the governing source.
* `Ordered.exists_activation`: where the way to the governing source changes, some rotation on it
  activates a member.
* `signalToChange_governor`: which governing sources are told that they are new.
-/

set_option autoImplicit false

namespace BlockSeal

/-- A source that is reached in a tree. -/
structure Governor (m : Type → Type) where
  /-- The activation heights on the way down to the source, the root's first. -/
  way : List UInt64
  set : ValidatorSet m

namespace SetTree

variable {m : Type → Type}

/-- To prove something of all trees, prove it of rotations all of whose members have it. -/
theorem induction {P : SetTree m → Prop} (leaf : ∀ set, P (leaf set))
    (rotation : ∀ first later, P first → (∀ b ∈ later, P b.2) → P (rotation first later)) :
    ∀ tree, P tree := by
  refine @SetTree.rec m P (fun later => ∀ b ∈ later, P b.2) (fun b => P b.2) leaf rotation nofun
    ?_ ?_
  · intro b later hb hlater
    exact List.forall_mem_cons.2 ⟨hb, hlater⟩
  · intro activation tree htree
    exact htree

/-! ## Following the resolution -/

mutual

/-- The source that governs a height, as it is found by resolving the height at every level. -/
def governor (height : UInt64) : SetTree m → Governor m
  | leaf set => { way := [], set := set }
  | rotation first later =>
    let (activation, below) :=
      Rotation.resolve { first := first.governor height, later := laterGovernors height later } height
    { below with way := activation :: below.way }

def laterGovernors (height : UInt64) : List (UInt64 × SetTree m) → List (UInt64 × Governor m)
  | [] => []
  | (activation, tree) :: rest =>
    (activation, tree.governor height) :: laterGovernors height rest

end

theorem laterGovernors_eq_map (height : UInt64) (later : List (UInt64 × SetTree m)) :
    laterGovernors height later = later.map fun b => (b.1, b.2.governor height) := by
  induction later with
  | nil => rfl
  | cons b later ih => rw [laterGovernors, ih, List.map_cons]

/-- The binding that a rotation resolves a height to. -/
def member (first : SetTree m) (later : List (UInt64 × SetTree m)) (height : UInt64) :
    UInt64 × SetTree m :=
  Rotation.resolve { first := first, later := later } height

variable {first : SetTree m} {later : List (UInt64 × SetTree m)} {height n : UInt64}

theorem governor_rotation (first : SetTree m) (later : List (UInt64 × SetTree m))
    (height : UInt64) : (rotation first later).governor height =
      { way := (member first later height).1 ::
          ((member first later height).2.governor height).way
        set := ((member first later height).2.governor height).set } := by
  have hmap := Rotation.resolve_map (governor (m := m) height) { first := first, later := later }
    height
  rw [governor, laterGovernors_eq_map, hmap]
  rfl

theorem member_cases (first : SetTree m) (later : List (UInt64 × SetTree m)) (height : UInt64) :
    (member first later height).2 = first ∨ member first later height ∈ later := by
  rcases List.mem_cons.1 (Rotation.resolve_mem { first := first, later := later } height) with
    h | h
  · exact .inl (congrArg Prod.snd h)
  · exact .inr h

/-- What all members of a rotation have, the one for a height has. -/
theorem member_of_forall {P : SetTree m → Prop} (hfirst : P first) (hlater : ∀ b ∈ later, P b.2)
    (height : UInt64) : P (member first later height).2 := by
  rcases member_cases first later height with h | h
  · rwa [h]
  · exact hlater _ h

theorem le_of_mem_way (tree : SetTree m) : ∀ a ∈ (tree.governor height).way, a ≤ height := by
  induction tree using SetTree.induction with
  | leaf set => nofun
  | rotation first later hfirst hlater =>
    rw [governor_rotation]
    refine List.forall_mem_cons.2 ⟨Rotation.resolve_le _ _, ?_⟩
    exact member_of_forall (P := fun tree => ∀ a ∈ (tree.governor height).way, a ≤ height)
      hfirst hlater height

/-! ## The trees that can be built -/

section

variable [Monad m]

/-- The trees that are built of sources by making rotations of bindings. -/
inductive Built : SetTree m → Prop
  | leaf (set : ValidatorSet m) : Built (leaf set)
  | rotation {bindings : List (UInt64 × SetTree m)} {tree : SetTree m}
      (members : ∀ b ∈ bindings, Built b.2) (built : ofBindings bindings = .ok tree) : Built tree

end

/-- Every rotation of the tree is in order. -/
inductive Ordered : SetTree m → Prop
  | leaf (set : ValidatorSet m) : Ordered (leaf set)
  | rotation {first : SetTree m} {later : List (UInt64 × SetTree m)}
      (order : Rotation.Ordered { first := first, later := later }) (ofFirst : Ordered first)
      (ofLater : ∀ b ∈ later, Ordered b.2) : Ordered (rotation first later)

theorem Built.ordered [Monad m] {tree : SetTree m} (h : tree.Built) : tree.Ordered := by
  induction h with
  | leaf set => exact .leaf set
  | @rotation bindings tree members built ih =>
    unfold ofBindings at built
    cases hr : Rotation.ofBindings bindings with
    | error e =>
      rw [hr] at built
      cases built
    | ok r =>
      rw [hr] at built
      cases built
      obtain ⟨horder, hperm⟩ := Rotation.ofBindings_eq_ok hr
      have hmem : ∀ b ∈ r.bindings, b.2.Ordered := fun b hb => ih b (hperm.mem_iff.1 hb)
      exact .rotation horder (hmem _ List.mem_cons_self)
        fun b hb => hmem b (List.mem_cons_of_mem _ hb)

theorem Ordered.built [Monad m] {tree : SetTree m} (h : tree.Ordered) : tree.Built := by
  induction h with
  | leaf set => exact .leaf set
  | @rotation first later order _ _ hfirst hlater =>
    have hmembers : ∀ b ∈ (0, first) :: later, b.2.Built :=
      List.forall_mem_cons.2 ⟨hfirst, hlater⟩
    refine .rotation hmembers ?_
    rw [ofBindings]
    exact congrArg (Except.map fun r => SetTree.rotation r.first r.later) order.ofBindings_bindings

theorem Ordered.member (h : (SetTree.rotation first later).Ordered) (height : UInt64) :
    (SetTree.member first later height).2.Ordered := by
  cases h with
  | rotation _ hfirst hlater => exact member_of_forall hfirst hlater height

theorem Ordered.order (h : (SetTree.rotation first later).Ordered) :
    Rotation.Ordered { first := first, later := later } := by
  cases h with
  | rotation order _ _ => exact order

/-! ## Where the way changes -/

/-- The way to a source tells which binding of the tree it is. -/
theorem Ordered.set_eq_of_way_eq {tree : SetTree m} (h : tree.Ordered) {n n' : UInt64}
    (hway : (tree.governor n).way = (tree.governor n').way) :
    (tree.governor n).set = (tree.governor n').set := by
  induction tree using SetTree.induction with
  | leaf set => rfl
  | rotation first later hfirst hlater =>
    rw [governor_rotation, governor_rotation] at hway ⊢
    obtain ⟨hhead, htail⟩ := List.cons.inj hway
    have hmember : SetTree.member first later n = SetTree.member first later n' :=
      h.order.eq_of_activation (Rotation.resolve_mem _ _) (Rotation.resolve_mem _ _) hhead
    rw [← hmember] at htail ⊢
    exact member_of_forall (P := fun tree => tree.Ordered →
      (tree.governor n).way = (tree.governor n').way →
        (tree.governor n).set = (tree.governor n').set) hfirst hlater n (h.member n) htail

/-- **One height on.** Where the way to the governing source changes, a member of one of the rotations
on the way is activated, and the way to this rotation is as before. -/
theorem Ordered.exists_activation {tree : SetTree m} (h : tree.Ordered) (hn : n ≠ 0)
    (hway : (tree.governor n).way ≠ (tree.governor (n - 1)).way) :
    ∃ outer inner, (tree.governor n).way = outer ++ n :: inner ∧
      outer <+: (tree.governor (n - 1)).way := by
  induction tree using SetTree.induction with
  | leaf set => exact absurd rfl hway
  | rotation first later hfirst hlater =>
    rw [governor_rotation, governor_rotation] at hway ⊢
    by_cases hmember : SetTree.member first later n = SetTree.member first later (n - 1)
    · -- The root resolves as before, so the change is further down.
      rw [← hmember] at hway ⊢
      have hbelow := member_of_forall (P := fun tree => tree.Ordered →
        (tree.governor n).way ≠ (tree.governor (n - 1)).way →
          ∃ outer inner, (tree.governor n).way = outer ++ n :: inner ∧
            outer <+: (tree.governor (n - 1)).way) hfirst hlater n
      obtain ⟨outer, inner, hsplit, hstart⟩ :=
        hbelow (h.member n) fun hsame => hway (congrArg (List.cons _) hsame)
      refine ⟨_ :: outer, inner, ?_, List.cons_prefix_cons.2 ⟨rfl, hstart⟩⟩
      rw [hsplit, List.cons_append]
    · have hactivated : (SetTree.member first later n).1 = n :=
        h.order.activation_of_resolve_ne hn hmember
      refine ⟨[], ((SetTree.member first later n).2.governor n).way, ?_, List.nil_prefix⟩
      rw [hactivated, List.nil_append]

/-! ## What the governing source is told -/

variable [Monad m]

theorem laterSets_eq_map (later : List (UInt64 × SetTree m)) :
    laterSets later = later.map fun b => (b.1, b.2.toSet) := by
  induction later with
  | nil => rfl
  | cons b later ih => rw [laterSets, ih, List.map_cons]

/-- The call on a tree is the call on the governing source, which is told whether it is its own
activation, or what the caller tells if there is no rotation above it. -/
theorem signalToChange_toSet (tree : SetTree m) (told : Bool) (receipts : List Receipt)
    (header : Header) (chain : Chain) (store : KeyValueStore) :
    tree.toSet.signalToChange told receipts header chain store =
      (tree.governor header.number).set.signalToChange
        ((tree.governor header.number).way.getLast?.elim told fun a => a = header.number)
        receipts header chain store := by
  induction tree using SetTree.induction generalizing told with
  | leaf set => rfl
  | rotation first later hfirst hlater =>
    have hmap := Rotation.resolve_map (toSet (m := m)) { first := first, later := later }
      header.number
    have hbelow := member_of_forall (P := fun tree => ∀ told,
      tree.toSet.signalToChange told receipts header chain store =
        (tree.governor header.number).set.signalToChange
          ((tree.governor header.number).way.getLast?.elim told fun a => a = header.number)
          receipts header chain store) hfirst hlater header.number
    rw [toSet, Rotation.toSet, laterSets_eq_map]
    dsimp only
    rw [hmap, governor_rotation]
    refine (hbelow _).trans ?_
    rw [List.getLast?_cons]
    cases ((member first later header.number).2.governor header.number).way.getLast? <;> rfl

/-- **New governing sources.** A tree of rotations is asked for the change at a header of number `n`.
Whatever it is told itself, it asks the one source that governs `n`, and tells it that it is new
exactly when the source's own binding is activated at `n`. This is so at height zero. A source whose
binding governed the height before is never told so. One whose binding did not is told so if the
rotation that holds the binding is reached in the same way as before; and in any case, `n` is the
activation of some binding on the way to it. -/
theorem signalToChange_governor {first : SetTree m} {later : List (UInt64 × SetTree m)}
    {tree : SetTree m} (hroot : tree = rotation first later) (h : tree.Built) :
    (∀ told receipts header chain store,
      tree.toSet.signalToChange told receipts header chain store =
        (tree.governor header.number).set.signalToChange
          ((tree.governor header.number).way.getLast? = some header.number)
          receipts header chain store) ∧
    (tree.governor 0).way.getLast? = some 0 ∧
    (∀ n, n ≠ 0 → (tree.governor n).way = (tree.governor (n - 1)).way →
      (tree.governor n).way.getLast? ≠ some n) ∧
    (∀ n, n ≠ 0 → (tree.governor n).way ≠ (tree.governor (n - 1)).way →
      n ∈ (tree.governor n).way ∧
      ((tree.governor n).way.dropLast <+: (tree.governor (n - 1)).way →
        (tree.governor n).way.getLast? = some n)) ∧
    ∀ n n', (tree.governor n).way = (tree.governor n').way →
      (tree.governor n).set = (tree.governor n').set := by
  have hlast : ∀ n, ∃ a, (tree.governor n).way.getLast? = some a := by
    intro n
    rw [hroot, governor_rotation, List.getLast?_cons]
    exact ⟨_, rfl⟩
  have hbefore : ∀ n, n ≠ 0 → n ∉ (tree.governor (n - 1)).way := by
    intro n hn hmem
    have hle := UInt64.le_iff_toNat_le.1 (le_of_mem_way tree n hmem)
    rw [Rotation.toNat_sub_one hn] at hle
    exact hn (UInt64.toNat_inj.1 (by rw [UInt64.toNat_zero]; omega))
  refine ⟨?_, ?_, ?_, ?_, fun n n' => h.ordered.set_eq_of_way_eq⟩
  · intro told receipts header chain store
    obtain ⟨a, ha⟩ := hlast header.number
    rw [signalToChange_toSet, ha]
    simp
  · obtain ⟨a, ha⟩ := hlast 0
    have hle := le_of_mem_way tree a (List.mem_of_getLast? ha)
    rw [ha, UInt64.le_zero_iff.1 hle]
  · intro n hn hsame htold
    rw [hsame] at htold
    exact hbefore n hn (List.mem_of_getLast? htold)
  · intro n hn hway
    obtain ⟨outer, inner, hsplit, -⟩ := h.ordered.exists_activation hn hway
    refine ⟨by rw [hsplit]; simp, fun hreached => ?_⟩
    rcases List.eq_nil_or_concat inner with rfl | ⟨inner, a, rfl⟩
    · rw [hsplit, List.getLast?_concat]
    · -- The binding activated at `n` is further up, so the rotation was not reached before.
      have hmem : n ∈ (tree.governor n).way.dropLast := by
        rw [hsplit, List.concat_eq_append, ← List.cons_append, ← List.append_assoc,
          List.dropLast_concat]
        simp
      exact absurd (hreached.subset hmem) (hbefore n hn)

end SetTree

/-! ## Two levels -/

namespace Sample

/-- A list of one validator as a source. -/
def single (byte : UInt8) : SetTree Id := .leaf (ValidatorSet.fixed [Octets.replicate 20 byte])

/-- The second source comes in at height 100, and the third one at height 200. -/
def threeSources : SetTree Id := .rotation (single 1) [(100, single 2), (200, single 3)]

/-- The same, but the second source and the third one are in a rotation of their own. -/
def nestedSources : SetTree Id :=
  .rotation (single 1) [(100, .rotation (single 2) [(200, single 3)])]

theorem threeSources_built : threeSources.Built := by
  refine SetTree.Ordered.built (.rotation ?_ (.leaf _) fun b hb => ?_)
  · simp [Rotation.Ordered, Rotation.bindings]
  · rcases List.mem_cons.1 hb with rfl | hb
    · exact .leaf _
    · rw [List.mem_singleton.1 hb]
      exact .leaf _

theorem nestedSources_built : nestedSources.Built := by
  refine SetTree.Ordered.built (.rotation ?_ (.leaf _) fun b hb => ?_)
  · simp [Rotation.Ordered, Rotation.bindings]
  · rw [List.mem_singleton.1 hb]
    refine .rotation ?_ (.leaf _) fun b hb => ?_
    · simp [Rotation.Ordered, Rotation.bindings]
    · rw [List.mem_singleton.1 hb]
      exact .leaf _

end Sample

namespace SetTree

/-- In one rotation, the source that comes in is told so. -/
theorem threeSources_told : Sample.threeSources.Built ∧
    (Sample.threeSources.governor 100).way = [100] ∧
    (Sample.threeSources.governor 99).way = [0] ∧
    Sample.threeSources.toSet.signalToChange false [] { number := 100 } [] {} =
      { validators := [Octets.replicate 20 2], changed := true, finalized := true } := by
  have hway : (Sample.threeSources.governor 100).way = [100] := by decide
  have hbefore : (Sample.threeSources.governor 99).way = [0] := by decide
  obtain ⟨hcall, -, -, hnew, -⟩ :=
    signalToChange_governor (show Sample.threeSources = .rotation _ _ from rfl)
      Sample.threeSources_built
  refine ⟨Sample.threeSources_built, hway, hbefore, ?_⟩
  have htold : (Sample.threeSources.governor 100).way.getLast? = some 100 :=
    (hnew 100 (by decide) (by decide)).2 (by decide)
  rw [hcall, show ({ number := 100 } : Header).number = 100 from rfl, decide_eq_true htold]
  rfl

/-- In the rotation within the rotation, the second source is activated at height zero. It governs
height 100 and not the one before, and it is told that it is not new. -/
theorem nestedSources_not_told : Sample.nestedSources.Built ∧
    (Sample.nestedSources.governor 100).way = [100, 0] ∧
    (Sample.nestedSources.governor 99).way = [0] ∧
    Sample.nestedSources.toSet.signalToChange true [] { number := 100 } [] {} =
      { validators := [Octets.replicate 20 2], changed := false, finalized := false } :=
  ⟨Sample.nestedSources_built, by decide, by decide, rfl⟩

end SetTree

end BlockSeal
