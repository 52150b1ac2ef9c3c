import BlockSeal.Validators.Basic

/-! # Sources that take turns by height

* `Rotation α`: things that follow one another, each from its activation height on; the first one
  is active from height zero.
* `Rotation.ofBindings`: the rotation of bindings in any order, if one starts at zero and no two
  share a height.
* `Rotation.resolve`: the binding with the greatest activation up to a height.
* `Rotation.toSet`: a rotation of sources as one source.
* `SetTree`: rotations of rotations, to any depth.
-/

set_option autoImplicit false

namespace BlockSeal

/-- Things that follow one another by height. -/
structure Rotation (α : Type) where
  first : α
  /-- What follows, with the heights, in increasing order. -/
  later : List (UInt64 × α)

namespace Rotation

variable {α : Type}

/-! ## Construction -/

/-- The first height that two neighbours share. -/
def sharedActivation? : List (UInt64 × α) → Option UInt64
  | a :: b :: rest => if a.1 = b.1 then some a.1 else sharedActivation? (b :: rest)
  | _ => none

def ofBindings (bindings : List (UInt64 × α)) : Except Error (Rotation α) :=
  match bindings.mergeSort fun a b => a.1 ≤ b.1 with
  | [] => .error (.invalidState .noSetFromStart)
  | (activation, first) :: later =>
    if activation ≠ 0 then .error (.invalidState .noSetFromStart)
    else match sharedActivation? ((activation, first) :: later) with
      | some height => .error (.invalidState (.sharedActivation height))
      | none => .ok { first := first, later := later }

/-- All bindings, in increasing order of their heights. -/
def bindings (r : Rotation α) : List (UInt64 × α) := (0, r.first) :: r.later

def activations (r : Rotation α) : List UInt64 := r.bindings.map (·.1)

/-! ## Routing -/

/-- The binding with the greatest activation up to `height`. -/
def resolve (r : Rotation α) (height : UInt64) : UInt64 × α :=
  ((r.later.takeWhile fun b => b.1 ≤ height).getLast?).getD (0, r.first)

variable {m : Type → Type} [Monad m]

/-- A rotation of sources as one source: every call goes to the source that is active at the
block's height. Whether it is that source's first block is told by its activation height. -/
def toSet (r : Rotation (ValidatorSet m)) : ValidatorSet m where
  signalToChange := fun _ receipts header chain store =>
    let (activation, set) := r.resolve header.number
    set.signalToChange (activation = header.number) receipts header chain store
  finalizeChange := fun header state => (r.resolve header.number).2.finalizeChange header state
  validatorsAt := fun height => (r.resolve height).2.validatorsAt height
  count := pure (.error (.notSupported .countAcrossSets))
  prepareBackend := fun header chain store =>
    (r.resolve header.number).2.prepareBackend header chain store

end Rotation

/-! ## Trees of rotations -/

/-- A source, or a rotation whose members are such trees again. -/
inductive SetTree (m : Type → Type)
  | leaf (set : ValidatorSet m)
  | rotation (first : SetTree m) (later : List (UInt64 × SetTree m))

namespace SetTree

variable {m : Type → Type} [Monad m]

mutual

def toSet : SetTree m → ValidatorSet m
  | leaf set => set
  | rotation first later => Rotation.toSet { first := first.toSet, later := laterSets later }

/-- The members of a rotation as sources. -/
def laterSets : List (UInt64 × SetTree m) → List (UInt64 × ValidatorSet m)
  | [] => []
  | (height, tree) :: rest => (height, tree.toSet) :: laterSets rest

end

def ofBindings (bindings : List (UInt64 × SetTree m)) : Except Error (SetTree m) :=
  (Rotation.ofBindings bindings).map fun r => rotation r.first r.later

end SetTree

end BlockSeal
