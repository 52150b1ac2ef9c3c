import BlockSeal.Error

/-! # Bounded maps that forget what was used longest ago

* `Recency κ α`: a map of at most `capacity` entries, kept most recent first.
* `create`: the empty map.
* `put`, `putIf`, `get`, `getOrMakeWith`, `getOrMake`: the operations that use an entry, and so bring
  it to the front.
* `peek`, `contains`, `find?`: the operations that look without using.

Every operation that uses an entry is the one step `touch`: the entry goes to the front, its old
place is given up, and what no longer fits is dropped at the end.
-/

set_option autoImplicit false

namespace BlockSeal

/-- A bounded map, most recent entry first. -/
structure Recency (κ α : Type) where
  capacity : Nat
  entries : List (κ × α) := []

namespace Recency

variable {κ α : Type}

/-- The empty map for `capacity` entries, which must not be zero; `cache` names it in the
refusal. -/
def create (cache : String) (capacity : UInt64) : Except Error (Recency κ α) :=
  if capacity = 0 then .error (.invalidConfig (.cacheCapacity cache))
  else .ok { capacity := capacity.toNat }

def size (c : Recency κ α) : Nat := c.entries.length

variable [DecidableEq κ]

/-! ## Looking without using -/

def peek (c : Recency κ α) (key : κ) : Option α := (c.entries.find? fun e => e.1 = key).map (·.2)

def contains (c : Recency κ α) (key : κ) : Bool := c.entries.any fun e => e.1 = key

/-- The most recent entry that satisfies `p`. -/
def find? (c : Recency κ α) (p : κ → α → Bool) : Option (κ × α) :=
  c.entries.find? fun e => p e.1 e.2

/-! ## Using entries -/

/-- The map with `value` under `key` as its most recent entry. -/
def touch (c : Recency κ α) (key : κ) (value : α) : Recency κ α :=
  { c with entries := ((key, value) :: c.entries.filter fun e => e.1 ≠ key).take c.capacity }

@[simp] theorem capacity_touch (c : Recency κ α) (key : κ) (value : α) :
    (c.touch key value).capacity = c.capacity := rfl

theorem size_touch_le (c : Recency κ α) (key : κ) (value : α) :
    (c.touch key value).size ≤ c.capacity := List.length_take_le _ _

/-- What was used last is there, if anything can be. -/
theorem peek_touch_self (c : Recency κ α) (key : κ) (value : α) (h : 0 < c.capacity) :
    (c.touch key value).peek key = some value := by
  obtain ⟨n, hn⟩ : ∃ n, c.capacity = n + 1 := ⟨c.capacity - 1, by omega⟩
  simp [touch, peek, hn]

/-- Inserts or replaces, and tells whether another entry was dropped for it. -/
def put (c : Recency κ α) (key : κ) (value : α) : Bool × Recency κ α :=
  (!c.contains key && c.capacity ≤ c.size, c.touch key value)

/-- Inserts or replaces if `check` admits it on seeing all entries; tells whether it did. -/
def putIf {ε : Type} (c : Recency κ α) (key : κ) (value : α)
    (check : List (κ × α) → Except ε Bool) : Except ε Bool × Recency κ α :=
  match check c.entries with
  | .error e => (.error e, c)
  | .ok false => (.ok false, c)
  | .ok true => (.ok true, c.touch key value)

/-- The value under a key, which becomes the most recent entry. -/
def get (c : Recency κ α) (key : κ) : Option α × Recency κ α :=
  match c.peek key with
  | none => (none, c)
  | some value => (some value, c.touch key value)

/-- The value under a key, made by `make` if there is none. Making may use and change what it works
on, `w`. If making fails, the map does not change. -/
def getOrMakeWith {σ : Type} (c : Recency κ α) (key : κ) (make : κ → σ → Option α × σ) (w : σ) :
    Option α × Recency κ α × σ :=
  match c.peek key with
  | some value => (some value, c.touch key value, w)
  | none =>
    match make key w with
    | (none, w) => (none, c, w)
    | (some value, w) => (some value, c.touch key value, w)

/-- The value under a key, made by `make` if there is none, where making does nothing else. -/
def getOrMake (c : Recency κ α) (key : κ) (make : κ → Option α) : Option α × Recency κ α :=
  let (value, c, _) := c.getOrMakeWith key (fun key w => (make key, w)) ()
  (value, c)

end Recency

end BlockSeal
