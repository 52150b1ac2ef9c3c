/-! # Bounded queues

`Queue α` holds what was offered and not yet taken. An offer never waits: it is refused when the
queue is full or when nobody will read it any more.
-/

set_option autoImplicit false

namespace BlockSeal

structure Queue (α : Type) where
  capacity : Nat
  waiting : List α := []
  isRead : Bool := true

namespace Queue

variable {α : Type}

/-- The queue with one more item, or nothing if it is refused. -/
def offer? (q : Queue α) (a : α) : Option (Queue α) :=
  if q.isRead ∧ q.waiting.length < q.capacity then some { q with waiting := q.waiting ++ [a] }
  else none

/-- An accepted offer waits last, and nothing else changes. -/
theorem offer?_eq_some_iff {q r : Queue α} {a : α} :
    q.offer? a = some r ↔
      q.isRead ∧ q.waiting.length < q.capacity ∧ r = { q with waiting := q.waiting ++ [a] } := by
  unfold offer?
  split
  · rename_i h
    simp [h.1, h.2, eq_comm]
  · rename_i h
    simp only [reduceCtorEq, false_iff]
    intro hr
    exact h ⟨hr.1, hr.2.1⟩

/-- The items that wait, and the queue without them. -/
def drain (q : Queue α) : List α × Queue α := (q.waiting, { q with waiting := [] })

/-- The queue without its reader. -/
def abandon (q : Queue α) : Queue α := { q with waiting := [], isRead := false }

end Queue

end BlockSeal
