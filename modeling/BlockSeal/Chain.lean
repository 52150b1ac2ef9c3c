import BlockSeal.Header

/-! # The chain around the engine

`Chain` holds the headers that are known, in order. Where several headers fit a question, the
first one is the answer.
-/

set_option autoImplicit false

namespace BlockSeal

/-- The headers that are known, in order. -/
abbrev Chain := List Header

namespace Chain

def headerAt? (chain : Chain) (number : UInt64) : Option Header :=
  chain.find? fun h => h.number = number

/-- The first header at a height with the given hash. -/
def header? (chain : Chain) (hash : Hash) (number : UInt64) : Option Header :=
  chain.find? fun h => h.number = number && h.hash = hash

end Chain

end BlockSeal
