/-! # How seals are produced and checked -/

set_option autoImplicit false

namespace BlockSeal

/-- The kind of seal that an engine works with, fixed for the engine's lifetime. -/
inductive Mode
  /-- Hash below target. -/
  | pow
  | slot
  /-- Every seal is accepted, except at one height. -/
  | fake
  | fullFake
deriving DecidableEq, Inhabited

namespace Mode

/-- The name in a configuration. -/
def name : Mode → String
  | pow => "pow"
  | slot => "slot"
  | fake => "fake"
  | fullFake => "full_fake"

/-- The name in an error text. -/
def title : Mode → String
  | pow => "Pow"
  | slot => "Slot"
  | fake => "Fake"
  | fullFake => "FullFake"

def all : List Mode := [pow, slot, fake, fullFake]

def ofName? (s : String) : Option Mode := all.find? fun m => m.name = s

theorem ofName?_name (m : Mode) : ofName? m.name = some m := by
  cases m <;> decide

end Mode

end BlockSeal
