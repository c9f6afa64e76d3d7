/-! The conformance levels, from the least demanding to the most demanding. -/
namespace AccessibleMarkup

inductive Level where
  | a
  | aa
  | aaa
  deriving DecidableEq

namespace Level

/-- The place of a level in the order. -/
def rank : Level → Nat
  | .a => 0
  | .aa => 1
  | .aaa => 2

def name : Level → String
  | .a => "A"
  | .aa => "AA"
  | .aaa => "AAA"

instance : LE Level := ⟨fun one other => one.rank ≤ other.rank⟩

instance : LT Level := ⟨fun one other => one.rank < other.rank⟩

instance (one other : Level) : Decidable (one ≤ other) :=
  inferInstanceAs (Decidable (one.rank ≤ other.rank))

instance (one other : Level) : Decidable (one < other) :=
  inferInstanceAs (Decidable (one.rank < other.rank))

def all : List Level := [.a, .aa, .aaa]

def ofName? (name : String) : Option Level :=
  all.find? fun level => level.name = name

/-- Levels are told apart by their names. -/
theorem ofName?_name (level : Level) : ofName? level.name = some level := by
  cases level <;> decide

/-- Levels have different names. -/
theorem name_injective : Function.Injective name := fun level other hNames => by
  have hSame := congrArg ofName? hNames
  rw [ofName?_name, ofName?_name] at hSame
  exact Option.some.inj hSame

end Level

end AccessibleMarkup
