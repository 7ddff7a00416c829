/-
  How a finished session ended.
-/

namespace Concolic

/-- A finished session either found nothing left to explore or used up its budget. -/
inductive Outcome where
  | explorationExhausted
  | budgetExhausted
  deriving DecidableEq, Repr

namespace Outcome

/-- The name under which records and lines show an outcome. -/
def text : Outcome → String
  | explorationExhausted => "exploration_exhausted"
  | budgetExhausted => "budget_exhausted"

/-- The outcome that a name stands for. -/
def ofText? (s : String) : Option Outcome :=
  if s = "exploration_exhausted" then some explorationExhausted
  else if s = "budget_exhausted" then some budgetExhausted
  else none

end Outcome

end Concolic
