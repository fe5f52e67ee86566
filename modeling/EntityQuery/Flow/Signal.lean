/-!
# Cancellation

A signal is set once and stays set.  A run looks at it again and again; all that a run can learn of
the moment of cancellation is how many of its looks found the signal unset.
-/

namespace EntityQuery

/-- A cancellation signal, by the number of looks that still find it unset; none if it is never
set. -/
structure Signal where
  unsetLooks : Option Nat
  deriving DecidableEq, Repr

namespace Signal

/-- The signal that is never set. -/
def never : Signal := ⟨none⟩

/-- The signal that is set. -/
def raised : Signal := ⟨some 0⟩

/-- The signal is set. -/
def isSet (s : Signal) : Bool := s.unsetLooks = some 0

/-- The signal after one more look. -/
def look (s : Signal) : Signal := ⟨s.unsetLooks.map (· - 1)⟩

@[simp] theorem look_never : never.look = never := rfl

@[simp] theorem look_raised : raised.look = raised := rfl

@[simp] theorem isSet_never : never.isSet = false := rfl

@[simp] theorem isSet_raised : raised.isSet = true := rfl

end Signal

end EntityQuery
