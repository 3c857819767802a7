import Rulebook.Json.Literal
import Rulebook.Json.Printer

/-!
# Identifiers

Errors and scopes are named by small numbers.  The two kinds of identifier are two types, so one
never stands for the other, and both fit 32 bits: `idLimit` is the first number that does not.
-/

namespace Rulebook

/-- The first number that is no identifier. -/
def idLimit : Nat := 4294967296

/-- Names an error definition of a catalog. -/
structure ErrorId where
  val : Nat
  deriving DecidableEq, Repr, Inhabited

/-- Names a scope of a table. -/
structure ScopeId where
  val : Nat
  deriving DecidableEq, Repr, Inhabited

/-- How an error is named in messages. -/
def ErrorId.label (id : ErrorId) : String := "error:" ++ toString id.val

/-- How a scope is named in messages. -/
def ScopeId.label (id : ScopeId) : String := "scope:" ++ toString id.val

instance : Ord ErrorId := ⟨compareOn ErrorId.val⟩
instance : Ord ScopeId := ⟨compareOn ScopeId.val⟩

instance : Std.TransOrd ErrorId := inferInstanceAs (Std.TransCmp (compareOn ErrorId.val))
instance : Std.TransOrd ScopeId := inferInstanceAs (Std.TransCmp (compareOn ScopeId.val))

/-- Identifiers that compare as equal have one number. -/
theorem ErrorId.eq_of_compare_val {a b : ErrorId} (h : compare a.val b.val = .eq) : a = b := by
  cases a; cases b
  exact congrArg ErrorId.mk (Nat.compare_eq_eq.1 h)

/-- Identifiers that compare as equal have one number. -/
theorem ScopeId.eq_of_compare_val {a b : ScopeId} (h : compare a.val b.val = .eq) : a = b := by
  cases a; cases b
  exact congrArg ScopeId.mk (Nat.compare_eq_eq.1 h)

instance : Std.LawfulEqOrd ErrorId := ⟨ErrorId.eq_of_compare_val⟩
instance : Std.LawfulEqOrd ScopeId := ⟨ScopeId.eq_of_compare_val⟩

/-- Reads the number of an identifier: a whole number that fits 32 bits. -/
def readId? (s : String) : Option Nat :=
  match Json.read? s with
  | some (.number (.whole n)) => if 0 ≤ n ∧ n < idLimit then some n.toNat else none
  | _ => none

/-- How the number of an identifier is written. -/
def idText (n : Nat) : String := Json.text (.number (.whole n))

end Rulebook
