import Mathlib.Data.List.Basic
import Rulebook.Error.Definition

/-!
# Equality of error definitions

Definitions are compared part by part, and two of the parts are not told apart by how they are
represented: the zeros among the doubles are equal.  `canonical` takes the sign from a zero and
leaves the rest as it is, and two definitions are equal if and only if they have the same
canonical form.  So being equal is an equivalence (`ErrorDef` has an instance of `EquivBEq`),
which is all that a catalog needs of it.
-/

namespace Rulebook

/-! ## Numbers -/

/-- The number with the sign taken from a zero. -/
def Double.canonical (x : Double) : Double := if x.isZero then zero false else x

theorem Double.beq_iff {x y : Double} : (x == y) = true ↔ x.canonical = y.canonical := by
  have hbeq : (x == y) = (decide (x = y) || (x.isZero && y.isZero)) := rfl
  have hzero : (zero false).isZero = true := rfl
  rw [hbeq, canonical, canonical]
  cases hx : x.isZero with
  | true =>
    cases hy : y.isZero with
    | true => simp
    | false =>
      have hne : x ≠ y := fun h => by simp [h, hy] at hx
      have hne' : zero false ≠ y := fun h => by simp [← h, hzero] at hy
      simp [hne, hne']
  | false =>
    cases hy : y.isZero with
    | true =>
      have hne : x ≠ y := fun h => by simp [h, hy] at hx
      have hne' : x ≠ zero false := fun h => by simp [h, hzero] at hx
      simp [hne, hne']
    | false => simp

namespace Json

/-- The number with the sign taken from a zero. -/
def Number.canonical : Number → Number
  | whole n => whole n
  | double x => double x.canonical

theorem Number.beq_iff {a b : Number} : (a == b) = true ↔ a.canonical = b.canonical := by
  cases a with
  | whole m =>
    cases b with
    | whole n =>
      have hbeq : (whole m == whole n) = decide (m = n) := rfl
      simp [hbeq, canonical]
    | double y =>
      have hbeq : (whole m == double y) = false := rfl
      simp [hbeq, canonical]
  | double x =>
    cases b with
    | whole n =>
      have hbeq : (double x == whole n) = false := rfl
      simp [hbeq, canonical]
    | double y =>
      have hbeq : (double x == double y) = (x == y) := rfl
      simp [hbeq, canonical, Double.beq_iff]

/-! ## Values -/

mutual

/-- The value with the sign taken from every zero. -/
def canonical : Json → Json
  | number n => number n.canonical
  | array items => array (canonicalItems items)
  | object fields => object (canonicalFields fields)
  | j => j

/-- The values with the sign taken from every zero. -/
def canonicalItems : List Json → List Json
  | [] => []
  | a :: as => a.canonical :: canonicalItems as

/-- The fields with the sign taken from every zero. -/
def canonicalFields : List (String × Json) → List (String × Json)
  | [] => []
  | (k, a) :: as => (k, a.canonical) :: canonicalFields as

end

mutual

theorem beq_iff (a b : Json) : (a == b) = true ↔ a.canonical = b.canonical := by
  have hbeq : (a == b) = beq a b := rfl
  rw [hbeq]
  cases a with
  | number m =>
    cases b <;> simp [beq, canonical, Number.beq_iff]
  | array as =>
    cases b with
    | array bs => simp [beq, canonical, beqItems_iff as bs]
    | _ => simp [beq, canonical]
  | object as =>
    cases b with
    | object bs => simp [beq, canonical, beqFields_iff as bs]
    | _ => simp [beq, canonical]
  | _ => cases b <;> simp [beq, canonical]

theorem beqItems_iff (as bs : List Json) :
    beqItems as bs = true ↔ canonicalItems as = canonicalItems bs := by
  cases as with
  | nil => cases bs <;> simp [beqItems, canonicalItems]
  | cons a as =>
    cases bs with
    | nil => simp [beqItems, canonicalItems]
    | cons b bs =>
      have hhead : beq a b = true ↔ a.canonical = b.canonical := beq_iff a b
      simp [beqItems, canonicalItems, hhead, beqItems_iff as bs]

theorem beqFields_iff (as bs : List (String × Json)) :
    beqFields as bs = true ↔ canonicalFields as = canonicalFields bs := by
  cases as with
  | nil => cases bs <;> simp [beqFields, canonicalFields]
  | cons e as =>
    obtain ⟨k, a⟩ := e
    cases bs with
    | nil => simp [beqFields, canonicalFields]
    | cons e bs =>
      obtain ⟨l, b⟩ := e
      have hhead : beq a b = true ↔ a.canonical = b.canonical := beq_iff a b
      simp [beqFields, canonicalFields, hhead, beqFields_iff as bs]

end

end Json

/-! ## Definitions -/

/-- The name of an argument, with the canonical form of its value. -/
def Argument.canonical (a : Argument) : String × Json := (a.name, a.value.json.canonical)

theorem Argument.beq_iff {a b : Argument} : (a == b) = true ↔ a.canonical = b.canonical := by
  have hbeq : (a == b) = (a.name == b.name && a.value.json == b.value.json) := rfl
  simp [hbeq, canonical, Json.beq_iff]

namespace ErrorDef

/-- The parts of a definition, with the canonical forms of its arguments. -/
def canonical (e : ErrorDef) : List String × Option String × List (String × Json) :=
  (e.codes, e.message, e.args.map Argument.canonical)

theorem beq_iff {e e' : ErrorDef} : (e == e') = true ↔ e.canonical = e'.canonical := by
  have hargs (as bs : List Argument) :
      (as == bs) = true ↔ as.map Argument.canonical = bs.map Argument.canonical := by
    induction as generalizing bs with
    | nil => cases bs <;> simp
    | cons a as ih =>
      cases bs with
      | nil => simp
      | cons b bs => simp [Argument.beq_iff, ih]
  have hbeq :
      (e == e') = (e.codes == e'.codes && (e.message == e'.message && e.args == e'.args)) :=
    rfl
  simp [hbeq, canonical, hargs]

instance : EquivBEq ErrorDef where
  rfl := beq_iff.2 rfl
  symm h := beq_iff.2 (beq_iff.1 h).symm
  trans h h' := beq_iff.2 ((beq_iff.1 h).trans (beq_iff.1 h'))

end ErrorDef

end Rulebook
