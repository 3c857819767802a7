import Rulebook.Document.View
import Rulebook.Text.Basic

/-!
# Tests on documents

A `Test` is a predicate on the values of a document.  A value of any kind is tested like what it
holds.
-/

namespace Rulebook.Document

/-- A predicate on the values of a document. -/
inductive Test where
  | pass
  | fail
  /-- The text, list or object is not empty, or the number is not zero. -/
  | nonempty
  | min (n : Int)
  /-- The size is at most that, or there is no value. -/
  | max (n : Int)
  /-- The text has that part, or the object has that field. -/
  | contains (s : String)
  | startsWith (s : String)
  /-- The value is of that kind; without a kind, there is no value. -/
  | isKind (k : Option Kind)
  | not (t : Test)
  deriving Repr

/-- The size of a node: the characters of a text, the value of a number, the parts of a list or
an object. -/
def Tree.extent? : Tree → Option Int
  | .text s => some s.length
  | .num n => some n
  | .list items => some items.length
  | .obj fields => some fields.length
  | _ => none

/-- Whether a node is a text, list or object that is not empty, or a number that is not zero. -/
def Tree.isNonempty : Tree → Bool
  | .num n => n ≠ 0
  | t => (t.extent?.map fun n => decide (0 < n)).getD false

/-- Whether a node is of a kind, or nothing where there is no kind. -/
def Tree.isOfKind : Option Kind → Tree → Bool
  | none, .null => true
  | none, _ => false
  | some k, t => k ≠ .any && k.fits t

/-- Whether a value holds a test. -/
def Test.holds {k : Kind} (v : View k) : Test → Bool
  | pass => true
  | fail => false
  | nonempty => v.tree.isNonempty
  | min n => (v.tree.extent?.map fun size => decide (n ≤ size)).getD false
  | max n => (v.tree.extent?.map fun size => decide (size ≤ n)).getD true
  | contains s =>
    match v.tree with
    | .text whole => Text.occursIn s.toList whole.toList
    | .obj _ => (v.field? s .any).isSome
    | _ => false
  | startsWith s =>
    match v.tree with
    | .text whole => s.toList.isPrefixOf whole.toList
    | _ => false
  | isKind k => v.tree.isOfKind k
  | not t => !t.holds v

end Rulebook.Document
