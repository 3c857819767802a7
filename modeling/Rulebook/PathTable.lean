import Rulebook.Dict
import Rulebook.Path
import Rulebook.SchemeError

/-!
# Tables of joined paths

The paths that the scopes of a scheme can join are known before there is a model, so they are
joined once and looked up afterwards.  What is not in the table is joined on the spot: `resolve`
always has an answer.

A table is the path cache of a scheme (section 4.3 of the specification), with its `insert`,
`resolve` and `check`; `find?` is its `get`.
-/

namespace Rulebook

/-- The joined path of a base and a relative path. -/
structure PathTable where
  /-- The joined paths by relative path, for each base. -/
  bases : Dict String (Dict String String) := ∅
  deriving Inhabited

namespace PathTable

/-- Records a joined path; the first one recorded for a pair stays. -/
def insert (t : PathTable) (base relative joined : String) : PathTable :=
  ⟨t.bases.alter base fun old => (old.getD ∅).insertNew relative joined⟩

/-- The joined path that is recorded for a pair. -/
def find? (t : PathTable) (base relative : String) : Option String :=
  t.bases.find? base >>= (·.find? relative)

/-- The joined path of a pair, from the table if it is there. -/
def resolve (t : PathTable) (base relative : String) : String :=
  (t.find? base relative).getD (Path.join base relative)

/-- The number of pairs. -/
def size (t : PathTable) : Nat := t.bases.total Dict.size

/-- Whether there is no pair. -/
def isEmpty (t : PathTable) : Bool := t.bases.values.all Dict.isEmpty

/-- The pairs with their joined paths. -/
def toList (t : PathTable) : List (String × String × String) :=
  t.bases.entries.flatMap fun b => b.2.entries.map fun r => (b.1, r.1, r.2)

/-- Refuses a table in which a pair that is not empty has the empty path. -/
def check (t : PathTable) : Except SchemeError Unit :=
  match t.toList.find? fun e => e.2.2.isEmpty && !(e.1.isEmpty && e.2.1.isEmpty) with
  | some e => .error (.emptyPath e.1 e.2.1)
  | none => .ok ()

end PathTable

end Rulebook
