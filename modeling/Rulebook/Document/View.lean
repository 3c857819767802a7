import Rulebook.Document.Tree
import Rulebook.Scheme.Space

/-!
# Documents as models

The nodes of documents are values of five kinds: texts, numbers, objects and lists, and nodes of
any kind.  A `View` is a node seen as a value of a kind.  Every view of one node stands at the
same address, so the same object seen as an object and as any value is two nodes of the model.

The elements of a list can be had in three ways: where they are written, with references followed,
and as two sorts of copies.  Copies are made for a kind, and those of each sort and each kind have
addresses of their own, which they keep when they are narrowed.  What is below a copy is not
copied.  A field that is not there can be replaced by an empty value, which is shared by the whole
document.
-/

namespace Rulebook.Document

/-- The kinds of values. -/
inductive Kind where
  | any
  | text
  | num
  | obj
  | list
  deriving DecidableEq, Repr

/-- How an element of a list was had. -/
inductive Copy where
  /-- Where it is written. -/
  | written
  /-- As one of the copies of those elements that are of a kind. -/
  | item (kind : Kind)
  /-- As one of the copies for a kind, of which some may be absent. -/
  | option (kind : Kind)
  deriving DecidableEq, Repr

/-- Where a value stands. -/
inductive Address where
  /-- At a place, or at a copy of it. -/
  | at (place : Place) (copy : Copy)
  /-- Nowhere: the shared empty value. -/
  | shared
  deriving DecidableEq, Repr

/-- Whether a node is a value of a kind. -/
def Kind.fits : Kind → Tree → Bool
  | any, _ => true
  | text, .text _ => true
  | num, .num _ => true
  | obj, .obj _ => true
  | list, .list _ => true
  | _, _ => false

/-- A node seen as a value of a kind. -/
structure View (k : Kind) where
  document : Document
  tree : Tree
  address : Address
  fits : k.fits tree

/-- The node at an address as a value of a kind, if it is one; null is none. -/
def view? (d : Document) (k : Kind) (address : Address) : Tree → Option (View k)
  | .null => none
  | t => if h : k.fits t then some ⟨d, t, address, h⟩ else none

/-- The node at a place, with references followed, as a value of a kind. -/
def cast? (d : Document) (k : Kind) (place : Place) (t : Tree) : Option (View k) :=
  let (place, t) := d.follow referenceLimit place t
  view? d k (.at place .written) t

/-- The root as a value of a kind. -/
def rootView? (d : Document) (k : Kind) : Option (View k) :=
  d.root.bind (d.cast? k ⟨.root, []⟩)

/-- What is written for an empty value of a kind. -/
def Kind.emptyTree : Kind → Tree
  | any => .null
  | text => .text ""
  | num => .num 0
  | obj => .obj []
  | list => .list []

/-- The shared empty value of a kind. -/
def emptyView (d : Document) (k : Kind) : View k :=
  ⟨d, k.emptyTree, .shared, by cases k <;> rfl⟩

namespace View

variable {k : Kind}

/-- Where the children of a node are written; those of the shared values, of which there are none,
need no place. -/
def place (v : View k) : Place :=
  match v.address with
  | .at place _ => place
  | .shared => ⟨.root, []⟩

/-- A field as a value of a kind. -/
def field? (v : View k) (name : String) (l : Kind) : Option (View l) :=
  match v.tree with
  | .obj fields =>
    match fields.findIdx? (·.1 = name) with
    | some i => fields[i]?.bind fun f => v.document.cast? l (v.place.child i) f.2
    | none => none
  | _ => none

/-- A field as a value of a kind, or the shared empty value. -/
def fieldOrEmpty (v : View k) (name : String) (l : Kind) : View l :=
  (v.field? name l).getD (emptyView v.document l)

/-- The elements of a list, with their positions. -/
def elements (v : View k) : List (Tree × Nat) :=
  match v.tree with
  | .list items => items.zipIdx
  | _ => []

/-- The elements of a list, or the field values of an object, as values of a kind. -/
def children (v : View k) (l : Kind) : List (Option (View l)) :=
  let written : List Tree :=
    match v.tree with
    | .list items => items
    | .obj fields => fields.map (·.2)
    | _ => []
  written.zipIdx.map fun (t, i) => v.document.cast? l (v.place.child i) t

/-- A copy of an element as a value of a kind; references are not copied. -/
def copy? (v : View k) (copy : Kind → Copy) (l : Kind) : Tree × Nat → Option (View l)
  | (.ref _, _) => none
  | (t, i) => view? v.document l (.at (v.place.child i) (copy l)) t

/-- Copies of the elements that are of a kind, without the others. -/
def items (v : View k) (l : Kind) : List (Option (View l)) :=
  (v.elements.filterMap (v.copy? .item l)).map some

/-- Copies of the elements that are of a kind, the others being absent. -/
def options (v : View k) (l : Kind) : List (Option (View l)) :=
  v.elements.map (v.copy? .option l)

/-- The same node as a value of another kind: a node of any kind may be of that kind, and every
node is of its own. -/
def narrow? (v : View k) (l : Kind) : Option (View l) :=
  if h : k = l then some (h ▸ v)
  else if k = .any then view? v.document l v.address v.tree
  else none

end View

/-! ## The space -/

/-- The number of kinds. -/
def kindCount : Nat := 5

/-- The number of ways in which a written node can be had: where it is written, and as a copy of
either sort for each kind. -/
def copyCount : Nat := 1 + 2 * kindCount

/-- Documents as models, with a name for each kind. -/
@[reducible] def space (kindName : Kind → String) : ModelSpace where
  Kind := Kind
  decideKind := inferInstance
  kindName := kindName
  Value := View
  Address := Address
  decideAddress := inferInstance
  address := View.address
  reach v := kindCount * (copyCount * v.document.size + 1)

end Rulebook.Document
