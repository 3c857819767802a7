import Rulebook.Json.Basic

/-!
# Documents

A document is JSON in which nodes can be named and referred to, so it can share nodes and contain
itself.  An object with the single field `$ref` stands for the named node of that name.  Only what
can be checked is kept: texts, whole numbers of 64 bits, lists and objects; every other value is
null.

Every node has a `Place`, which says where it is written.  A reference has no place of its own: to
follow it is to go to the place of the named node.
-/

namespace Rulebook.Document

/-- A node as it is written. -/
inductive Tree where
  | null
  | text (s : String)
  | num (n : Int)
  | list (items : List Tree)
  /-- An object, with its fields in ascending order. -/
  | obj (fields : List (String × Tree))
  | ref (name : String)
  deriving Inhabited

/-- The field that makes an object a reference. -/
def refField : String := "$ref"

/-- The first whole number that does not fit 64 bits with a sign. -/
def numLimit : Int := 9223372036854775808

/-- The node of a whole number, if it fits 64 bits with a sign. -/
def Tree.ofInt (n : Int) : Tree := if -numLimit ≤ n ∧ n < numLimit then .num n else .null

/-- The reference that an object with these fields is, if it is one. -/
def reference? : List (String × Json) → Option String
  | [(key, .string name)] => if key = refField then some name else none
  | _ => none

mutual

/-- The node that a JSON value writes. -/
def Tree.ofJson : Json → Tree
  | .number (.whole n) => .ofInt n
  | .string s => .text s
  | .array items => .list (treesOfItems items)
  | .object fields =>
    match reference? fields with
    | some name => .ref name
    | none => .obj (treesOfFields fields)
  | _ => .null

/-- The nodes of a list. -/
def treesOfItems : List Json → List Tree
  | [] => []
  | j :: rest => Tree.ofJson j :: treesOfItems rest

/-- The nodes of the fields of an object. -/
def treesOfFields : List (String × Json) → List (String × Tree)
  | [] => []
  | (name, j) :: rest => (name, Tree.ofJson j) :: treesOfFields rest

end

mutual

/-- The number of nodes written in a node, itself included. -/
def Tree.size : Tree → Nat
  | .list items => 1 + itemsSize items
  | .obj fields => 1 + fieldsSize fields
  | _ => 1

/-- The number of nodes written in a list. -/
def itemsSize : List Tree → Nat
  | [] => 0
  | t :: rest => t.size + itemsSize rest

/-- The number of nodes written in the fields of an object. -/
def fieldsSize : List (String × Tree) → Nat
  | [] => 0
  | (_, t) :: rest => t.size + fieldsSize rest

end

end Rulebook.Document

namespace Rulebook

/-- Named nodes and a root. -/
structure Document where
  named : Dict String Document.Tree := ∅
  root : Option Document.Tree := none
  deriving Inhabited

namespace Document

/-- The document of named values and a root value. -/
def ofJson (named : List (String × Json)) (root : Option Json) : Document where
  named := Dict.ofList (named.map fun (name, j) => (name, .ofJson j))
  root := root.map Tree.ofJson

/-- The number of nodes written in a document. -/
def size (d : Document) : Nat :=
  d.named.total Tree.size + (d.root.map Tree.size).getD 0

/-! ## Places -/

/-- Where a tree begins. -/
inductive Anchor where
  | root
  | named (name : String)
  deriving DecidableEq, Repr

/-- Where a node is written: an anchor and the positions of the children to go down to, the last
one first. -/
structure Place where
  anchor : Anchor
  down : List Nat
  deriving DecidableEq, Repr

/-- The place of a child. -/
def Place.child (p : Place) (i : Nat) : Place := { p with down := i :: p.down }

/-- How many references in a row are followed. -/
def referenceLimit : Nat := 16

/-- Follows references, at most `hops` in a row; there is nothing behind a missing name. -/
def follow (d : Document) : (hops : Nat) → Place → Tree → Place × Tree
  | hops, _, .ref name =>
    match hops, d.named.find? name with
    | hops + 1, some t => d.follow hops ⟨.named name, []⟩ t
    | _, _ => (⟨.named name, []⟩, .null)
  | _, p, t => (p, t)

end Document

end Rulebook
