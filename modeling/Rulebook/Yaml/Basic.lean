/-!
# YAML nodes

A YAML document is a tree of scalars, sequences and mappings.  A scalar is a text, and what else
it may mean is up to its reader, who goes by its tag and by how it is written.  A value that is
left out is the plain empty scalar.

A node with an anchor has a number, and an alias with that number stands for the node.  So the
tree is finite also where a node contains an alias for itself.
-/

namespace Rulebook

namespace Yaml

/-- How a scalar is written. -/
inductive ScalarStyle where
  /-- Without quotes. -/
  | plain
  /-- In single or double quotes. -/
  | quoted
  /-- As a block whose lines are kept. -/
  | literal
  /-- As a block whose lines are joined. -/
  | folded
  deriving DecidableEq, Inhabited

end Yaml

/-- A node of a YAML document. -/
inductive Yaml where
  /-- A text, which may have a tag. -/
  | scalar (tag : Option String) (style : Yaml.ScalarStyle) (text : String)
  | sequence (items : List Yaml)
  | mapping (pairs : List (Yaml × Yaml))
  | anchored (number : Nat) (node : Yaml)
  /-- What stands for a node with an anchor. -/
  | aliasOf (number : Nat)
  deriving Inhabited

namespace Yaml

/-- What is meant where nothing is written. -/
def empty : Yaml := scalar none .plain ""

mutual

/-- The nodes with anchors and their numbers, in the order in which they begin. -/
def anchors : Yaml → List (Nat × Yaml)
  | sequence items => anchorsOfItems items
  | mapping pairs => anchorsOfPairs pairs
  | anchored number node => (number, node) :: anchors node
  | _ => []

/-- The nodes with anchors in a list of nodes. -/
def anchorsOfItems : List Yaml → List (Nat × Yaml)
  | [] => []
  | y :: rest => anchors y ++ anchorsOfItems rest

/-- The nodes with anchors in a list of keys and values. -/
def anchorsOfPairs : List (Yaml × Yaml) → List (Nat × Yaml)
  | [] => []
  | (key, value) :: rest => anchors key ++ anchors value ++ anchorsOfPairs rest

end

mutual

/-- How many steps it takes to go through a node: one for a scalar or an alias; to begin and to
end a collection takes a step each. -/
def size : Yaml → Nat
  | scalar _ _ _ => 1
  | aliasOf _ => 1
  | anchored _ node => size node
  | sequence items => sizeOfItems items + 2
  | mapping pairs => sizeOfPairs pairs + 2

/-- How many steps it takes to go through a list of nodes. -/
def sizeOfItems : List Yaml → Nat
  | [] => 0
  | y :: rest => size y + sizeOfItems rest

/-- How many steps it takes to go through a list of keys and values. -/
def sizeOfPairs : List (Yaml × Yaml) → Nat
  | [] => 0
  | (key, value) :: rest => size key + size value + sizeOfPairs rest

end

end Yaml

end Rulebook
