/-!
# Spaces of models

A scheme checks values of several kinds, and knows nothing about them but what a `ModelSpace`
tells: the kinds, the values of each kind, and where a value stands.  Two values of one kind at
one address are the same node of a model, which is how a run notices that a model leads back to
itself.

`reach` bounds how far a model can lead: from a value, no more than that many nodes can be
entered.  A run uses it only to know when to give up.
-/

namespace Rulebook

/-- Kinds of values, and what can be known about a value of a kind. -/
structure ModelSpace where
  Kind : Type
  /-- Kinds can be told apart. -/
  decideKind : DecidableEq Kind
  kindName : Kind → String
  Value : Kind → Type
  Address : Type
  /-- Places can be told apart. -/
  decideAddress : DecidableEq Address
  address : {k : Kind} → Value k → Address
  /-- A bound for the number of nodes, as kinds and addresses, that can be reached from a
  value. -/
  reach : {k : Kind} → Value k → Nat

namespace ModelSpace

variable (M : ModelSpace)

instance : DecidableEq M.Kind := M.decideKind
instance : DecidableEq M.Address := M.decideAddress

/-- A node of a model: a kind and a place. -/
abbrev Node := M.Kind × M.Address

end ModelSpace

/-- The node at which a value stands. -/
def ModelSpace.nodeOf (M : ModelSpace) {k : M.Kind} (v : M.Value k) : M.Node := (k, M.address v)

end Rulebook
