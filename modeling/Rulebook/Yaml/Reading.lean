import Rulebook.Yaml.Basic

/-!
# Reading YAML nodes as values

The readers below take a node as a text, as a truth value that may be null, or as a mapping with
texts as keys, for which a value that is left out stands as well.  Each of them follows an alias
to the node that it stands for.  With aliases a short document can stand for a huge one, so only
so many may be followed as `aliasLimit` says.
-/

namespace Rulebook.Yaml

/-- A value read from nodes, given the nodes with anchors and how many aliases may be followed;
what is left of that number is handed on. -/
abbrev Reading (α : Type) : Type := ReaderT (List (Nat × Yaml)) (StateT Nat Option) α

/-- How many aliases may be followed in a document. -/
def aliasLimit (document : Yaml) : Nat := 100 * document.size

/-- Reads the content of a document. -/
def Reading.run? {α : Type} (read : Yaml → Reading α) (document : Yaml) : Option α :=
  ((read document).run document.anchors).run' (aliasLimit document)

/-- The node that is meant: an alias stands for the last node with its number. -/
def target : Yaml → Reading Yaml
  | aliasOf number => fun anchors left =>
    match left, (anchors.filter (·.1 = number)).getLast? with
    | left + 1, some (_, node) => some (node, left)
    | _, _ => none
  | anchored _ node => pure node
  | node => pure node

/-- The text of a scalar. -/
def text (y : Yaml) : Reading String := do
  match ← y.target with
  | scalar _ _ s => return s
  | _ => failure

/-! ## Truth values -/

/-- The tag of null. -/
def nullTag : String := "tag:yaml.org,2002:null"

/-- The tag of the truth values. -/
def flagTag : String := "tag:yaml.org,2002:bool"

/-- The texts that mean null. -/
def nullTexts : List String := ["~", "null", "Null", "NULL"]

/-- The texts that mean true. -/
def trueTexts : List String := ["true", "True", "TRUE"]

/-- The texts that mean false. -/
def falseTexts : List String := ["false", "False", "FALSE"]

/-- The truth value of a text. -/
def flagOfText? (s : String) : Option Bool :=
  if trueTexts.contains s then some true
  else if falseTexts.contains s then some false
  else none

/-- The truth value, or null, of a scalar.  A plain scalar without a tag may be null, and one with
the tag of null must be; besides plain scalars only blocks with their tag are truth values. -/
def flagOfScalar? (tag : Option String) (style : ScalarStyle) (s : String) :
    Option (Option Bool) :=
  match style, tag with
  | .plain, none =>
    if s.isEmpty || nullTexts.contains s then some none else (flagOfText? s).map some
  | .plain, some tag =>
    if tag = nullTag then if nullTexts.contains s then some none else none
    else (flagOfText? s).map some
  | .literal, some tag => if tag = flagTag then (flagOfText? s).map some else none
  | _, _ => none

/-- A truth value, or null. -/
def flag (y : Yaml) : Reading (Option Bool) := do
  match ← y.target with
  | scalar tag style s => flagOfScalar? tag style s
  | _ => failure

/-! ## Mappings -/

/-- The pairs of a mapping. -/
def pairs (y : Yaml) : Reading (List (Yaml × Yaml)) := do
  match ← y.target with
  | mapping pairs => return pairs
  | scalar _ .plain "" => return []
  | _ => failure

/-- The pairs of a mapping with texts as keys, each value read with `read`. -/
def entries {α : Type} (read : Yaml → Reading α) (y : Yaml) : Reading (List (String × α)) := do
  (← y.pairs).mapM fun (key, value) => do return (← key.text, ← read value)

/-- The value of the field `name`, which may stand once. -/
def field? (name : String) (fields : List (String × Yaml)) : Option (Option Yaml) :=
  match fields.filter (·.1 = name) with
  | [] => some none
  | [field] => some (some field.2)
  | _ => none

/-- The values of the fields `names`; other fields are passed over, and a known one may stand
once. -/
def record (names : List String) (y : Yaml) : Reading (List (Option Yaml)) := do
  let fields ← y.entries pure
  (names.mapM (field? · fields) : Option _)

end Rulebook.Yaml
