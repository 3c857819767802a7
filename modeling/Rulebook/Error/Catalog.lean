import Rulebook.Dict
import Rulebook.Error.Definition
import Rulebook.SchemeError

/-!
# Catalogs of errors

A catalog gives each error identifier its definition.  Results hold identifiers only, so a
definition is kept once, however often it is recorded.

A `Catalog.Draft` is a catalog in the making.  Registering a definition that is equal to an
earlier one gives the identifier of that one; otherwise the definition is put at the end, and its
place there is its identifier.  The draft sorts the identifiers into groups whose definitions
agree in codes and message, so only the members of one group are compared in full.

A catalog is the error registry of the specification (section 3) and a draft its builder, with the
same `register`; `catalog` is its `build`.  `ErrorsByPath` is what runs and surveys record in.
-/

namespace Rulebook

/-- Error definitions by identifier. -/
abbrev Catalog := Dict ErrorId ErrorDef

/-- A catalog in the making. -/
structure Catalog.Draft where
  /-- The definitions, each at the place that is its identifier. -/
  definitions : List ErrorDef := []
  /-- The identifiers of the definitions with these codes and this message. -/
  groups : List ((List String × Option String) × List ErrorId) := []
  deriving Inhabited

namespace Catalog.Draft

/-- The group of a definition. -/
def groupOf (e : ErrorDef) : List String × Option String := (e.codes, e.message)

/-- The identifiers in the group of `e`. -/
def candidates (d : Draft) (e : ErrorDef) : List ErrorId :=
  ((d.groups.find? (·.1 = groupOf e)).map (·.2)).getD []

/-- Puts an identifier at the end of a group. -/
def addToGroup (key : List String × Option String) (id : ErrorId) :
    List ((List String × Option String) × List ErrorId) →
      List ((List String × Option String) × List ErrorId)
  | [] => [(key, [id])]
  | (k, ids) :: rest =>
    if k = key then (k, ids ++ [id]) :: rest else (k, ids) :: addToGroup key id rest

/-- Registers a definition: the identifier of an equal one, or a new one. -/
def register (d : Draft) (e : ErrorDef) : Except SchemeError (ErrorId × Draft) :=
  match (d.candidates e).find? fun id => d.definitions[id.val]? == some e with
  | some id => .ok (id, d)
  | none =>
    let id : ErrorId := ⟨d.definitions.length⟩
    if id.val < idLimit then
      .ok (id, ⟨d.definitions ++ [e], addToGroup (groupOf e) id d.groups⟩)
    else .error (.idsExhausted "error")

/-- The number of definitions. -/
def size (d : Draft) : Nat := d.definitions.length

/-- The finished catalog. -/
def catalog (d : Draft) : Catalog :=
  Dict.ofList (d.definitions.zipIdx.map fun p => (⟨p.2⟩, p.1))

end Catalog.Draft

/-- The errors recorded at each path, in order. -/
abbrev ErrorsByPath := Dict String (List ErrorId)

namespace ErrorsByPath

/-- Puts an error at the end of the list of a path. -/
def record (errors : ErrorsByPath) (path : String) (id : ErrorId) : ErrorsByPath :=
  errors.alter path fun ids => ids.getD [] ++ [id]

/-- The number of recorded errors, repetitions included. -/
def count (errors : ErrorsByPath) : Nat := errors.total List.length

/-- All recorded errors, path by path. -/
def ids (errors : ErrorsByPath) : List ErrorId := errors.values.flatten

end ErrorsByPath

end Rulebook
