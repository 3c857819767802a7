import Rulebook.Scheme.Assembly
import Rulebook.Text.Visible
import Rulebook.Validator

/-!
# Texts for inspection

Everything that is built can be shown to whoever looks for a mistake.  A text for inspection names
the fields of a value and writes texts in quotes, with every character that is not visible by its
number.
-/

namespace Rulebook.Inspect

/-! ## Forms -/

/-- The digits of a number in base sixteen. -/
def hex (n : Nat) : String := String.ofList (Nat.toDigits 16 n)

/-- How one character of a text is shown. -/
def quotedChar (c : Char) : String :=
  match c with
  | '\x00' => "\\0"
  | '\t' => "\\t"
  | '\r' => "\\r"
  | '\n' => "\\n"
  | '\\' => "\\\\"
  | '"' => "\\\""
  | c => if Text.isVisible c then c.toString else "\\u\x7b" ++ hex c.toNat ++ "\x7d"

/-- A text in quotes. -/
def quoted (s : String) : String := "\"" ++ String.join (s.toList.map quotedChar) ++ "\""

/-- Parts with commas between them. -/
def separated (parts : List String) : String := String.intercalate ", " parts

/-- A name with parts in parentheses. -/
def tuple (name : String) (parts : List String) : String := name ++ "(" ++ separated parts ++ ")"

/-- Parts in brackets. -/
def list {α : Type} (display : α → String) (items : List α) : String :=
  "[" ++ separated (items.map display) ++ "]"

/-- A value that may be missing. -/
def option {α : Type} (display : α → String) : Option α → String
  | none => "None"
  | some a => tuple "Some" [display a]

/-- Keys and values in braces. -/
def dict {κ α : Type} (showKey : κ → String) (showValue : α → String)
    (entries : List (κ × α)) : String :=
  "\x7b" ++ separated (entries.map fun (k, v) => showKey k ++ ": " ++ showValue v) ++ "\x7d"

/-- A name with named fields. -/
def record (name : String) (fields : List (String × String)) : String :=
  name ++ " \x7b " ++ separated (fields.map fun (k, v) => k ++ ": " ++ v) ++ " \x7d"

/-! ## Errors -/

/-- An error identifier. -/
def errorId (id : ErrorId) : String := tuple "ErrorId" [toString id.val]

/-- A scope identifier. -/
def scopeId (id : ScopeId) : String := tuple "ScopeId" [toString id.val]

/-- Errors by path. -/
def errors (e : ErrorsByPath) : String := dict quoted (list errorId) e.entries

mutual

/-- A JSON value. -/
def json : Json → String
  | .null => "Null"
  | .bool b => tuple "Bool" [toString b]
  | .number n => tuple "Number" [n.text]
  | .string s => tuple "String" [quoted s]
  | .array items => "Array [" ++ separated (jsonItems items) ++ "]"
  | .object fields => "Object \x7b" ++ separated (jsonFields fields) ++ "\x7d"

/-- The elements of a JSON list. -/
def jsonItems : List Json → List String
  | [] => []
  | j :: rest => json j :: jsonItems rest

/-- The fields of a JSON object. -/
def jsonFields : List (String × Json) → List String
  | [] => []
  | (name, j) :: rest => (quoted name ++ ": " ++ json j) :: jsonFields rest

end

/-- An argument of an error. -/
def argument (a : Argument) : String :=
  record "ErrorArg" [("name", quoted a.name), ("value", json a.value.json)]

/-- The definition of an error. -/
def errorDef (e : ErrorDef) : String :=
  record "Error"
    [("codes", list quoted e.codes), ("message", option quoted e.message),
     ("args", list argument e.args)]

/-! ## Scopes -/

variable {M : ModelSpace} {k : M.Kind}

/-- A handle. -/
def handle (h : Handle M k) : String :=
  "ScopeRef<" ++ M.kindName k ++ ">(" ++ h.id.label ++ ")"

/-- The presence of a draft. -/
def draftPresence : DraftPresence → String
  | .optional => "Optional"
  | .required e => tuple "Required" [option errorDef e]
  | .forbidden e => tuple "Forbidden" [option errorDef e]

/-- The draft of a scope. -/
def draft (d : ScopeDraft M k) : String :=
  record "ScopeDefinition"
    [("model", quoted (M.kindName k)), ("steps", toString d.steps.length),
     ("presence", option draftPresence d.presence)]

/-- A presence policy. -/
def policy : PresencePolicy → String
  | .optional => "Optional"
  | .required id => record "Required" [("error_id", errorId id)]
  | .forbidden id => record "Forbidden" [("error_id", errorId id)]

/-- A step. -/
def step : Outline.Step → String
  | .rule error => tuple "Rule" [errorId error]
  | .member name target => record "Member" [("name", quoted name), ("target", scopeId target)]
  | .collection target => record "Collection" [("target", scopeId target)]
  | .inclusion target => tuple "With" [scopeId target]
  | .narrowing target => tuple "As" [scopeId target]

/-- A scope. -/
def scope (s : Scope M k) : String :=
  record "SpecificationScope"
    [("model", quoted (M.kindName k)), ("presence", option policy s.presence),
     ("commands", list step s.outline.steps)]

/-! ## Schemes and validators -/

/-- A scheme. -/
def scheme (s : Scheme M k) : String :=
  record "ModelScheme"
    [("model", quoted (M.kindName k)),
     ("root_scope_id", scopeId s.rootId),
     ("scopes", dict scopeId (fun a => quoted (M.kindName a.kind)) s.scopes.entries),
     ("errors", toString s.catalog.size),
     ("error_map", errors s.survey.errors),
     ("capacity", record "CapacityInfo"
       [("max_depth", toString s.survey.maxDepth),
        ("error_paths", toString s.survey.errorPaths)]),
     ("reference_loop_possible", toString s.recursive)]

/-- Settings. -/
def settings (s : Settings) : String :=
  record "ValidatorSettings"
    [("reference_loop_protection", option (toString ·) s.guardLoops),
     ("default_translation", quoted s.language),
     ("translations", dict quoted (fun w => dict quoted quoted w.entries) s.wordings.entries)]

/-- A validator; the messenger is left out. -/
def validator (v : Validator M k) : String :=
  "Validator \x7b scheme: " ++ scheme v.scheme ++ ", settings: " ++ settings v.settings ++
    ", reference_loop_protection: " ++ toString v.guardLoops ++ ", .. \x7d"

/-- An outcome. -/
def outcome (o : Outcome) : String :=
  record "ValidationResult"
    [("errors", errors o.errors), ("has_message_service", toString o.source.isSome)]

end Rulebook.Inspect
