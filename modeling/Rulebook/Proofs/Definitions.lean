import Rulebook.Error.Definition
import Rulebook.Proofs.Rereading

/-!
# Definitions that are written and read back

Writing leaves out the parts of a definition that are empty, and reading takes a part that is left
out as empty.  The two rules meet in `record?_literal`, which says what a reader finds in the
place of each part; from there on each part is read by itself.

A message of no characters is not an empty part: it is written, and read back as a message.
`null` in the place of a message would be read as no message, but no definition is written so.

A definition is nested three levels deeper than the deepest value of its arguments, so a value
that could be read by itself may be too deep for a definition.  `read?_text_eq` says that nothing
else is lost.
-/

namespace Rulebook.ErrorDef

open Json (Literal)

variable {e : ErrorDef}

/-! ## The parts of a definition -/

/-- The codes as they are written, unless there are none. -/
def codesPart (e : ErrorDef) : Option Json :=
  if e.codes.isEmpty then none else some (.array (e.codes.map .string))

/-- The message as it is written, unless there is none. -/
def messagePart (e : ErrorDef) : Option Json := e.message.map .string

/-- The arguments as they are written, unless there are none. -/
def argsPart (e : ErrorDef) : Option Json :=
  if e.args.isEmpty then none else some (.array (e.args.map argumentJson))

/-- The field of a part, unless the part is left out. -/
def field (name : String) (part : Option Json) : List (String × Json) := part.toList.map (name, ·)

theorem json_eq (e : ErrorDef) :
    e.json = .object
      (field "codes" e.codesPart ++
        field "message" e.messagePart ++ field "args" e.argsPart) := by
  rw [json, codesPart, messagePart, argsPart]
  cases e.message <;> split <;> split <;> rfl

theorem forall_mem_field {name : String} {part : Option Json} {p : Json → Prop} :
    (∀ f ∈ field name part, p f.2) ↔ ∀ j ∈ part, p j := by
  simp [field]

theorem forall_mem_codesPart {p : Json → Prop} (h : p (.array (e.codes.map .string))) :
    ∀ j ∈ e.codesPart, p j := by
  unfold codesPart
  split <;> simp [h]

theorem forall_mem_argsPart {p : Json → Prop} (h : p (.array (e.args.map argumentJson))) :
    ∀ j ∈ e.argsPart, p j := by
  unfold argsPart
  split <;> simp [h]

/-- A reader finds each part in its place, and nothing in the place of a part that is left out. -/
theorem record?_literal (e : ErrorDef) :
    e.json.literal.record? ["codes", "message", "args"] =
      some [e.codesPart.map Json.literal, e.messagePart.map Json.literal,
        e.argsPart.map Json.literal] := by
  rw [json_eq]
  cases e.codesPart <;> cases e.messagePart <;> cases e.argsPart <;> rfl

/-! ## Numbers and nesting -/

theorem isWhole_argumentJson {a : Argument} (h : a.value.json.IsWhole) :
    (argumentJson a).IsWhole := by
  refine .object ?_
  simp only [List.forall_mem_cons, List.not_mem_nil, false_implies, implies_true, and_true]
  exact ⟨.string a.name, h⟩

theorem isWhole_json (h : ∀ a ∈ e.args, a.value.json.IsWhole) : e.json.IsWhole := by
  rw [json_eq]
  refine .object ?_
  simp only [List.forall_mem_append, forall_mem_field]
  refine ⟨⟨forall_mem_codesPart (.array ?_), ?_⟩, forall_mem_argsPart (.array ?_)⟩
  · exact List.forall_mem_map.2 fun code _ => .string code
  · simp [messagePart, Json.IsWhole.string]
  · exact List.forall_mem_map.2 fun a ha => isWhole_argumentJson (h a ha)

theorem depth_argumentJson_le_iff {a : Argument} {d : Nat} :
    (argumentJson a).depth ≤ d + 1 ↔ a.value.json.depth ≤ d := by
  rw [argumentJson, Json.depth, Nat.succ_le_succ_iff, Json.fieldsDepth_le_iff]
  simp [Json.depth]

/-- A definition is nested three levels deeper than its values. -/
theorem depth_json_le_iff {d : Nat} :
    e.json.depth ≤ d + 3 ↔ ∀ a ∈ e.args, a.value.json.depth ≤ d := by
  have hargs : (Json.array (e.args.map argumentJson)).depth ≤ d + 2 ↔
      ∀ a ∈ e.args, a.value.json.depth ≤ d := by
    rw [Json.depth, Nat.succ_le_succ_iff, Json.itemsDepth_le_iff, List.forall_mem_map]
    simp only [depth_argumentJson_le_iff]
  have hcodes : (Json.array (e.codes.map .string)).depth ≤ d + 2 := by
    rw [Json.depth, Nat.succ_le_succ_iff, Json.itemsDepth_le_iff, List.forall_mem_map]
    simp [Json.depth]
  let fits (j : Json) : Prop := j.depth ≤ d + 2
  have hmessage : ∀ j ∈ e.messagePart, fits j := by simp [messagePart, fits, Json.depth]
  have hfield (name : String) (part : Option Json) :
      (∀ f ∈ field name part, f.2.depth ≤ d + 2) ↔ ∀ j ∈ part, fits j :=
    forall_mem_field (p := fits)
  rw [json_eq, Json.depth, Nat.succ_le_succ_iff, Json.fieldsDepth_le_iff]
  simp only [List.forall_mem_append, hfield]
  constructor
  · rintro ⟨_, h⟩
    by_cases hempty : e.args.isEmpty
    · simp_all
    · exact hargs.1 (h _ (by simp [argsPart, hempty]))
  · intro h
    exact ⟨⟨forall_mem_codesPart hcodes, hmessage⟩, forall_mem_argsPart (hargs.2 h)⟩

/-! ## Each part by itself -/

/-- A list whose elements are read back, unless they are too much, is read back unless one is. -/
theorem mapM_map_eq_ite {α β : Type} {write : α → β} {read : β → Option α} {fits : α → Prop}
    [DecidablePred fits] {l : List α}
    (h : ∀ a ∈ l, read (write a) = if fits a then some a else none) :
    (l.map write).mapM read = if ∀ a ∈ l, fits a then some l else none := by
  induction l with
  | nil => simp
  | cons a rest ih =>
    rw [List.forall_mem_cons] at h
    rw [List.map_cons, List.mapM_cons, h.1, ih h.2]
    simp only [List.forall_mem_cons]
    by_cases ha : fits a
    · by_cases hrest : ∀ b ∈ rest, fits b
      · rw [if_pos ha, if_pos hrest, if_pos ⟨ha, hrest⟩]
        rfl
      · rw [if_pos ha, if_neg hrest, if_neg (mt And.right hrest)]
        rfl
    · rw [if_neg ha, if_neg (mt And.left ha)]
      rfl

theorem codes_read (e : ErrorDef) :
    ((e.codesPart.map Json.literal).map ofCodesLiteral?).getD (some []) = some e.codes := by
  have hcodes : ofCodesLiteral? (Json.array (e.codes.map .string)).literal = some e.codes := by
    have hcode : ∀ code ∈ e.codes, Literal.text? (Json.string code).literal =
        if True then some code else none := fun code _ => rfl
    rw [Json.literal, Json.itemLiterals_eq_map, List.map_map, ofCodesLiteral?, Literal.listOf?]
    exact (mapM_map_eq_ite hcode).trans (if_pos fun _ _ => trivial)
  unfold codesPart
  split
  · rename_i hempty
    simp_all
  · exact hcodes

theorem message_read (e : ErrorDef) :
    ((e.messagePart.map Json.literal).map (Literal.nullable? Literal.text?)).getD (some none) =
      some e.message := by
  unfold messagePart
  cases e.message <;> rfl

theorem ofArgumentLiteral?_literal (a : Argument) (d : Nat) :
    ofArgumentLiteral? d (argumentJson a).literal =
      if a.value.json.depth ≤ d then some a else none := by
  show (a.value.json.literal.value? d).bind _ = _
  rw [Literal.value?_literal]
  split <;> rfl

theorem args_read (e : ErrorDef) (d : Nat) :
    ((e.argsPart.map Json.literal).map (Literal.listOf? (ofArgumentLiteral? d))).getD (some []) =
      if ∀ a ∈ e.args, a.value.json.depth ≤ d then some e.args else none := by
  have hargs : Literal.listOf? (ofArgumentLiteral? d)
      (Json.array (e.args.map argumentJson)).literal =
      if ∀ a ∈ e.args, a.value.json.depth ≤ d then some e.args else none := by
    rw [Json.literal, Json.itemLiterals_eq_map, List.map_map, Literal.listOf?]
    exact mapM_map_eq_ite fun a _ => ofArgumentLiteral?_literal a d
  unfold argsPart
  split
  · rename_i hempty
    simp_all
  · exact hargs

/-! ## A definition as a whole -/

theorem ofLiteral?_literal (e : ErrorDef) (d : Nat) :
    ofLiteral? d e.json.literal =
      if ∀ a ∈ e.args, a.value.json.depth ≤ d then some e else none := by
  rw [ofLiteral?, record?_literal]
  simp only [Option.bind_eq_bind, Option.bind_some, codes_read, message_read, args_read]
  split <;> rfl

/-- A definition whose values hold no doubles is read back as it was written, unless it is nested
too deep to be read at all. -/
theorem read?_text_eq (e : ErrorDef) (hwhole : ∀ a ∈ e.args, a.value.json.IsWhole) :
    ErrorDef.read? e.text = if e.json.depth ≤ Literal.depthLimit then some e else none := by
  have hliteral : Literal.read? e.text = some e.json.literal :=
    Literal.read?_text (isWhole_json hwhole)
  rw [ErrorDef.read?, hliteral]
  show ofLiteral? 124 e.json.literal = _
  rw [ofLiteral?_literal]
  exact if_congr depth_json_le_iff.symm rfl rfl

/-- A definition with an empty message, a repeated code and a repeated name.  Its values are
nested, hold the least and the greatest number, and names and texts that have to be escaped; the
fields of the last one are given out of order. -/
def crowded : ErrorDef where
  codes := ["broken", "broken", ""]
  message := some ""
  args :=
    [⟨"n", .null⟩,
      ⟨"n", .array [.number (.whole (-9223372036854775808)),
        .number (.whole 18446744073709551615), .array [.bool true]]⟩,
      ⟨"\x01\"\\", Json.object
        [("😀", .string "\t/\x7f"), ("", .string "a\n\x1f"), ("é", .object [])]⟩]

theorem read?_text_crowded :
    (∀ a ∈ crowded.args, a.value.json.IsWhole) ∧
      ErrorDef.read? crowded.text = some crowded := by
  have hwhole : ∀ a ∈ crowded.args, a.value.json.IsWhole := by
    simp only [crowded, List.forall_mem_cons, List.not_mem_nil, false_implies, implies_true,
      and_true]
    have hnumbers : ∀ j ∈ [Json.number (.whole (-9223372036854775808)),
        .number (.whole 18446744073709551615), .array [.bool true]], j.IsWhole := by
      simp only [List.forall_mem_cons, List.not_mem_nil, false_implies, implies_true, and_true]
      exact ⟨.number (by decide) (by decide), .number (by decide) (by decide),
        .array (List.forall_mem_singleton.2 (.bool true))⟩
    have htexts : ∀ f ∈ [("", Json.string "a\n\x1f"), ("é", .object []),
        ("😀", .string "\t/\x7f")], f.2.IsWhole := by
      simp only [List.forall_mem_cons, List.not_mem_nil, false_implies, implies_true, and_true]
      exact ⟨.string _, .object (List.forall_mem_nil _), .string _⟩
    exact ⟨.null, .array hnumbers, .object htexts⟩
  exact ⟨hwhole, (read?_text_eq crowded hwhole).trans (if_pos (by decide))⟩

end Rulebook.ErrorDef
