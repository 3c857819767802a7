import Mathlib.Data.List.TakeWhile
import Rulebook.Proofs.Segments

/-!
# Shapes of any text

`Path.shape` and `Path.fillIndexes` take any text, also one that is no path: brackets may be
stray, nested or left open.  `Reads` says how both go through a text from left to right.  An
opening bracket begins a bracketed index, or a placeholder, or it stands alone, and there is no
fourth case.  So each of the functions here has one equation for each case, and all of their laws
are inductions on `Reads`.

What makes the two work together is that neither of them touches the text before the next opening
bracket (`KeepsFront.prefix_iff`).  A bracket that stands alone stays alone, whatever is replaced
behind it.
-/

namespace Rulebook.Path

/-! ## Reading a text from left to right -/

/-- What the brackets of an index or of a placeholder hold. -/
inductive IsInner : List Char → Prop where
  | run {l : List Char} (h : IsRun l) : IsInner l
  | placeholder : IsInner ['#']

/-- An opening bracket in front of this text begins neither an index nor a placeholder. -/
def Lone (rest : List Char) : Prop := ∀ l, IsInner l → ¬l ++ [']'] <+: rest

/-- A text, read from left to right. -/
inductive Reads : List Char → Prop where
  | nil : Reads []
  /-- A character that is no opening bracket. -/
  | plain {c : Char} {rest : List Char} (hc : c ≠ '[') (h : Reads rest) : Reads (c :: rest)
  /-- A bracketed index. -/
  | index {run rest : List Char} (hrun : IsRun run) (h : Reads rest) :
    Reads ('[' :: (run ++ ']' :: rest))
  /-- A placeholder. -/
  | placeholder {rest : List Char} (h : Reads rest) : Reads ('[' :: '#' :: ']' :: rest)
  /-- An opening bracket that stands alone. -/
  | lone {rest : List Char} (hlone : Lone rest) (h : Reads rest) : Reads ('[' :: rest)

/-- Every text can be read. -/
theorem reads (chars : List Char) : Reads chars := by
  induction hlength : chars.length using Nat.strongRecOn generalizing chars with
  | _ n ih =>
    subst hlength
    cases chars with
    | nil => exact .nil
    | cons c rest =>
      have hrest := ih rest.length (Nat.lt_succ_self _) rest rfl
      by_cases hc : c = '['
      · subst hc
        by_cases hlone : Lone rest
        · exact .lone hlone hrest
        · simp only [Lone, not_forall, not_not] at hlone
          obtain ⟨l, hinner, behind, rfl⟩ := hlone
          rw [List.append_assoc, List.singleton_append] at ih ⊢
          have hbehind := ih behind.length (by simp; omega) behind rfl
          cases hinner with
          | run hrun => exact .index hrun hbehind
          | placeholder => exact .placeholder hbehind
      · exact .plain hc hrest

theorem IsInner.ne_of_mem {l : List Char} (h : IsInner l) {c : Char} (hc : c ∈ l ++ [']']) :
    c ≠ '[' ∧ c ≠ '.' := by
  rcases List.mem_append.1 hc with hc | hc
  · cases h with
    | run hrun =>
      have hdigit := hrun.2 c hc
      constructor <;> (rintro rfl; exact absurd hdigit (by decide))
    | placeholder =>
      obtain rfl := List.mem_singleton.1 hc
      decide
  · obtain rfl := List.mem_singleton.1 hc
    decide

/-- A bracket that stands alone does so where the text goes on with a point or a bracket. -/
theorem Lone.append {rest more : List Char} (h : Lone rest) (hmore : Separated more) :
    Lone (rest ++ more) := by
  intro l hinner hl
  rcases List.prefix_or_prefix_of_prefix hl (List.prefix_append rest more) with hl' | ⟨t, ht⟩
  · exact h l hinner hl'
  · cases t with
    | nil =>
      rw [List.append_nil] at ht
      exact h l hinner (ht ▸ List.prefix_rfl)
    | cons c t =>
      rw [← ht, List.prefix_append_right_inj] at hl
      obtain ⟨_, rfl⟩ := hl
      have hc := hinner.ne_of_mem (ht ▸ List.mem_append_right rest List.mem_cons_self)
      rcases hmore c rfl with rfl | rfl
      · exact hc.2 rfl
      · exact hc.1 rfl

/-- A function that changes nothing before the first opening bracket, nor the bracket. -/
structure KeepsFront (f : List Char → List Char) : Prop where
  nil : f [] = []
  plain : ∀ {c : Char} (_ : c ≠ '[') (rest : List Char), f (c :: rest) = c :: f rest
  bracket : ∀ rest : List Char, ∃ more, f ('[' :: rest) = '[' :: more

namespace KeepsFront

variable {f : List Char → List Char}

theorem prefix_iff (h : KeepsFront f) {l : List Char} (hl : '[' ∉ l) (chars : List Char) :
    l <+: f chars ↔ l <+: chars := by
  induction chars generalizing l with
  | nil => rw [h.nil]
  | cons c rest ih =>
    cases l with
    | nil => exact iff_of_true List.nil_prefix List.nil_prefix
    | cons d l =>
      rw [List.mem_cons, not_or] at hl
      by_cases hc : c = '['
      · obtain ⟨more, hmore⟩ := h.bracket rest
        rw [hc, hmore, List.cons_prefix_cons, List.cons_prefix_cons]
        exact iff_of_false (fun hd => hl.1 hd.1.symm) (fun hd => hl.1 hd.1.symm)
      · rw [h.plain hc, List.cons_prefix_cons, List.cons_prefix_cons, ih hl.2]

/-- Brackets that stand alone stay alone. -/
theorem lone (h : KeepsFront f) {rest : List Char} (hrest : Lone rest) : Lone (f rest) :=
  fun l hinner hl =>
    hrest l hinner ((h.prefix_iff (fun hmem => (hinner.ne_of_mem hmem).1 rfl) rest).1 hl)

end KeepsFront

/-! ## Shapes -/

theorem afterIndex?_of_lone {rest : List Char} (h : Lone rest) : afterIndex? rest = none := by
  rw [afterIndex?]
  split
  · rename_i d ds behind htake hdrop
    have hrest : d :: ds ++ ']' :: behind = rest := by
      rw [← htake, ← hdrop, List.takeWhile_append_dropWhile]
    have hinner : IsInner (d :: ds) := by
      refine .run ⟨List.cons_ne_nil d ds, fun c hc => ?_⟩
      rw [← htake] at hc
      exact List.mem_takeWhile_imp hc
    refine absurd ⟨behind, ?_⟩ (h _ hinner)
    rw [List.append_assoc]
    exact hrest
  · rfl

/-- The shape of a list of characters. -/
def shapeChars (chars : List Char) : List Char := chars.foldr consShape []

theorem toList_shape (path : String) : (shape path).toList = shapeChars path.toList :=
  String.toList_ofList

theorem keepsFront_shapeChars : KeepsFront shapeChars where
  nil := rfl
  plain hc _ := if_neg hc
  bracket rest := by
    rw [shapeChars, List.foldr_cons, consShape, if_pos rfl]
    split
    · exact ⟨_, rfl⟩
    · exact ⟨_, rfl⟩

theorem shapeChars_index {run : List Char} (h : IsRun run) (rest : List Char) :
    shapeChars ('[' :: (run ++ ']' :: rest)) = '[' :: '#' :: ']' :: shapeChars rest :=
  foldr_consShape_index h rest

theorem shapeChars_lone {rest : List Char} (h : Lone rest) :
    shapeChars ('[' :: rest) = '[' :: shapeChars rest := by
  rw [shapeChars, List.foldr_cons, ← shapeChars, consShape, if_pos rfl,
    afterIndex?_of_lone (keepsFront_shapeChars.lone h)]

theorem shapeChars_placeholder (rest : List Char) :
    shapeChars ('[' :: '#' :: ']' :: rest) = '[' :: '#' :: ']' :: shapeChars rest := rfl

/-- A shape is its own shape. -/
theorem shapeChars_shapeChars (chars : List Char) :
    shapeChars (shapeChars chars) = shapeChars chars := by
  induction reads chars with
  | nil => rfl
  | plain hc h ih => rw [keepsFront_shapeChars.plain hc, keepsFront_shapeChars.plain hc, ih]
  | index hrun h ih => rw [shapeChars_index hrun, shapeChars_placeholder, ih]
  | placeholder h ih => rw [shapeChars_placeholder, shapeChars_placeholder, ih]
  | lone hlone h ih =>
    rw [shapeChars_lone hlone, shapeChars_lone (keepsFront_shapeChars.lone hlone), ih]

/-- The shape of two texts is that of each, where the second begins with what separates
segments. -/
theorem shapeChars_separated {more : List Char} (hmore : Separated more) (chars : List Char) :
    shapeChars (chars ++ more) = shapeChars chars ++ shapeChars more := by
  induction reads chars with
  | nil => rfl
  | plain hc h ih =>
    rw [List.cons_append, keepsFront_shapeChars.plain hc, keepsFront_shapeChars.plain hc, ih]
    rfl
  | index hrun h ih =>
    rw [List.cons_append, List.append_assoc, List.cons_append, shapeChars_index hrun,
      shapeChars_index hrun, ih]
    rfl
  | placeholder h ih =>
    rw [List.cons_append, List.cons_append, List.cons_append, shapeChars_placeholder,
      shapeChars_placeholder, ih]
    rfl
  | lone hlone h ih =>
    rw [List.cons_append, shapeChars_lone hlone, shapeChars_lone (hlone.append hmore), ih]
    rfl

/-! ## Filling in indexes -/

theorem Lone.not_placeholder {rest : List Char} (h : Lone rest) : ¬['#', ']'] <+: rest :=
  h ['#'] .placeholder

theorem IsRun.not_placeholder {run : List Char} (h : IsRun run) (rest : List Char) :
    ¬['#', ']'] <+: run ++ rest := by
  obtain ⟨hne, hdigits⟩ := h
  cases run with
  | nil => exact absurd rfl hne
  | cons c t =>
    rw [List.cons_append, List.cons_prefix_cons]
    rintro ⟨rfl, _⟩
    exact absurd (hdigits _ List.mem_cons_self) (by decide)

/-- A bracket that begins no placeholder stays as it is. -/
theorem fillChars_bracket {rest : List Char} (h : ¬['#', ']'] <+: rest) (indexes : List Nat) :
    fillChars ('[' :: rest) indexes = '[' :: fillChars rest indexes := by
  rw [fillChars]
  rintro behind _ _ _ _ rfl
  exact h ⟨behind, rfl⟩

theorem fillChars_placeholder (rest : List Char) (i : Nat) (indexes : List Nat) :
    fillChars ('[' :: '#' :: ']' :: rest) (i :: indexes) =
      '[' :: (Nat.toDigits 10 i ++ ']' :: fillChars rest indexes) := by
  simp [fillChars, toList_indexSegment]

theorem fillChars_index {run : List Char} (h : IsRun run) (rest : List Char)
    (indexes : List Nat) :
    fillChars ('[' :: (run ++ ']' :: rest)) indexes =
      '[' :: (run ++ ']' :: fillChars rest indexes) := by
  rw [fillChars_bracket (h.not_placeholder _), List.append_cons,
    fillChars_append h.bracket_notMem, ← List.append_cons]

theorem keepsFront_fillChars (indexes : List Nat) :
    KeepsFront fun chars => fillChars chars indexes where
  nil := by rw [fillChars]
  plain {c} hc rest := by
    have hc' : '[' ∉ [c] := fun hmem => hc (List.mem_singleton.1 hmem).symm
    exact fillChars_append hc' rest indexes
  bracket rest := by
    by_cases h : ['#', ']'] <+: rest
    · obtain ⟨behind, rfl⟩ := h
      cases indexes with
      | nil => exact ⟨_, fillChars_nil _⟩
      | cons i indexes => exact ⟨_, fillChars_placeholder behind i indexes⟩
    · exact ⟨_, fillChars_bracket h indexes⟩

/-- Filling in indexes leaves the shape as it is. -/
theorem shapeChars_fillChars (chars : List Char) (indexes : List Nat) :
    shapeChars (fillChars chars indexes) = shapeChars chars := by
  induction reads chars generalizing indexes with
  | nil => rw [fillChars]
  | plain hc h ih =>
    rw [(keepsFront_fillChars indexes).plain hc, keepsFront_shapeChars.plain hc,
      keepsFront_shapeChars.plain hc, ih]
  | index hrun h ih =>
    rw [fillChars_index hrun, shapeChars_index hrun, shapeChars_index hrun, ih]
  | placeholder h ih =>
    cases indexes with
    | nil => rw [fillChars_nil]
    | cons i indexes =>
      rw [fillChars_placeholder, shapeChars_placeholder, shapeChars_index (isRun_toDigits i), ih]
  | lone hlone h ih =>
    rw [fillChars_bracket hlone.not_placeholder, shapeChars_lone hlone,
      shapeChars_lone ((keepsFront_fillChars indexes).lone hlone), ih]

/-! ## Placeholders -/

/-- The placeholder stands somewhere in the path. -/
def HasPlaceholder (path : String) : Prop := anyIndex.toList <:+: path.toList

theorem placeholdersIn_bracket {rest : List Char} (h : ¬['#', ']'] <+: rest) :
    placeholdersIn ('[' :: rest) = placeholdersIn rest := by
  rw [placeholdersIn]
  rintro behind _ rfl
  exact h ⟨behind, rfl⟩

theorem placeholdersIn_plain {c : Char} (hc : c ≠ '[') (rest : List Char) :
    placeholdersIn (c :: rest) = placeholdersIn rest := by
  have hc' : '[' ∉ [c] := fun hmem => hc (List.mem_singleton.1 hmem).symm
  exact placeholdersIn_append hc' rest

theorem placeholdersIn_index {run : List Char} (h : IsRun run) (rest : List Char) :
    placeholdersIn ('[' :: (run ++ ']' :: rest)) = placeholdersIn rest := by
  rw [placeholdersIn_bracket (h.not_placeholder _), List.append_cons,
    placeholdersIn_append h.bracket_notMem]

theorem placeholdersIn_eq_zero_iff (chars : List Char) :
    placeholdersIn chars = 0 ↔ ¬['[', '#', ']'] <:+: chars := by
  induction chars with
  | nil => simp [placeholdersIn]
  | cons c rest ih =>
    rw [List.infix_cons_iff, not_or, ← ih, List.cons_prefix_cons]
    by_cases hopen : c = '[' ∧ ['#', ']'] <+: rest
    · obtain ⟨rfl, behind, rfl⟩ := hopen
      simp [placeholdersIn]
    · have hskip : placeholdersIn (c :: rest) = placeholdersIn rest := by
        by_cases hc : c = '['
        · subst hc
          exact placeholdersIn_bracket fun h => hopen ⟨rfl, h⟩
        · exact placeholdersIn_plain hc rest
      rw [hskip]
      exact (and_iff_right fun h => hopen ⟨h.1.symm, h.2⟩).symm

theorem hasPlaceholder_iff (path : String) : HasPlaceholder path ↔ placeholders path ≠ 0 := by
  rw [placeholders, ne_eq, placeholdersIn_eq_zero_iff, not_not]
  rfl

/-- Each index takes one placeholder, as long as there are any. -/
theorem placeholdersIn_fillChars (chars : List Char) (indexes : List Nat) :
    placeholdersIn (fillChars chars indexes) = placeholdersIn chars - indexes.length := by
  induction reads chars generalizing indexes with
  | nil => rw [fillChars, placeholdersIn, Nat.zero_sub]
  | plain hc h ih =>
    rw [(keepsFront_fillChars indexes).plain hc, placeholdersIn_plain hc, placeholdersIn_plain hc,
      ih]
  | index hrun h ih =>
    rw [fillChars_index hrun, placeholdersIn_index hrun, placeholdersIn_index hrun, ih]
  | placeholder h ih =>
    cases indexes with
    | nil => rw [fillChars_nil, List.length_nil, Nat.sub_zero]
    | cons i indexes =>
      rw [fillChars_placeholder, placeholdersIn_index (isRun_toDigits i), ih, placeholdersIn,
        List.length_cons, Nat.add_sub_add_right]
  | lone hlone h ih =>
    have hfill := ((keepsFront_fillChars indexes).lone hlone).not_placeholder
    rw [fillChars_bracket hlone.not_placeholder, placeholdersIn_bracket hfill,
      placeholdersIn_bracket hlone.not_placeholder, ih]

/-! ## The indexes of a path -/

/-- The runs of digits in brackets, from left to right. -/
def runsIn : List Char → List (List Char)
  | [] => []
  | c :: rest =>
    if c = '[' ∧ (afterIndex? rest).isSome then rest.takeWhile Char.isDigit :: runsIn rest
    else runsIn rest

/-- The bracketed numbers of a path as they are written, from left to right. -/
def numerals (path : String) : List String := (runsIn path.toList).map String.ofList

theorem runsIn_plain {c : Char} (hc : c ≠ '[') (rest : List Char) :
    runsIn (c :: rest) = runsIn rest :=
  if_neg fun h => hc h.1

theorem runsIn_append {l : List Char} (hl : '[' ∉ l) (rest : List Char) :
    runsIn (l ++ rest) = runsIn rest := by
  induction l with
  | nil => rfl
  | cons c t ih =>
    rw [List.mem_cons, not_or] at hl
    rw [List.cons_append, runsIn_plain (Ne.symm hl.1), ih hl.2]

theorem runsIn_index {run : List Char} (h : IsRun run) (rest : List Char) :
    runsIn ('[' :: (run ++ ']' :: rest)) = run :: runsIn rest := by
  have htake : (run ++ ']' :: rest).takeWhile Char.isDigit = run := by
    rw [List.takeWhile_append_of_pos h.2]
    simp
  rw [runsIn, afterIndex?_run h, if_pos ⟨rfl, rfl⟩, htake, List.append_cons,
    runsIn_append h.bracket_notMem]

theorem runsIn_lone {rest : List Char} (h : Lone rest) : runsIn ('[' :: rest) = runsIn rest := by
  rw [runsIn, afterIndex?_of_lone h]
  exact if_neg fun hsome => Bool.false_ne_true hsome.2

/-- Filling the indexes of a text into its shape gives the text, if it has no placeholder itself
and its indexes are written as indexes are. -/
theorem fillChars_shapeChars {chars : List Char} {indexes : List Nat}
    (hnone : placeholdersIn chars = 0) (hruns : runsIn chars = indexes.map (Nat.toDigits 10)) :
    fillChars (shapeChars chars) indexes = chars := by
  induction reads chars generalizing indexes with
  | nil => exact (keepsFront_fillChars indexes).nil
  | plain hc h ih =>
    rw [placeholdersIn_plain hc] at hnone
    rw [runsIn_plain hc] at hruns
    rw [keepsFront_shapeChars.plain hc, (keepsFront_fillChars indexes).plain hc, ih hnone hruns]
  | index hrun h ih =>
    rw [placeholdersIn_index hrun] at hnone
    rw [runsIn_index hrun] at hruns
    cases indexes with
    | nil => exact nomatch hruns
    | cons i indexes =>
      obtain ⟨rfl, hrest⟩ := List.cons.inj hruns
      rw [shapeChars_index hrun, fillChars_placeholder, ih hnone hrest]
  | placeholder h ih => exact absurd hnone (Nat.succ_ne_zero _)
  | lone hlone h ih =>
    rw [placeholdersIn_bracket hlone.not_placeholder] at hnone
    rw [runsIn_lone hlone] at hruns
    rw [shapeChars_lone hlone,
      fillChars_bracket (keepsFront_shapeChars.lone hlone).not_placeholder, ih hnone hruns]

theorem runsIn_of_numerals {path : String} {indexes : List Nat}
    (h : numerals path = indexes.map toString) :
    runsIn path.toList = indexes.map (Nat.toDigits 10) := by
  have hchars := congrArg (List.map String.toList) h
  rw [numerals, List.map_map, List.map_map] at hchars
  have hread : String.toList ∘ String.ofList = id := funext fun _ => String.toList_ofList
  have hwrite : String.toList ∘ (toString : Nat → String) = Nat.toDigits 10 :=
    funext fun i => Nat.toList_repr
  rwa [hread, List.map_id, hwrite] at hchars

/-! ## Joins -/

theorem separated_behind (chars : List Char) : Separated (behind chars) := by
  intro c hc
  cases chars with
  | nil => exact nomatch hc
  | cons d rest =>
    rw [behind] at hc
    split at hc
    · rename_i hd
      obtain rfl := Option.some.inj hc
      exact .inr hd
    · obtain rfl := Option.some.inj hc
      exact .inl rfl

/-- A text is written behind a path as its shape is. -/
theorem shapeChars_behind (chars : List Char) :
    shapeChars (behind chars) = behind (shapeChars chars) := by
  cases chars with
  | nil => rfl
  | cons c rest =>
    by_cases hc : c = '['
    · subst hc
      obtain ⟨more, hmore⟩ := keepsFront_shapeChars.bracket rest
      rw [behind, if_pos rfl, hmore, behind, if_pos rfl]
    · have hpoint : '.' ≠ '[' := by decide
      rw [behind, if_neg hc, keepsFront_shapeChars.plain hpoint, keepsFront_shapeChars.plain hc,
        behind, if_neg hc]

theorem shape_ne_empty {path : String} (h : path ≠ "") : shape path ≠ "" := by
  rw [ne_eq, ← String.toList_eq_nil_iff] at h ⊢
  rw [toList_shape]
  cases hchars : path.toList with
  | nil => exact absurd hchars h
  | cons c rest =>
    by_cases hc : c = '['
    · subst hc
      obtain ⟨more, hmore⟩ := keepsFront_shapeChars.bracket rest
      rw [hmore]
      exact List.cons_ne_nil _ _
    · rw [keepsFront_shapeChars.plain hc]
      exact List.cons_ne_nil _ _

theorem shape_join (a b : String) : shape (join a b) = join (shape a) (shape b) := by
  by_cases ha : a = ""
  · subst ha
    rw [empty_join]
    exact (empty_join (shape b)).symm
  · rw [← String.toList_inj, toList_shape, toList_join ha, toList_join (shape_ne_empty ha),
      shapeChars_separated (separated_behind _), shapeChars_behind, toList_shape, toList_shape]

/-! ## Whole paths -/

/-- Laying paths behind each other is associative with the root as its neutral element, and taking
shapes goes along with it, whatever the texts are. -/
theorem joins_form_monoid :
    (∀ a b c : String, join (join a b) c = join a (join b c)) ∧
    (∀ a : String, join "" a = a ∧ join a "" = a) ∧
    ∀ a b : String, shape (join a b) = join (shape a) (shape b) :=
  ⟨join_assoc, fun a => ⟨empty_join a, join_empty a⟩, shape_join⟩

/-- Taking shapes and filling in indexes undo each other, on paths as well as on any other text.
The shape of a text is the same with any indexes filled in, and is its own shape; enough indexes
leave no placeholder; and a text without a placeholder, whose bracketed numbers are written as
indexes are, comes back from its shape with these numbers, however great they are. -/
theorem shapes_undo_indexes :
    (∀ (path : String) (indexes : List Nat), shape (fillIndexes path indexes) = shape path) ∧
    (∀ path : String, shape (shape path) = shape path) ∧
    (∀ (path : String) (indexes : List Nat), placeholders path ≤ indexes.length →
      ¬HasPlaceholder (fillIndexes path indexes)) ∧
    ∀ (path : String) (indexes : List Nat), ¬HasPlaceholder path →
      numerals path = indexes.map toString → fillIndexes (shape path) indexes = path := by
  have hfill (path : String) (indexes : List Nat) :
      (fillIndexes path indexes).toList = fillChars path.toList indexes := String.toList_ofList
  refine ⟨fun path indexes => ?_, fun path => ?_, fun path indexes hle => ?_,
    fun path indexes hnone hnumerals => ?_⟩
  · rw [← String.toList_inj, toList_shape, toList_shape, hfill, shapeChars_fillChars]
  · rw [← String.toList_inj, toList_shape, toList_shape, shapeChars_shapeChars]
  · rw [hasPlaceholder_iff, not_not, placeholders, hfill, placeholdersIn_fillChars]
    exact Nat.sub_eq_zero_of_le hle
  · rw [hasPlaceholder_iff, not_not] at hnone
    rw [← String.toList_inj, hfill, toList_shape,
      fillChars_shapeChars hnone (runsIn_of_numerals hnumerals)]

/-- Brackets inside brackets, and one that is never closed. -/
theorem shapes_undo_indexes_nested :
    (placeholders "a[[#]]b[#" ≤ [7, 8].length ∧
      ¬HasPlaceholder (fillIndexes "a[[#]]b[#" [7, 8])) ∧
    ¬HasPlaceholder "[12[3]].x[07[40]" ∧ numerals "[12[3]].x[07[40]" = [3, 40].map toString ∧
      shape "[12[3]].x[07[40]" = "[12[#]].x[07[#]" ∧
      fillIndexes (shape "[12[3]].x[07[40]") [3, 40] = "[12[3]].x[07[40]" := by
  obtain ⟨_, _, hfilled, hback⟩ := shapes_undo_indexes
  have hroom : placeholders "a[[#]]b[#" ≤ [7, 8].length := by decide
  have hnone : ¬HasPlaceholder "[12[3]].x[07[40]" := by
    rw [hasPlaceholder_iff]
    decide
  have hnumerals : numerals "[12[3]].x[07[40]" = [3, 40].map toString := by decide
  exact ⟨⟨hroom, hfilled _ _ hroom⟩, hnone, hnumerals, by decide, hback _ _ hnone hnumerals⟩

end Rulebook.Path
