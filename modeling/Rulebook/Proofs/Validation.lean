import Rulebook.Document.Test
import Rulebook.Proofs.Report
import Rulebook.Proofs.WalkEvaluation

/-!
# Validation is evaluation

A walk of a compiled scheme looks up joins in a table, keeps shapes and indexes apart, and raises
and lowers flags.  An evaluation does none of that, and `validate_eq_answer` says that they answer
the same: the events of the evaluation, path by path.  With `failFast` a walk answers what the
evaluation finds first.
-/

namespace Rulebook

/-- What a verdict amounts to: the events grouped by path, if the evaluation has an end. -/
def Verdict.answer (r : Verdict String) : Option ErrorsByPath :=
  if r.ending = .outOfDepth then none else some (ErrorsByPath.group r.events)

namespace Scheme

variable {M : ModelSpace} {k : M.Kind} {s : Scheme M k}

/-- A walk of a compiled scheme resolves paths as they are joined. -/
theorem IsCompiled.resolve_eq (hs : s.IsCompiled) (base relative : String) :
    s.survey.paths.resolve base relative = Path.join base relative :=
  (Survey.paths_of_ofOutlines hs.surveyed).resolve_eq base relative

theorem evaluate_of_compile {table : ScopeTable M} {rootId : ScopeId} {catalog : Catalog}
    (h : compile table k rootId catalog = .ok s) (guard : Bool) (depth : Nat)
    (model : Option (M.Value k)) :
    s.evaluate guard depth model =
      Evaluation.eval Path.below table guard depth [] .entering rootId k model "" := by
  obtain ⟨_, _, _, _, _, _, rfl⟩ := compile_eq_ok h
  rfl

theorem IsCompiled.walk?_plays (hs : s.IsCompiled) (depth : Nat) (model : Option (M.Value k))
    (options : Options) :
    Walk.Plays options.failFast (s.evaluate options.guardLoops depth model) {}
      (s.walk? depth model options) :=
  Walk.visit_follows (c := s.course options) hs.fits hs.resolve_eq rfl depth [] .entering s.rootId
    k model [] {} ⟨s.root, hs.root_typed⟩ .start

/-- A walk that ends has recorded the events of the evaluation, or the first of them. -/
theorem IsCompiled.errors_of_walk? (hs : s.IsCompiled) {depth : Nat} {model : Option (M.Value k)}
    {options : Options} {w : Walk M} (hw : s.walk? depth model options = some w) :
    ∃ events, events <+: (s.evaluate options.guardLoops depth model).events ∧
      w.errors = ErrorsByPath.group events := by
  have hplays := hs.walk?_plays depth model options
  rw [hw] at hplays
  cases hplays with
  | ends hquiet hend => exact ⟨_, List.prefix_rfl, rfl⟩
  | halts hfast hevents =>
    refine ⟨[_], ?_, rfl⟩
    rw [hevents, List.cons_prefix_cons]
    exact ⟨rfl, List.nil_prefix⟩

/-- A walk that has no end is an evaluation that has none. -/
theorem IsCompiled.ending_of_walk? (hs : s.IsCompiled) {depth : Nat} {model : Option (M.Value k)}
    {options : Options} (hw : s.walk? depth model options = none) :
    (s.evaluate options.guardLoops depth model).ending = .outOfDepth := by
  have hplays := hs.walk?_plays depth model options
  rw [hw] at hplays
  cases hplays with
  | outOfDepth hquiet hend => exact hend

/-- Where an evaluation ends, the walk does. -/
theorem IsCompiled.exists_walk?_of_ends (hs : s.IsCompiled) {depth : Nat}
    {model : Option (M.Value k)} {options : Options}
    (h : (s.evaluate options.guardLoops depth model).ending ≠ .outOfDepth) :
    ∃ w, s.walk? depth model options = some w := by
  cases hw : s.walk? depth model options with
  | some w => exact ⟨w, rfl⟩
  | none => exact absurd (hs.ending_of_walk? hw) h

/-- Without `failFast` a walk answers what the evaluation answers. -/
theorem IsCompiled.map_errors_walk? (hs : s.IsCompiled) (depth : Nat) (model : Option (M.Value k))
    (guard : Bool) :
    (s.walk? depth model ⟨false, guard⟩).map (·.errors) =
      (s.evaluate guard depth model).answer := by
  have hplays := hs.walk?_plays depth model ⟨false, guard⟩
  generalize s.walk? depth model ⟨false, guard⟩ = result at hplays
  cases hplays with
  | outOfDepth hquiet hend => exact (if_pos hend).symm
  | ends hquiet hend => exact (if_neg hend).symm
  | halts hfast hevents => exact nomatch hfast

/-- Where an evaluation has an answer, its events can be read there path by path: at each path
stand the errors that were found there, in the order of time, and no other path is there. -/
theorem find?_answer {r : Verdict String} {errors : ErrorsByPath} (h : r.answer = some errors)
    (path : String) (ids : List ErrorId) :
    errors.find? path = some ids ↔ ids = ErrorsByPath.idsAt path r.events ∧ ids ≠ [] := by
  rw [Verdict.answer] at h
  split at h
  · exact nomatch h
  · obtain rfl := Option.some.inj h
    exact ErrorsByPath.find?_group_eq_some_iff

/-- Validation answers what the evaluation answers: at any bound for the nesting the walk and the
evaluation agree, the answer has the events of the evaluation at their paths, and an evaluation
that stays below its bound is the same for every other. -/
theorem validate_eq_answer {table : ScopeTable M} {rootId : ScopeId} {catalog : Catalog}
    (h : compile table k rootId catalog = .ok s) (model : Option (M.Value k)) (guard : Bool) :
    s.validate model ⟨false, guard⟩ = (s.evaluate guard (s.depthBound model) model).answer ∧
      (∀ depth, (s.walk? depth model ⟨false, guard⟩).map (·.errors) =
        (s.evaluate guard depth model).answer) ∧
      (∀ depth errors, (s.evaluate guard depth model).answer = some errors → ∀ path ids,
        errors.find? path = some ids ↔
          ids = ErrorsByPath.idsAt path (s.evaluate guard depth model).events ∧ ids ≠ []) ∧
      ∀ depth depth', depth ≤ depth' → (s.evaluate guard depth model).ending ≠ .outOfDepth →
        s.evaluate guard depth' model = s.evaluate guard depth model := by
  have hs := isCompiled_of_compile h
  refine ⟨hs.map_errors_walk? _ model guard, fun depth => hs.map_errors_walk? depth model guard,
    fun depth errors herrors => find?_answer herrors, ?_⟩
  intro depth depth' hle hend
  exact Evaluation.eval_of_deeper hle hend

end Scheme

/-! ## Orders

A small scheme for documents, on which the theorems about schemes are tried.  An order has lines,
and a line names an article; where orders are nested, a line can be an order of its own, so that
an order can contain itself.
-/

namespace Orders

open Document

/-- Documents, with kinds that need no name. -/
@[reducible] def space : ModelSpace := Document.space fun _ => ""

/-- An order has a customer, and lines. -/
def orderScope : Scope space Kind.obj where
  steps := [
    .rule ⟨0⟩ fun v => (Test.contains "customer").holds (k := .obj) v,
    .member "lines" ⟨1⟩ Kind.list fun v => View.field? (k := .obj) v "lines" .list]
  presence := none

/-- The lines have to be there. -/
def linesScope : Scope space Kind.list where
  steps := [.collection ⟨2⟩ Kind.obj fun v => View.children (k := .list) v .obj]
  presence := some (.required ⟨1⟩)

/-- Each line has to be there. -/
def lineScope (nested : Bool) : Scope space Kind.obj where
  steps := .inclusion ⟨3⟩ ::
    if nested then [.member "order" ⟨0⟩ Kind.obj fun v => View.field? (k := .obj) v "order" .obj]
    else []
  presence := some (.required ⟨2⟩)

/-- A line has an article. -/
def articleScope : Scope space Kind.obj where
  steps := [.rule ⟨3⟩ fun v => (Test.contains "article").holds (k := .obj) v]
  presence := none

/-- The scopes of orders. -/
def table (nested : Bool) : ScopeTable space := Dict.ofList
  [(⟨0⟩, ⟨_, orderScope⟩), (⟨1⟩, ⟨_, linesScope⟩), (⟨2⟩, ⟨_, lineScope nested⟩),
    (⟨3⟩, ⟨_, articleScope⟩)]

/-- The errors of orders. -/
def catalog : Catalog := Dict.ofList [(⟨0⟩, {}), (⟨1⟩, {}), (⟨2⟩, {}), (⟨3⟩, {})]

/-- A line that has to have a count as well. -/
def countedLineScope (nested : Bool) : Scope space Kind.obj where
  steps := (lineScope nested).steps ++
    [.rule ⟨4⟩ fun v => (Test.contains "count").holds (k := .obj) v]
  presence := (lineScope nested).presence

/-- The scopes of orders whose lines have counts. -/
def countedTable (nested : Bool) : ScopeTable space := Dict.ofList
  [(⟨0⟩, ⟨_, orderScope⟩), (⟨1⟩, ⟨_, linesScope⟩), (⟨2⟩, ⟨_, countedLineScope nested⟩),
    (⟨3⟩, ⟨_, articleScope⟩)]

/-- The errors of such orders, with their codes. -/
def countedCatalog : Catalog := Dict.ofList
  [(⟨0⟩, { codes := ["customer"] }), (⟨1⟩, {}), (⟨2⟩, { codes := ["line", "missing"] }),
    (⟨3⟩, { codes := ["article"] }), (⟨4⟩, { codes := ["count", "line"] })]

/-- An order with two lines, of which one is missing and the other is the order itself. -/
def knot : Document where
  named := Dict.ofList
    [("order", .obj [("lines", .list [.null, .obj [("order", .ref "order")]])])]
  root := some (.ref "order")

/-- The order of the knot. -/
def knotOrder : View .obj := (knot.rootView? .obj).get rfl

/-- An order whose only line is another order, of which the only line is missing. -/
def tower : Document where
  root := some (.obj [("lines", .list [.obj [("order", .obj [("lines", .list [.null])])]])])

/-- The outer order of the tower. -/
def towerOrder : View .obj := (tower.rootView? .obj).get rfl

/-- An order with two lines, of which one is missing and the other is empty. -/
def scant : Document where
  root := some (.obj [("customer", .text "A"), ("lines", .list [.null, .obj []])])

/-- The order of the scant document. -/
def scantOrder : View .obj := (scant.rootView? .obj).get rfl

end Orders

/-- What there is to find in the knot where lines have counts. -/
def Orders.knotErrors : ErrorsByPath := Dict.ofList
  [("", [⟨0⟩]), ("lines[0]", [⟨2⟩]), ("lines[1]", [⟨3⟩, ⟨4⟩])]

/-- The evaluation of an order that contains itself ends where the order is met again, and at the
line that is the order stand two errors, in the order in which they were found. -/
theorem Scheme.validate_eq_answer_knot :
    ∃ s : Scheme Orders.space .obj,
      Scheme.compile (Orders.countedTable true) .obj ⟨0⟩ Orders.countedCatalog = .ok s ∧
      s.validate (some Orders.knotOrder) ⟨false, true⟩ = some Orders.knotErrors ∧
      (s.evaluate true (s.depthBound (some Orders.knotOrder)) (some Orders.knotOrder)).events =
        [("", ⟨0⟩), ("lines[0]", ⟨2⟩), ("lines[1]", ⟨3⟩), ("lines[1]", ⟨4⟩)] ∧
      Orders.knotErrors.find? "lines[1]" = some [⟨3⟩, ⟨4⟩] := by
  have h : Scheme.compile (Orders.countedTable true) .obj ⟨0⟩ Orders.countedCatalog = .ok _ := rfl
  obtain ⟨hvalidate, _, hreads, _⟩ := Scheme.validate_eq_answer h (some Orders.knotOrder) true
  refine ⟨_, h, hvalidate.trans rfl, rfl, ?_⟩
  exact (hreads 9 Orders.knotErrors rfl _ _).2 ⟨rfl, List.cons_ne_nil _ _⟩

end Rulebook
