import Rulebook.Proofs.Termination
import Rulebook.Proofs.Validation
import Rulebook.Validator

/-!
# Stopping at the first error

A walk with `failFast` plays the same evaluation as a walk without it, and stops for good at the
first event.  So what is left of the errors is the first of them in the order of time, which is
the head of the list at its path.  That a model is valid is known after one error, so `isValid`
may stop there.
-/

namespace Rulebook

namespace ErrorsByPath

/-- What is left of the errors of a run whose events these are, where it stops at the first
one. -/
inductive KeepsFirst (full fast : ErrorsByPath) : List (String × ErrorId) → Prop where
  /-- There are no errors. -/
  | none (hfull : full = ∅) (hfast : fast = ∅) : KeepsFirst full fast []
  /-- The first error comes first at its path, and nothing else is left. -/
  | some {path : String} {id : ErrorId} {ids : List ErrorId} {rest : List (String × ErrorId)}
    (hfull : full.find? path = some (id :: ids)) (hfast : fast.entries = [(path, [id])]) :
    KeepsFirst full fast ((path, id) :: rest)

theorem keepsFirst_group (events : List (String × ErrorId)) :
    KeepsFirst (group events) (group (events.take 1)) events := by
  cases events with
  | nil => exact .none rfl rfl
  | cons e rest =>
    obtain ⟨path, id⟩ := e
    have hfull : (group ((path, id) :: rest)).find? path = some (id :: idsAt path rest) := by
      rw [find?_group, idsAt_cons_self, if_neg (List.cons_ne_nil _ _)]
    exact .some hfull rfl

theorem length_le_count {errors : ErrorsByPath} {path : String} {ids : List ErrorId}
    (h : errors.find? path = some ids) : ids.length ≤ errors.count :=
  Dict.weight_le_total List.length h

/-- One error tells whether there are any. -/
theorem KeepsFirst.count_eq_zero_iff {full fast : ErrorsByPath} {events : List (String × ErrorId)}
    (h : KeepsFirst full fast events) : fast.count = 0 ↔ full.count = 0 := by
  cases h with
  | none hfull hfast => rw [hfull, hfast]
  | some hfull hfast =>
    have hle := length_le_count hfull
    have hone : fast.count = 1 := by
      rw [count, Dict.total, hfast]
      rfl
    rw [List.length_cons] at hle
    omega

end ErrorsByPath

variable {M : ModelSpace} {k : M.Kind}

namespace Validator

theorem isValid_outcomeOf (v : Validator M k) (errors : ErrorsByPath) :
    (v.outcomeOf errors).isValid = decide (errors.count = 0) := by
  rw [outcomeOf]
  split
  · rename_i hempty
    have hcount : errors.count = 0 := by
      rw [ErrorsByPath.count, Dict.total, List.isEmpty_iff.1 hempty]
      rfl
    rw [decide_eq_true hcount]
    rfl
  · rfl

end Validator

namespace Scheme

variable {s : Scheme M k}

/-- A walk that stops at the first error ends where one that does not stop ends, and has recorded
the first of its events. -/
theorem IsCompiled.exists_failFast (hs : s.IsCompiled) {depth depth' : Nat} (hle : depth ≤ depth')
    {model : Option (M.Value k)} {guard : Bool} {full : Walk M}
    (hfull : s.walk? depth model ⟨false, guard⟩ = some full) :
    full.errors = ErrorsByPath.group (s.evaluate guard depth model).events ∧
      ∃ fast, s.walk? depth' model ⟨true, guard⟩ = some fast ∧
        fast.errors = ErrorsByPath.group ((s.evaluate guard depth model).events.take 1) := by
  have hplays := hs.walk?_plays depth model ⟨false, guard⟩
  rw [hfull] at hplays
  cases hplays with
  | halts hfast hevents => exact nomatch hfast
  | ends _ hend =>
    refine ⟨rfl, ?_⟩
    have hfast := hs.walk?_plays depth' model ⟨true, guard⟩
    have hsame : s.evaluate guard depth' model = s.evaluate guard depth model :=
      Evaluation.eval_of_deeper hle hend
    rw [hsame] at hfast
    generalize s.walk? depth' model ⟨true, guard⟩ = result at hfast
    cases hfast with
    | outOfDepth _ hout => exact absurd hout hend
    | ends hquiet _ =>
      have hnone : (s.evaluate guard depth model).events = [] :=
        hquiet.resolve_left Bool.noConfusion
      refine ⟨_, rfl, ?_⟩
      dsimp only
      rw [hnone]
      rfl
    | halts _ hevents =>
      refine ⟨_, rfl, ?_⟩
      dsimp only
      rw [hevents]
      rfl

theorem IsCompiled.keepsFirst_of_walk? (hs : s.IsCompiled) {depth depth' : Nat}
    (hle : depth ≤ depth') {model : Option (M.Value k)} {guard : Bool} {full : Walk M}
    (hfull : s.walk? depth model ⟨false, guard⟩ = some full) :
    ∃ fast, s.walk? depth' model ⟨true, guard⟩ = some fast ∧
      full.errors = ErrorsByPath.group (s.evaluate guard depth model).events ∧
      ErrorsByPath.KeepsFirst full.errors fast.errors (s.evaluate guard depth model).events := by
  obtain ⟨herrors, fast, hfast, hfirst⟩ := hs.exists_failFast hle hfull
  refine ⟨fast, hfast, herrors, ?_⟩
  rw [herrors, hfirst]
  exact ErrorsByPath.keepsFirst_group _

theorem IsCompiled.keepsFirst_of_validate (hs : s.IsCompiled) {model : Option (M.Value k)}
    {guard : Bool} {full : ErrorsByPath} (hfull : s.validate model ⟨false, guard⟩ = some full) :
    ∃ fast, s.validate model ⟨true, guard⟩ = some fast ∧
      full = ErrorsByPath.group (s.evaluate guard (s.depthBound model) model).events ∧
      ErrorsByPath.KeepsFirst full fast
        (s.evaluate guard (s.depthBound model) model).events := by
  obtain ⟨w, hw, rfl⟩ := Option.map_eq_some_iff.1 hfull
  obtain ⟨fast, hfast, hgroup, hkeeps⟩ := hs.keepsFirst_of_walk? (Nat.le_refl _) hw
  refine ⟨fast.errors, ?_, hgroup, hkeeps⟩
  rw [validate, run?, hfast, Option.map_some]

theorem length_lt_depthBound {model : Option (M.Value k)} {nodes : List M.Node}
    (h : nodes.length ≤ (model.map M.reach).getD 0) :
    nodes.length * (s.scopes.size + 1) < s.depthBound model := by
  have hle := Nat.mul_le_mul_left (s.scopes.size + 1) h
  rw [Nat.mul_comm, depthBound, Nat.mul_add]
  omega

end Scheme

namespace Validator

variable {v : Validator M k} {m : M.Value k}

theorem validate_of_errors {model : Option (M.Value k)} {failFast : Bool} (errors : ErrorsByPath)
    (h : v.scheme.validate model (v.options failFast) = some errors) :
    v.validate model failFast = some (v.outcomeOf errors) := by
  rw [validate, h, Option.map_some]

/-- Whether a model is valid is known after one error. -/
theorem isValid_of_validate (hs : v.scheme.IsCompiled) {outcome : Outcome}
    (h : v.validate (some m) false = some outcome) : v.isValid m = some outcome.isValid := by
  obtain ⟨full, hfull, rfl⟩ := Option.map_eq_some_iff.1 h
  obtain ⟨fast, hfast, _, hkeeps⟩ := hs.keepsFirst_of_validate hfull
  rw [isValid, validate_of_errors fast hfast, Option.map_some, isValid_outcomeOf,
    isValid_outcomeOf]
  simp only [hkeeps.count_eq_zero_iff]

theorem exists_validate (hs : v.scheme.IsCompiled) {nodes : List M.Node}
    (hnodes : v.scheme.ReachesOnly (some m) nodes) (hreach : nodes.length ≤ M.reach m)
    (hguard : v.guardLoops = true ∨ v.scheme.recursive = false) (failFast : Bool) :
    ∃ outcome, v.validate (some m) failFast = some outcome := by
  have hends : ∃ w, v.scheme.run? (some m) (v.options failFast) = some w := by
    rcases hguard with hguard | hrec
    · have hdepth : nodes.length * (v.scheme.scopes.size + 1) < v.scheme.depthBound (some m) :=
        Scheme.length_lt_depthBound hreach
      exact hs.exists_walk?_of_guardLoops hnodes hdepth hguard
    · exact hs.exists_walk?_of_not_recursive hrec (Scheme.size_lt_depthBound _ _) _
  obtain ⟨w, hw⟩ := hends
  have herrors : v.scheme.validate (some m) (v.options failFast) = some w.errors := by
    rw [Scheme.validate, hw, Option.map_some]
  exact ⟨_, validate_of_errors w.errors herrors⟩

end Validator

/-- With `failFast` a run keeps the first error and nothing else, at every bound for the nesting
that is enough for the full run and at that of `validate`.  So `isValid` says whether the full run
has found nothing, wherever that has an end; and it has one where loops are guarded or cannot
occur and the model has no more nodes than its space says. -/
theorem Scheme.failFast_keeps_first {table : ScopeTable M} {rootId : ScopeId} {catalog : Catalog}
    {s : Scheme M k} (h : compile table k rootId catalog = .ok s) (model : Option (M.Value k))
    (guard : Bool) :
    (∀ depth full, s.walk? depth model ⟨false, guard⟩ = some full → ∀ depth', depth ≤ depth' →
      ∃ fast, s.walk? depth' model ⟨true, guard⟩ = some fast ∧
        full.errors = ErrorsByPath.group (s.evaluate guard depth model).events ∧
        ErrorsByPath.KeepsFirst full.errors fast.errors (s.evaluate guard depth model).events) ∧
    (∀ full, s.validate model ⟨false, guard⟩ = some full →
      ∃ fast, s.validate model ⟨true, guard⟩ = some fast ∧
        full = ErrorsByPath.group (s.evaluate guard (s.depthBound model) model).events ∧
        ErrorsByPath.KeepsFirst full fast (s.evaluate guard (s.depthBound model) model).events) ∧
    ∀ v : Validator M k, v.scheme = s → ∀ m,
      (∀ outcome, v.validate (some m) false = some outcome →
        v.isValid m = some outcome.isValid) ∧
      ∀ nodes, s.ReachesOnly (some m) nodes → nodes.length ≤ M.reach m →
        v.guardLoops = true ∨ s.recursive = false →
          ∃ outcome, v.validate (some m) false = some outcome := by
  have hs := isCompiled_of_compile h
  refine ⟨?_, ?_, ?_⟩
  · intro depth full hfull depth' hle
    exact hs.keepsFirst_of_walk? hle hfull
  · intro full hfull
    exact hs.keepsFirst_of_validate hfull
  · rintro v rfl m
    refine ⟨?_, ?_⟩
    · intro outcome houtcome
      exact Validator.isValid_of_validate hs houtcome
    · intro nodes hnodes hreach hguard
      exact Validator.exists_validate hs hnodes hreach hguard false

/-- What there is to find in a scant order, in the order of time. -/
def Orders.scantEvents : List (String × ErrorId) := [("lines[0]", ⟨2⟩), ("lines[1]", ⟨3⟩)]

/-- Of the two errors of a scant order the one that comes first is kept. -/
theorem Scheme.failFast_keeps_first_scant :
    ∃ s : Scheme Orders.space .obj,
      Scheme.compile (Orders.table true) .obj ⟨0⟩ Orders.catalog = .ok s ∧
      s.validate (some Orders.scantOrder) ⟨false, true⟩ =
        some (ErrorsByPath.group Orders.scantEvents) ∧
      (∃ fast, s.validate (some Orders.scantOrder) ⟨true, true⟩ = some fast ∧
        ErrorsByPath.KeepsFirst (ErrorsByPath.group Orders.scantEvents) fast
          Orders.scantEvents) ∧
      ∀ v : Validator Orders.space .obj, v.scheme = s → v.guardLoops = true →
        v.isValid Orders.scantOrder = some false := by
  have h : Scheme.compile (Orders.table true) .obj ⟨0⟩ Orders.catalog = .ok _ := rfl
  obtain ⟨_, hvalidate, hvalid⟩ :=
    Scheme.failFast_keeps_first h (some Orders.scantOrder) true
  obtain ⟨fast, hfast, _, hkeeps⟩ := hvalidate (ErrorsByPath.group Orders.scantEvents) rfl
  refine ⟨_, h, rfl, ⟨fast, hfast, hkeeps⟩, ?_⟩
  intro v hv hguard
  have hfull : v.scheme.validate (some Orders.scantOrder) (v.options false) =
      some (ErrorsByPath.group Orders.scantEvents) := by
    rw [Validator.options, hv, hguard]
    rfl
  have hisValid := (hvalid v hv Orders.scantOrder).1 _ (Validator.validate_of_errors _ hfull)
  rw [Validator.isValid_outcomeOf] at hisValid
  exact hisValid

end Rulebook
