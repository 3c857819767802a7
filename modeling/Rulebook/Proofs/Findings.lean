import Mathlib.Data.List.Basic
import Rulebook.Proofs.Lookup
import Rulebook.Scheme.Survey

/-!
# Surveys as lists of findings

A survey threads a state through a depth-first walk.  `Survey.findings` is the same walk as a
list: one `Finding` for each thing that the walk comes upon, in its order.  `visit_notes` says
that the state at the end is the state at the start with the findings applied to it, unless one of
them is a failure, and that the failure reported is the first one of the list.

The walk keeps the open scopes with where they were opened.  Here they are frames, which also keep
the segments that lead to them, so that nothing has to be read off a path.
-/

namespace Rulebook

open Rulebook.Path (Segment)

namespace Outline

/-- The steps that a survey follows: none where the node has to be absent. -/
def live (o : Outline) : List Outline.Step :=
  match o.presence with
  | some (.forbidden _) => []
  | _ => o.steps

/-- The error of the presence. -/
def presenceError? (o : Outline) : Option ErrorId := o.presence.bind (·.error?)

/-- The segment by which a step leads down. -/
def Step.segment? : Outline.Step → Option Segment
  | member name _ => some (.member name)
  | collection _ => some .anyIndex
  | _ => none

/-- How many narrowings a step is. -/
def Step.narrowings : Outline.Step → Nat
  | narrowing _ => 1
  | _ => 0

end Outline

namespace Survey

/-- A scope that is being looked into, with the way that led to it. -/
structure Frame where
  id : ScopeId
  segments : List Segment
  narrowings : Nat
  deriving DecidableEq, Repr

namespace Frame

/-- What the walk itself keeps of a frame. -/
def opened (f : Frame) : Opened := ⟨f.id, f.segments.length, f.narrowings⟩

/-- The frame that a step of `f` leads to. -/
def next (f : Frame) (step : Outline.Step) (target : ScopeId) : Frame :=
  ⟨target, f.segments ++ step.segment?.toList, f.narrowings + step.narrowings⟩

/-- Whether only inclusions can lie between two frames of which one is open below the other. -/
def sameNode (o f : Frame) : Prop :=
  o.segments.length = f.segments.length ∧ o.narrowings = f.narrowings

instance (o f : Frame) : Decidable (o.sameNode f) := inferInstanceAs (Decidable (_ ∧ _))

end Frame

/-- What a survey comes upon. -/
inductive Finding where
  /-- An error that can be recorded at these segments. -/
  | error (segments : List Segment) (id : ErrorId)
  /-- A segment that leads down from these segments. -/
  | entered (segments : List Segment) (segment : Segment)
  /-- An open scope that is met again. -/
  | again (opened met : Frame)
  /-- A scope that is not there. -/
  | missing (id : ScopeId)
  deriving Repr

/-- What goes wrong with a finding. -/
def Finding.failure? : Finding → Option SchemeError
  | error _ _ => none
  | entered _ _ => none
  | again o f =>
    if o.sameNode f then some (.inclusionCycle f.id (Path.ofSegments f.segments)) else none
  | missing id => some (.undefinedScope id)

/-- What a step of `f` comes upon, where `below` is what the frames below come upon. -/
def stepFindings (below : Frame → List Finding) (f : Frame)
    (step : Outline.Step) : List Finding :=
  (step.error?.map (Finding.error f.segments)).toList ++
    (step.segment?.map (Finding.entered f.segments)).toList ++
      ((step.target?.map fun target => below (f.next step target)).getD [])

/-- What the scope of `f` comes upon, whose outline is `o`. -/
def scopeFindings (below : Frame → List Finding) (f : Frame) (o : Outline) : List Finding :=
  (o.presenceError?.map (Finding.error f.segments)).toList ++
    o.live.flatMap (stepFindings below f)

/-- What a survey comes upon that visits `f` with the scopes of `stack` open. -/
def findings (outlines : Dict ScopeId Outline) : Nat → List Frame → Frame → List Finding
  | closed, stack, f =>
    match stack.find? (·.id = f.id) with
    | some o => [.again o f]
    | none =>
      match closed, outlines.find? f.id with
      | closed + 1, some o => scopeFindings (findings outlines closed (f :: stack)) f o
      | _, _ => [.missing f.id]

/-! ## Applying findings -/

namespace State

/-- What a finding changes. -/
def apply (st : State) : Finding → State
  | .error segments id =>
    { st with errors := st.errors.record (Path.ofSegments segments) id }
  | .entered segments s =>
    { st with
      paths := st.paths.insert (Path.ofSegments segments) s.text
        (Path.join (Path.ofSegments segments) s.text)
      maxDepth := max st.maxDepth (segments.length + 1) }
  | .again o f =>
    if o.sameNode f then st.fail (.inclusionCycle f.id (Path.ofSegments f.segments))
    else { st with recursive := true }
  | .missing id => st.fail (.undefinedScope id)

/-- The same findings at another place of the walk. -/
def moveTo (st : State) (trail : List String) (opened : List Opened) (narrowings : Nat) : State :=
  { st with trail, opened, narrowings }

theorem apply_moveTo (st : State) (trail : List String) (opened : List Opened) (narrowings : Nat)
    (f : Finding) :
    (st.moveTo trail opened narrowings).apply f =
      (st.apply f).moveTo trail opened narrowings := by
  cases f with
  | error segments id => rfl
  | entered segments s => rfl
  | again o g =>
    rw [apply, apply]
    split <;> rfl
  | missing id => rfl

theorem foldl_apply_moveTo (st : State) (trail : List String) (opened : List Opened)
    (narrowings : Nat) (fs : List Finding) :
    fs.foldl apply (st.moveTo trail opened narrowings) =
      (fs.foldl apply st).moveTo trail opened narrowings := by
  induction fs generalizing st with
  | nil => rfl
  | cons f rest ih => rw [List.foldl_cons, List.foldl_cons, apply_moveTo, ih]

end State

/-- The walk from `st` to `st'` comes upon `fs` and ends at the place where it began. -/
structure Notes (fs : List Finding) (st st' : State) : Prop where
  trail : st'.trail = st.trail
  opened : st'.opened = st.opened
  narrowings : st'.narrowings = st.narrowings
  failure : st'.failure = st.failure.or (fs.findSome? Finding.failure?)
  result : st'.failure = none → st' = fs.foldl State.apply st

namespace Notes

variable {fs gs : List Finding} {st st₁ st₂ : State}

theorem refl (st : State) : Notes [] st st :=
  ⟨rfl, rfl, rfl, by simp, fun _ => rfl⟩

theorem append (h : Notes fs st st₁) (h' : Notes gs st₁ st₂) : Notes (fs ++ gs) st st₂ where
  trail := h'.trail.trans h.trail
  opened := h'.opened.trans h.opened
  narrowings := h'.narrowings.trans h.narrowings
  failure := by rw [h'.failure, h.failure, List.findSome?_append, Option.or_assoc]
  result hnone := by
    have hfirst : st₁.failure = none := by
      rw [h'.failure, Option.or_eq_none_iff] at hnone
      exact hnone.1
    rw [h'.result hnone, h.result hfirst, List.foldl_append]

/-- A finding is applied, unless it is a failure and there is one already. -/
theorem applied {f : Finding} (h : st.failure = none ∨ f.failure? = none) :
    Notes [f] st (st.apply f) := by
  have hfail (e : SchemeError) (hf : f.failure? = some e) (happly : st.apply f = st.fail e) :
      Notes [f] st (st.apply f) := by
    have hst : st.failure = none := h.resolve_right (by rw [hf]; exact Option.some_ne_none e)
    rw [happly]
    exact ⟨rfl, rfl, rfl, by simp [State.fail, hst, hf], fun hnone => absurd hnone (by
      simp [State.fail])⟩
  cases f with
  | error segments id =>
    exact ⟨rfl, rfl, rfl, by simp [State.apply, Finding.failure?], fun _ => rfl⟩
  | entered segments s =>
    exact ⟨rfl, rfl, rfl, by simp [State.apply, Finding.failure?], fun _ => rfl⟩
  | again o g =>
    by_cases hsame : o.sameNode g
    · exact hfail _ (if_pos hsame) (if_pos hsame)
    · have happly : st.apply (.again o g) = { st with recursive := true } := if_neg hsame
      refine ⟨?_, ?_, ?_, ?_, fun _ => rfl⟩
      all_goals rw [happly]
      simp [Finding.failure?, hsame]
  | missing id => exact hfail _ rfl rfl

/-- What is found at another place is found here, once the walk is back. -/
theorem moved {trail : List String} {opened : List Opened} {narrowings : Nat}
    (h : Notes fs (st.moveTo trail opened narrowings) st₁) :
    Notes fs st (st₁.moveTo st.trail st.opened st.narrowings) where
  trail := rfl
  opened := rfl
  narrowings := rfl
  failure := h.failure
  result hnone := by
    rw [h.result hnone, State.foldl_apply_moveTo]
    exact (State.foldl_apply_moveTo st st.trail st.opened st.narrowings fs).symm

end Notes

/-! ## The walk comes upon its findings -/

/-- The walk is where `f` says, with the scopes of `stack` open. -/
structure State.At (st : State) (stack : List Frame) (f : Frame) : Prop where
  path : st.path = Path.ofSegments f.segments
  depth : st.depth = f.segments.length
  narrowings : st.narrowings = f.narrowings
  opened : st.opened = stack.map Frame.opened

namespace State.At

variable {st st' : State} {stack : List Frame} {f : Frame} {fs : List Finding}

/-- What has been found changes nothing about the place. -/
theorem of_notes (h : st.At stack f) (hn : Notes fs st st') : st'.At stack f where
  path := by
    rw [State.path, hn.trail]
    exact h.path
  depth := by
    rw [State.depth, hn.trail]
    exact h.depth
  narrowings := hn.narrowings.trans h.narrowings
  opened := hn.opened.trans h.opened

theorem enter (h : st.At stack f) {step : Outline.Step} {s : Segment}
    (hs : step.segment? = some s) (hn : step.narrowings = 0) (target : ScopeId) :
    (st.enter s.text).At stack (f.next step target) where
  path := by
    rw [Frame.next, hs, Option.toList_some, Path.ofSegments, List.foldl_append]
    exact congrArg (Path.join · s.text) h.path
  depth := by
    rw [Frame.next, hs, Option.toList_some, List.length_append]
    exact congrArg (· + 1) h.depth
  narrowings := by
    rw [Frame.next, hn]
    exact h.narrowings
  opened := h.opened

theorem stay (h : st.At stack f) {step : Outline.Step} (hs : step.segment? = none)
    (target : ScopeId) :
    { st with narrowings := st.narrowings + step.narrowings }.At stack (f.next step target) where
  path := by
    rw [Frame.next, hs, Option.toList_none, List.append_nil]
    exact h.path
  depth := by
    rw [Frame.next, hs, Option.toList_none, List.append_nil]
    exact h.depth
  narrowings := congrArg (· + step.narrowings) h.narrowings
  opened := h.opened

theorem keep (h : st.At stack f) :
    { st with opened := f.opened :: st.opened }.At (f :: stack) f where
  path := h.path
  depth := h.depth
  narrowings := h.narrowings
  opened := congrArg (f.opened :: ·) h.opened

end State.At

/-- A visit comes upon what `below` says, wherever the walk is. -/
def Reports (stack : List Frame) (below : Frame → List Finding)
    (visit : ScopeId → State → State) : Prop :=
  ∀ (f : Frame) (st : State), st.At stack f → Notes (below f) st (visit f.id st)

section Steps

variable {stack : List Frame} {below : Frame → List Finding} {visit : ScopeId → State → State}
  {st st' : State} {f : Frame} {fs : List Finding}

theorem note_notes (h : st.At stack f) (id : ErrorId) :
    Notes [.error f.segments id] st (st.note id) := by
  have happly : st.note id = st.apply (.error f.segments id) := by
    rw [State.note, h.path]
    rfl
  rw [happly]
  exact .applied (.inr rfl)

/-- A step that leads down comes upon its segment and what is below. -/
theorem enter_notes (h : st.At stack f) {s : Segment} (hn : Notes fs (st.enter s.text) st') :
    Notes (.entered f.segments s :: fs) st st'.leave := by
  have henter : st.enter s.text = (st.apply (.entered f.segments s)).moveTo
      (Path.join st.path s.text :: st.trail) st.opened st.narrowings := by
    rw [State.enter, State.apply, h.path, h.depth]
    rfl
  have hleave : st'.leave = st'.moveTo st.trail st.opened st.narrowings := by
    have htrail : st'.trail.tail = st.trail := congrArg List.tail hn.trail
    have hopened : st'.opened = st.opened := hn.opened
    have hnarrowings : st'.narrowings = st.narrowings := hn.narrowings
    rw [State.leave, State.moveTo, htrail, ← hopened, ← hnarrowings]
  rw [hleave]
  rw [henter] at hn
  exact (Notes.applied (.inr rfl)).append hn.moved

/-- A narrowing comes upon what is below. -/
theorem narrow_notes (hn : Notes fs { st with narrowings := st.narrowings + 1 } st') :
    Notes fs st { st' with narrowings := st'.narrowings - 1 } := by
  have hback : { st' with narrowings := st'.narrowings - 1 } =
      st'.moveTo st.trail st.opened st.narrowings := by
    have htrail : st'.trail = st.trail := hn.trail
    have hopened : st'.opened = st.opened := hn.opened
    have hnarrowings : st'.narrowings - 1 = st.narrowings := by
      rw [hn.narrowings, Nat.add_sub_cancel]
    rw [State.moveTo, hnarrowings, ← htrail, ← hopened]
  rw [hback]
  exact Notes.moved hn

/-- Keeping a scope open comes upon what is found meanwhile. -/
theorem within_notes {id : ScopeId} {look : State → State}
    (hn : Notes fs { st with opened := ⟨id, st.depth, st.narrowings⟩ :: st.opened }
      (look { st with opened := ⟨id, st.depth, st.narrowings⟩ :: st.opened })) :
    Notes fs st (st.within id look) := by
  rw [State.within]
  generalize look _ = st' at hn
  have hback : { st' with opened := st'.opened.tail } =
      st'.moveTo st.trail st.opened st.narrowings := by
    have htrail : st'.trail = st.trail := hn.trail
    have hopened : st'.opened.tail = st.opened := congrArg List.tail hn.opened
    have hnarrowings : st'.narrowings = st.narrowings := hn.narrowings
    rw [State.moveTo, hopened, ← htrail, ← hnarrowings]
  rw [hback]
  exact Notes.moved hn

theorem followStep_notes (hvisit : Reports stack below visit) (h : st.At stack f)
    (step : Outline.Step) : Notes (stepFindings below f step) st (followStep visit st step) := by
  cases step with
  | rule error => exact note_notes h error
  | member name target => exact enter_notes h (hvisit _ _ (h.enter rfl rfl target))
  | collection target => exact enter_notes h (hvisit _ _ (h.enter rfl rfl target))
  | inclusion target =>
    exact hvisit _ st (h.stay (rfl : (Outline.Step.inclusion target).segment? = none) target)
  | narrowing target =>
    exact narrow_notes
      (hvisit _ _ (h.stay (rfl : (Outline.Step.narrowing target).segment? = none) target))

theorem followSteps_notes (hvisit : Reports stack below visit) (h : st.At stack f)
    (steps : List Outline.Step) :
    Notes (steps.flatMap (stepFindings below f)) st (steps.foldl (followStep visit) st) := by
  induction steps generalizing st with
  | nil => exact .refl st
  | cons step rest ih =>
    have hstep := followStep_notes hvisit h step
    exact hstep.append (ih (h.of_notes hstep))

theorem look_notes (hvisit : Reports stack below visit) (h : st.At stack f) (o : Outline) :
    Notes (scopeFindings below f o) st (look visit o st) := by
  unfold scopeFindings Outline.presenceError? Outline.live look
  cases o.presence with
  | none => exact followSteps_notes hvisit h o.steps
  | some policy =>
    cases policy with
    | optional => exact followSteps_notes hvisit h o.steps
    | required error =>
      have hnote := note_notes h error
      exact hnote.append (followSteps_notes hvisit (h.of_notes hnote) o.steps)
    | forbidden error => exact note_notes h error

end Steps

/-- Meeting an open scope again is a failure just where the finding is one. -/
theorem meet_notes {st : State} {stack : List Frame} {f o : Frame} (h : st.At stack f)
    (hst : st.failure = none) (hid : o.id = f.id) : Notes [.again o f] st (st.meet o.opened) := by
  have hcond :
      o.opened.depth = st.depth ∧ o.opened.narrowings = st.narrowings ↔ o.sameNode f := by
    rw [h.depth, h.narrowings]
    rfl
  have happly : st.meet o.opened = st.apply (.again o f) := by
    by_cases hsame : o.sameNode f
    · rw [State.meet, if_pos (hcond.2 hsame), State.apply, if_pos hsame, h.path, ← hid]
      rfl
    · rw [State.meet, if_neg (hcond.not.2 hsame), State.apply, if_neg hsame]
  rw [happly]
  exact .applied (.inl hst)

/-- Once something has gone wrong, nothing more is visited. -/
theorem visit_of_failure (outlines : Dict ScopeId Outline) (closed : Nat) (id : ScopeId)
    {st : State} (hst : st.failure ≠ none) : visit outlines closed id st = st := by
  unfold visit
  rw [if_pos (Option.isSome_iff_ne_none.2 hst)]

theorem notes_of_failure {st : State} (hst : st.failure ≠ none) (fs : List Finding) :
    Notes fs st st := by
  obtain ⟨e, he⟩ := Option.ne_none_iff_exists'.1 hst
  exact ⟨rfl, rfl, rfl, by rw [he]; rfl, fun hnone => absurd hnone hst⟩

section Visits

variable {outlines : Dict ScopeId Outline} {closed : Nat} {stack : List Frame} {f o : Frame}
  {st : State}

theorem find?_opened (h : st.At stack f) :
    st.opened.find? (·.id = f.id) = (stack.find? (·.id = f.id)).map Frame.opened := by
  rw [h.opened, List.find?_map]
  rfl

theorem findings_again (hfind : stack.find? (·.id = f.id) = some o) :
    findings outlines closed stack f = [.again o f] := by
  unfold findings
  rw [hfind]

theorem findings_missing (hfind : stack.find? (·.id = f.id) = none)
    (hmissing : closed = 0 ∨ outlines.find? f.id = none) :
    findings outlines closed stack f = [.missing f.id] := by
  unfold findings
  rw [hfind]
  rcases hmissing with rfl | hmissing
  · rfl
  · rw [hmissing]
    cases closed <;> rfl

theorem findings_scope {outline : Outline} (hfind : stack.find? (·.id = f.id) = none)
    (houtline : outlines.find? f.id = some outline) :
    findings outlines (closed + 1) stack f =
      scopeFindings (findings outlines closed (f :: stack)) f outline := by
  conv_lhs => unfold findings
  rw [hfind, houtline]

theorem again_notes (h : st.At stack f) (hst : st.failure = none)
    (hfind : stack.find? (·.id = f.id) = some o) :
    Notes (findings outlines closed stack f) st (visit outlines closed f.id st) := by
  have hid : o.id = f.id := by simpa using List.find?_some hfind
  rw [findings_again hfind]
  unfold visit
  rw [hst, Option.isSome_none, if_neg Bool.false_ne_true, find?_opened h, hfind]
  exact meet_notes h hst hid

theorem missing_notes (h : st.At stack f) (hst : st.failure = none)
    (hfind : stack.find? (·.id = f.id) = none)
    (hmissing : closed = 0 ∨ outlines.find? f.id = none) :
    Notes (findings outlines closed stack f) st (visit outlines closed f.id st) := by
  rw [findings_missing hfind hmissing]
  have hvisit : visit outlines closed f.id st = st.apply (.missing f.id) := by
    unfold visit
    rw [hst, Option.isSome_none, if_neg Bool.false_ne_true, find?_opened h, hfind]
    rcases hmissing with rfl | hmissing
    · rfl
    · rw [hmissing]
      cases closed <;> rfl
  rw [hvisit]
  exact .applied (.inl hst)

end Visits

/-- A survey comes upon its findings. -/
theorem visit_notes (outlines : Dict ScopeId Outline) (closed : Nat) (stack : List Frame) :
    Reports stack (findings outlines closed stack) (visit outlines closed) := by
  induction closed generalizing stack with
  | zero =>
    intro f st h
    by_cases hst : st.failure = none
    · cases hfind : stack.find? (·.id = f.id) with
      | some o => exact again_notes h hst hfind
      | none => exact missing_notes h hst hfind (.inl rfl)
    · rw [visit_of_failure outlines _ _ hst]
      exact notes_of_failure hst _
  | succ closed ih =>
    intro f st h
    by_cases hst : st.failure = none
    · cases hfind : stack.find? (·.id = f.id) with
      | some o => exact again_notes h hst hfind
      | none =>
        cases houtline : outlines.find? f.id with
        | none => exact missing_notes h hst hfind (.inr houtline)
        | some outline =>
          rw [findings_scope hfind houtline]
          unfold visit
          rw [hst, Option.isSome_none, if_neg Bool.false_ne_true, find?_opened h, hfind, houtline]
          -- With `f` on the stack the walk is at `f` still, so `ih` is about the frames below it.
          have hopened : (⟨f.id, st.depth, st.narrowings⟩ : Opened) = f.opened := by
            rw [h.depth, h.narrowings]
            rfl
          refine within_notes (look_notes (ih (f :: stack)) ?_ outline)
          rw [hopened]
          exact h.keep
    · rw [visit_of_failure outlines _ _ hst]
      exact notes_of_failure hst _

/-! ## What a survey answers -/

/-- The frame at which a survey begins. -/
def rootFrame (root : ScopeId) : Frame := ⟨root, [], 0⟩

/-- All that the survey of a table comes upon from a root. -/
def report (outlines : Dict ScopeId Outline) (root : ScopeId) : List Finding :=
  findings outlines outlines.size [] (rootFrame root)

theorem walk_notes (outlines : Dict ScopeId Outline) (root : ScopeId) :
    Notes (report outlines root) {} (walk outlines root) :=
  visit_notes outlines outlines.size [] (rootFrame root) {} ⟨rfl, rfl, rfl, rfl⟩

/-- A survey succeeds if nothing that it comes upon is a failure, and then its answer is what it
has come upon. -/
theorem ofOutlines_eq_ok_iff {outlines : Dict ScopeId Outline} {root : ScopeId} {s : Survey} :
    ofOutlines outlines root = .ok s ↔
      (∀ f ∈ report outlines root, f.failure? = none) ∧
        ofState ((report outlines root).foldl State.apply {}) = s := by
  have hnotes := walk_notes outlines root
  have hfailure : (walk outlines root).failure = none ↔
      ∀ f ∈ report outlines root, f.failure? = none := by
    rw [hnotes.failure, ← List.findSome?_eq_none_iff]
    rfl
  rw [← hfailure, ofOutlines]
  cases hwalk : (walk outlines root).failure with
  | none => simp [hnotes.result hwalk]
  | some e => simp

end Survey

end Rulebook
