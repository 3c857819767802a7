import Mathlib.Computability.StateTransition
import Mathlib.Data.List.Nodup
import Mathlib.Data.List.Perm.Subperm
import Rulebook.Proofs.Lookup
import Rulebook.Scheme.Survey

/-!
# A survey task by task

`Survey.visit` counts the scopes that are not open, and gives up on a scope where none is left.
The survey itself has no such count: it goes on as long as there is something to do.  Here it does
so by single tasks, with what is still to be done on a list, and a table may be any table.  Scopes
can be missing from it, include themselves or lead back to each other.

`perform_keeps` is what one task keeps, and with it every state of a survey: no scope is open
twice, and only scopes of the table are open.  So no more scopes are open than there are, and
where the count of `visit` is used up, a scope that is not open is not in the table.  This is why
the tasks come to an end, and in the state that `walk` answers (`visit_does`).
-/

namespace Rulebook.Survey

/-- What a survey has to do at a time. -/
inductive Task where
  /-- To visit a scope. -/
  | visit (id : ScopeId)
  /-- To follow the first of the steps, and then the others. -/
  | steps (steps : List Outline.Step)
  /-- To go back up by one segment. -/
  | leave
  /-- To go back from a narrowing. -/
  | widen
  /-- To close the scope that was opened last. -/
  | close
  deriving DecidableEq, Repr

/-- The beginning of a step, and what it leaves to be done. -/
def startStep (st : State) : Outline.Step → State × List Task
  | .rule error => (st.note error, [])
  | .member name target => (st.enter name, [.visit target, .leave])
  | .collection target => (st.enter Path.anyIndex, [.visit target, .leave])
  | .inclusion target => (st, [.visit target])
  | .narrowing target => ({ st with narrowings := st.narrowings + 1 }, [.visit target, .widen])

/-- The beginning of looking into a scope, and what it leaves to be done. -/
def startLook (o : Outline) (st : State) : State × List Task :=
  match o.presence with
  | some (.forbidden error) => (st.note error, [])
  | some (.required error) => (st.note error, [.steps o.steps])
  | _ => (st, [.steps o.steps])

/-- Opens a scope. -/
def State.openScope (st : State) (id : ScopeId) : State :=
  { st with opened := ⟨id, st.depth, st.narrowings⟩ :: st.opened }

/-- The beginning of a visit, unless something has gone wrong, and what it leaves to be done. -/
def startVisit (outlines : Dict ScopeId Outline) (id : ScopeId) (st : State) :
    State × List Task :=
  if st.failure.isSome then (st, [])
  else
    match st.opened.find? (·.id = id) with
    | some o => (st.meet o, [])
    | none =>
      match outlines.find? id with
      | some o =>
        ((startLook o (st.openScope id)).1, (startLook o (st.openScope id)).2 ++ [.close])
      | none => (st.fail (.undefinedScope id), [])

/-- What becomes of a survey by a task, and what the task leaves to be done. -/
def perform (outlines : Dict ScopeId Outline) (st : State) : Task → State × List Task
  | .visit id => startVisit outlines id st
  | .steps [] => (st, [])
  | .steps (step :: rest) => ((startStep st step).1, (startStep st step).2 ++ [.steps rest])
  | .leave => (st.leave, [])
  | .widen => ({ st with narrowings := st.narrowings - 1 }, [])
  | .close => ({ st with opened := st.opened.tail }, [])

/-- A survey with what is still to be done. -/
structure Progress where
  state : State
  todo : List Task

namespace Progress

/-- The progress by the next task, if there is one. -/
def next? (outlines : Dict ScopeId Outline) (p : Progress) : Option Progress :=
  match p.todo with
  | [] => none
  | task :: rest =>
    some ⟨(perform outlines p.state task).1, (perform outlines p.state task).2 ++ rest⟩

theorem next?_cons (outlines : Dict ScopeId Outline) (st : State) (task : Task)
    (rest : List Task) :
    next? outlines ⟨st, task :: rest⟩ =
      some ⟨(perform outlines st task).1, (perform outlines st task).2 ++ rest⟩ := rfl

/-- How many visits are nested: those whose scopes are still to be closed. -/
def nesting (p : Progress) : Nat := p.todo.count .close

end Progress

/-- A survey that begins at a root. -/
def begin (root : ScopeId) : Progress := ⟨{}, [.visit root]⟩

/-! ## Open scopes -/

/-- Each open scope is open once, and is a scope of the table. -/
structure OpenOnce (outlines : Dict ScopeId Outline) (opened : List Opened) : Prop where
  nodup : (opened.map (·.id)).Nodup
  known : ∀ o ∈ opened, o.id ∈ outlines.keys

namespace OpenOnce

variable {outlines : Dict ScopeId Outline} {opened : List Opened}

theorem nil (outlines : Dict ScopeId Outline) : OpenOnce outlines [] :=
  ⟨List.nodup_nil, List.forall_mem_nil _⟩

theorem cons (h : OpenOnce outlines opened) {o : Opened} {outline : Outline}
    (hclosed : opened.find? (·.id = o.id) = none) (ho : outlines.find? o.id = some outline) :
    OpenOnce outlines (o :: opened) where
  nodup := by
    rw [List.map_cons, List.nodup_cons]
    refine ⟨fun hmem => ?_, h.nodup⟩
    obtain ⟨g, hg, hid⟩ := List.mem_map.1 hmem
    exact List.find?_eq_none.1 hclosed g hg (decide_eq_true hid)
  known := by
    rw [List.forall_mem_cons]
    exact ⟨Dict.mem_keys_iff.2 ⟨outline, ho⟩, h.known⟩

theorem tail (h : OpenOnce outlines opened) : OpenOnce outlines opened.tail where
  nodup := by
    rw [List.map_tail]
    exact h.nodup.tail
  known o ho := h.known o (List.mem_of_mem_tail ho)

/-- No more scopes are open than there are. -/
theorem length_le (h : OpenOnce outlines opened) : opened.length ≤ outlines.size := by
  have hsub : opened.map (·.id) ⊆ outlines.keys := by
    intro id hid
    obtain ⟨o, ho, rfl⟩ := List.mem_map.1 hid
    exact h.known o ho
  have hle := (h.nodup.subperm hsub).length_le
  rwa [List.length_map, Dict.length_keys] at hle

end OpenOnce

section Parts

variable {st : State}

@[simp] theorem opened_meet (o : Opened) : (st.meet o).opened = st.opened := by
  rw [State.meet]
  split <;> rfl

@[simp] theorem opened_startStep (step : Outline.Step) :
    (startStep st step).1.opened = st.opened := by
  cases step <;> rfl

@[simp] theorem opened_startLook (o : Outline) : (startLook o st).1.opened = st.opened := by
  rw [startLook]
  split <;> rfl

theorem count_close_startStep (step : Outline.Step) :
    (startStep st step).2.count .close = 0 := by
  cases step <;> rfl

theorem count_close_startLook (o : Outline) : (startLook o st).2.count .close = 0 := by
  rw [startLook]
  split <;> rfl

end Parts

/-! ## What a task keeps -/

/-- Each open scope is open once, is a scope of the table, and is still to be closed. -/
structure Progress.Sound (outlines : Dict ScopeId Outline) (p : Progress) : Prop where
  openOnce : OpenOnce outlines p.state.opened
  nesting : p.nesting = p.state.opened.length

section Tasks

variable {outlines : Dict ScopeId Outline} {st : State}

theorem startVisit_keeps (h : OpenOnce outlines st.opened) (id : ScopeId) :
    OpenOnce outlines (startVisit outlines id st).1.opened ∧
      (startVisit outlines id st).1.opened.length =
        (startVisit outlines id st).2.count .close + st.opened.length := by
  rw [startVisit]
  split
  · exact ⟨h, (Nat.zero_add _).symm⟩
  cases hfind : st.opened.find? (·.id = id) with
  | some o =>
    dsimp only
    rw [opened_meet]
    exact ⟨h, (Nat.zero_add _).symm⟩
  | none =>
    cases ho : outlines.find? id with
    | none => exact ⟨h, (Nat.zero_add _).symm⟩
    | some o =>
      dsimp only
      rw [opened_startLook, List.count_append, count_close_startLook]
      refine ⟨h.cons hfind ho, ?_⟩
      rw [State.openScope, List.length_cons, Nat.add_comm]
      rfl

/-- A task keeps each open scope open once.  Where it opens a scope it leaves a task to close
it. -/
theorem perform_keeps (h : OpenOnce outlines st.opened) {task : Task}
    (hclose : task = .close → st.opened ≠ []) :
    OpenOnce outlines (perform outlines st task).1.opened ∧
      (perform outlines st task).1.opened.length + [task].count .close =
        (perform outlines st task).2.count .close + st.opened.length := by
  cases task with
  | visit id =>
    obtain ⟨honce, hlength⟩ := startVisit_keeps h id
    exact ⟨honce, hlength⟩
  | steps steps =>
    cases steps with
    | nil => exact ⟨h, Nat.add_comm _ _⟩
    | cons step rest =>
      rw [perform, opened_startStep, List.count_append, count_close_startStep]
      exact ⟨h, Nat.add_comm _ _⟩
  | leave => exact ⟨h, Nat.add_comm _ _⟩
  | widen => exact ⟨h, Nat.add_comm _ _⟩
  | close =>
    obtain ⟨o, opened, hopened⟩ := List.exists_cons_of_ne_nil (hclose rfl)
    refine ⟨h.tail, ?_⟩
    rw [perform, hopened, List.tail_cons, List.length_cons, List.count_nil, Nat.zero_add]
    rfl

theorem Progress.Sound.next? {p q : Progress} (h : p.Sound outlines)
    (hnext : q ∈ p.next? outlines) : q.Sound outlines := by
  obtain ⟨st, todo⟩ := p
  obtain ⟨honce, hnesting⟩ := h
  cases todo with
  | nil => exact nomatch hnext
  | cons task rest =>
    obtain rfl := Option.some.inj hnext
    rw [Progress.nesting, ← List.singleton_append, List.count_append] at hnesting
    have hclose : task = .close → st.opened ≠ [] := by
      rintro rfl hnil
      rw [hnil] at hnesting
      exact absurd hnesting (by simp)
    obtain ⟨honce, hlength⟩ := perform_keeps honce hclose
    refine ⟨honce, ?_⟩
    rw [Progress.nesting, List.count_append]
    dsimp only at hnesting hlength ⊢
    omega

theorem Progress.Sound.reaches {p q : Progress} (h : p.Sound outlines)
    (hreaches : StateTransition.Reaches (Progress.next? outlines) p q) : q.Sound outlines := by
  induction hreaches with
  | refl => exact h
  | tail _ hnext ih => exact ih.next? hnext

theorem sound_begin (outlines : Dict ScopeId Outline) (root : ScopeId) :
    (begin root).Sound outlines :=
  ⟨.nil outlines, rfl⟩

end Tasks

/-! ## Visits are done task by task -/

/-- Performing the tasks comes to a state with the same scopes open. -/
structure Does (outlines : Dict ScopeId Outline) (st : State) (tasks : List Task) (st' : State) :
    Prop where
  reaches : ∀ todo,
    StateTransition.Reaches (Progress.next? outlines) ⟨st, tasks ++ todo⟩ ⟨st', todo⟩
  opened : st'.opened = st.opened

namespace Does

variable {outlines : Dict ScopeId Outline} {st st₁ st₂ : State} {task : Task}
  {tasks more : List Task}

theorem nothing (st : State) : Does outlines st [] st := ⟨fun _ => .refl, rfl⟩

theorem append (h : Does outlines st tasks st₁) (hmore : Does outlines st₁ more st₂) :
    Does outlines st (tasks ++ more) st₂ where
  reaches todo := by
    rw [List.append_assoc]
    exact (h.reaches (more ++ todo)).trans (hmore.reaches todo)
  opened := hmore.opened.trans h.opened

theorem cons (hopened : (perform outlines st task).1.opened = st.opened)
    (h : Does outlines (perform outlines st task).1 ((perform outlines st task).2 ++ tasks) st₁) :
    Does outlines st (task :: tasks) st₁ where
  reaches todo := by
    have hrest := h.reaches todo
    rw [List.append_assoc] at hrest
    exact .head (Progress.next?_cons outlines st task (tasks ++ todo)) hrest
  opened := h.opened.trans hopened

end Does

/-- Where these scopes are open, a visit does what its task does. -/
def Follows (outlines : Dict ScopeId Outline) (opened : List Opened)
    (visit : ScopeId → State → State) : Prop :=
  ∀ id st, st.opened = opened → Does outlines st [.visit id] (visit id st)

section Functions

variable {outlines : Dict ScopeId Outline} {opened : List Opened}
  {visit : ScopeId → State → State} {st : State}

theorem followStep_does (hvisit : Follows outlines opened visit) (h : st.opened = opened)
    (step : Outline.Step) :
    Does outlines (startStep st step).1 (startStep st step).2 (followStep visit st step) := by
  cases step with
  | rule error => exact .nothing _
  | member name target => exact (hvisit target (st.enter name) h).append (.cons rfl (.nothing _))
  | collection target =>
    exact (hvisit target (st.enter Path.anyIndex) h).append (.cons rfl (.nothing _))
  | inclusion target => exact hvisit target st h
  | narrowing target =>
    exact (hvisit target { st with narrowings := st.narrowings + 1 } h).append
      (.cons rfl (.nothing _))

theorem followSteps_does (hvisit : Follows outlines opened visit) (h : st.opened = opened)
    (steps : List Outline.Step) :
    Does outlines st [.steps steps] (steps.foldl (followStep visit) st) := by
  induction steps generalizing st with
  | nil => exact .cons rfl (.nothing st)
  | cons step rest ih =>
    have hstep := followStep_does hvisit h step
    have hopened := hstep.opened.trans (opened_startStep step)
    refine .cons (opened_startStep step) ?_
    rw [perform, List.append_nil]
    exact hstep.append (ih (hopened.trans h))

theorem look_does (hvisit : Follows outlines opened visit) (h : st.opened = opened)
    (o : Outline) :
    Does outlines (startLook o st).1 (startLook o st).2 (look visit o st) := by
  unfold startLook look
  cases o.presence with
  | none => exact followSteps_does hvisit h o.steps
  | some policy =>
    cases policy with
    | optional => exact followSteps_does hvisit h o.steps
    | required error =>
      have hnoted : (st.note error).opened = opened := h
      exact followSteps_does hvisit hnoted o.steps
    | forbidden error => exact .nothing _

end Functions

section Visits

variable {outlines : Dict ScopeId Outline} {closed : Nat} {id : ScopeId} {st : State}

/-- A visit looks into its scope: nothing has gone wrong, and the scope is not open. -/
def Opens (outlines : Dict ScopeId Outline) (id : ScopeId) (st : State) (o : Outline) : Prop :=
  st.failure = none ∧ st.opened.find? (·.id = id) = none ∧ outlines.find? id = some o

theorem Opens.openOnce {o : Outline} (h : Opens outlines id st o)
    (honce : OpenOnce outlines st.opened) : OpenOnce outlines (st.openScope id).opened :=
  honce.cons h.2.1 h.2.2

theorem startVisit_of_opens {o : Outline} (h : Opens outlines id st o) :
    startVisit outlines id st =
      ((startLook o (st.openScope id)).1, (startLook o (st.openScope id)).2 ++ [.close]) := by
  obtain ⟨hst, hfind, ho⟩ := h
  rw [startVisit, hst, hfind, ho]
  rfl

theorem visit_of_opens {o : Outline} (h : Opens outlines id st o) :
    visit outlines (closed + 1) id st = st.within id (look (visit outlines closed) o) := by
  obtain ⟨hst, hfind, ho⟩ := h
  unfold visit
  rw [hst, hfind, ho]
  rfl

/-- Otherwise a visit is over at once. -/
theorem startVisit_of_not_opens (closed : Nat) (h : ∀ o, ¬Opens outlines id st o) :
    startVisit outlines id st = (visit outlines closed id st, []) ∧
      (visit outlines closed id st).opened = st.opened := by
  unfold startVisit visit
  cases hst : st.failure with
  | some e => exact ⟨rfl, rfl⟩
  | none =>
    cases hfind : st.opened.find? (·.id = id) with
    | some o => exact ⟨rfl, opened_meet o⟩
    | none =>
      cases ho : outlines.find? id with
      | some o => exact absurd ⟨hst, hfind, ho⟩ (h o)
      | none => cases closed <;> exact ⟨rfl, rfl⟩

theorem visit_does_of_not_opens (h : ∀ o, ¬Opens outlines id st o) :
    Does outlines st [.visit id] (visit outlines closed id st) := by
  obtain ⟨hstart, hopened⟩ := startVisit_of_not_opens closed h
  refine .cons ?_ ?_
  · rw [perform, hstart]
    exact hopened
  · rw [perform, hstart]
    exact .nothing _

/-- A visit that looks into its scope does what its task does, if looking into it does. -/
theorem visit_does_of_opens {o : Outline} (h : Opens outlines id st o)
    (hlook : Does outlines (startLook o (st.openScope id)).1 (startLook o (st.openScope id)).2
      (look (visit outlines closed) o (st.openScope id))) :
    Does outlines st [.visit id] (visit outlines (closed + 1) id st) := by
  have hopened : (look (visit outlines closed) o (st.openScope id)).opened.tail = st.opened := by
    rw [hlook.opened, opened_startLook]
    rfl
  have hperform : perform outlines st (.visit id) =
      ((startLook o (st.openScope id)).1, (startLook o (st.openScope id)).2 ++ [.close]) :=
    startVisit_of_opens h
  rw [visit_of_opens h]
  refine ⟨fun todo => ?_, hopened⟩
  have hnext : Progress.next? outlines ⟨st, [.visit id] ++ todo⟩ =
      some ⟨(startLook o (st.openScope id)).1,
        (startLook o (st.openScope id)).2 ++ .close :: todo⟩ := by
    rw [List.singleton_append, Progress.next?_cons, hperform, List.append_assoc,
      List.singleton_append]
  exact .head hnext ((hlook.reaches (.close :: todo)).tail rfl)

end Visits

/-- A visit does what its task does, if its count is not short of the scopes that are not open. -/
theorem visit_does {outlines : Dict ScopeId Outline} {closed : Nat} {opened : List Opened}
    (honce : OpenOnce outlines opened) (hroom : outlines.size ≤ closed + opened.length) :
    Follows outlines opened (visit outlines closed) := by
  induction closed generalizing opened with
  | zero =>
    rintro id st rfl
    -- All scopes of the table are open.
    refine visit_does_of_not_opens fun o hopens => ?_
    have hle := (hopens.openOnce honce).length_le
    rw [State.openScope, List.length_cons] at hle
    omega
  | succ closed ih =>
    rintro id st rfl
    by_cases hopens : ∃ o, Opens outlines id st o
    · obtain ⟨o, hopens⟩ := hopens
      have hroom' : outlines.size ≤ closed + (st.openScope id).opened.length := by
        rw [State.openScope, List.length_cons]
        omega
      exact visit_does_of_opens hopens (look_does (ih (hopens.openOnce honce) hroom') rfl o)
    · exact visit_does_of_not_opens (not_exists.1 hopens)

/-- The tasks of a survey come to an end, in the state that its walk answers. -/
theorem eval_begin (outlines : Dict ScopeId Outline) (root : ScopeId) :
    StateTransition.eval (Progress.next? outlines) (begin root) =
      Part.some ⟨walk outlines root, []⟩ := by
  have hroom : outlines.size ≤ outlines.size + ([] : List Opened).length := Nat.le_add_right _ _
  have hvisit := visit_does (.nil outlines) hroom
  refine Part.eq_some_iff.2 (StateTransition.mem_eval.2 ⟨?_, rfl⟩)
  exact (hvisit root {} rfl).reaches []

/-- A survey of any table ends, from any root, and the answer is read off the state in which it
ends.  In each state on the way no scope is open twice, only scopes of the table are open, and the
visits that are nested are those of the open scopes, so their nesting never exceeds the number of
scopes. -/
theorem survey_ends (outlines : Dict ScopeId Outline) (root : ScopeId) :
    (∃ last : State,
      StateTransition.eval (Progress.next? outlines) (begin root) = Part.some ⟨last, []⟩ ∧
      ofOutlines outlines root =
        match last.failure with
        | some e => .error e
        | none => .ok (ofState last)) ∧
    ∀ p, StateTransition.Reaches (Progress.next? outlines) (begin root) p →
      (p.state.opened.map (·.id)).Nodup ∧
      (∀ o ∈ p.state.opened, ∃ outline, outlines.find? o.id = some outline) ∧
      p.nesting = p.state.opened.length ∧ p.nesting ≤ outlines.size := by
  refine ⟨⟨walk outlines root, eval_begin outlines root, rfl⟩, fun p hp => ?_⟩
  obtain ⟨honce, hnesting⟩ := (sound_begin outlines root).reaches hp
  refine ⟨honce.nodup, fun o ho => Dict.mem_keys_iff.1 (honce.known o ho), hnesting, ?_⟩
  rw [hnesting]
  exact honce.length_le

/-- Scopes that lead back to themselves, include each other and name one that is not there. -/
def tangled : Dict ScopeId Outline := Dict.ofList
  [(⟨0⟩, ⟨[.member "next" ⟨0⟩, .inclusion ⟨1⟩], none⟩),
   (⟨1⟩, ⟨[.inclusion ⟨0⟩, .collection ⟨7⟩], none⟩)]

/-- The survey has met its root again and is about to follow the steps of the scope that it
includes.  It fails in the end. -/
theorem survey_ends_tangled :
    (∃ last : State,
      StateTransition.eval (Progress.next? tangled) (begin ⟨0⟩) = Part.some ⟨last, []⟩) ∧
    ofOutlines tangled ⟨0⟩ = .error (.inclusionCycle ⟨0⟩ "") ∧
    ∃ p, StateTransition.Reaches (Progress.next? tangled) (begin ⟨0⟩) p ∧
      p.state.recursive = true ∧ p.state.opened.map (·.id) = [⟨1⟩, ⟨0⟩] ∧
      (p.state.opened.map (·.id)).Nodup ∧ p.nesting = 2 ∧ p.nesting ≤ tangled.size := by
  obtain ⟨⟨last, hlast, _⟩, hstates⟩ := survey_ends tangled ⟨0⟩
  have hreaches : StateTransition.Reaches (Progress.next? tangled) (begin ⟨0⟩) _ :=
    .head rfl (.head rfl (.head rfl (.head rfl (.head rfl (.head rfl .refl)))))
  obtain ⟨hnodup, _, hnesting, hle⟩ := hstates _ hreaches
  exact ⟨⟨last, hlast⟩, rfl, _, hreaches, rfl, rfl, hnodup, hnesting, hle⟩

end Rulebook.Survey
