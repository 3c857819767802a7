import Rulebook.Proofs.Findings
import Rulebook.Proofs.SurveyProgress

/-!
# A survey is balanced, and its counters count

A survey tells two visits of a scope apart by two numbers, the depth and the number of narrowings.
It keeps both for each open scope and compares them with what they are when the scope is met
again.  The comparison says something about the steps in between only if the numbers say something
about the steps that are being followed.

These steps are a `chain` of links: each link is a step of the scope that the links around it lead
to, with the steps that are still to be followed behind it.  `Progress.On` says that a survey is
on a chain.  Its stacks are those of the chain, and so is what it has still to do, so the chain
can be read off the list of tasks.  Each task leads from one chain to another
(`On.exists_of_next?`); links are only added and removed at the front.

`visit_place` is about the functions: a visit comes back to the place where it began, whatever it
finds and wherever that is.
-/

namespace Rulebook.Survey

open Rulebook.Path (Segment)

/-! ## Chains -/

/-- A step that is being followed, with the scope that it belongs to and the steps behind it. -/
structure Link where
  id : ScopeId
  step : Outline.Step
  rest : List Outline.Step

/-- The links lead from the root to a scope, the innermost first. -/
inductive LeadsTo (outlines : Dict ScopeId Outline) (root : ScopeId) :
    List Link → ScopeId → Prop where
  | root : LeadsTo outlines root [] root
  | follow {chain : List Link} {link : Link} {o : Outline} {target : ScopeId}
    (h : LeadsTo outlines root chain link.id) (ho : outlines.find? link.id = some o)
    (hsteps : link.step :: link.rest <:+ o.live) (htarget : link.step.target? = some target) :
    LeadsTo outlines root (link :: chain) target

/-- How many of the steps go down: those by a member or a collection. -/
def downs (chain : List Link) : Nat := chain.countP fun link => link.step.segment?.isSome

/-- How many of the steps are narrowings. -/
def narrowingsOf : List Link → Nat
  | [] => 0
  | link :: outer => narrowingsOf outer + link.step.narrowings

/-- The shapes to which the steps lead. -/
def trailOf : List Link → List String
  | [] => []
  | link :: outer =>
    match link.step.segment? with
    | some s => Path.join ((trailOf outer).headD "") s.text :: trailOf outer
    | none => trailOf outer

/-- The scopes of the steps, each with the numbers of the steps that lead to it. -/
def openedOf : List Link → List Opened
  | [] => []
  | link :: outer => ⟨link.id, downs outer, narrowingsOf outer⟩ :: openedOf outer

@[simp] theorem length_trailOf (chain : List Link) : (trailOf chain).length = downs chain := by
  induction chain with
  | nil => rfl
  | cons link outer ih =>
    rw [trailOf, downs, List.countP_cons, ← downs, ← ih]
    cases link.step.segment? <;> rfl

/-! ## Places -/

/-- Where a survey is: its stacks, and how many narrowings lie between the root and there. -/
structure Place where
  trail : List String
  opened : List Opened
  narrowings : Nat

/-- The place of a survey. -/
def State.place (st : State) : Place := ⟨st.trail, st.opened, st.narrowings⟩

/-- The place that a chain leads to. -/
def placeOf (chain : List Link) : Place := ⟨trailOf chain, openedOf chain, narrowingsOf chain⟩

/-- The same place, with a scope open there. -/
def insideOf (chain : List Link) (id : ScopeId) : Place :=
  ⟨trailOf chain, ⟨id, downs chain, narrowingsOf chain⟩ :: openedOf chain, narrowingsOf chain⟩

/-- What a step leaves to be done when its visit is over. -/
def back : Outline.Step → List Task
  | .member _ _ | .collection _ => [.leave]
  | .narrowing _ => [.widen]
  | .rule _ | .inclusion _ => []

/-- What is to be done behind a chain. -/
def behind : List Link → List Task
  | [] => []
  | link :: outer => back link.step ++ .steps link.rest :: .close :: behind outer

section Places

variable {st : State}

theorem place_meet (o : Opened) : (st.meet o).place = st.place := by
  rw [State.meet]
  split <;> rfl

section Back

variable {trail : List String} {opened : List Opened} {narrowings : Nat}

theorem place_leave {shape : String} (h : st.place = ⟨shape :: trail, opened, narrowings⟩) :
    st.leave.place = ⟨trail, opened, narrowings⟩ := by
  obtain ⟨htrail, hopened, hnarrowings⟩ := Place.mk.inj h
  rw [State.leave, State.place, htrail, hopened, hnarrowings, List.tail_cons]

theorem place_widen (h : st.place = ⟨trail, opened, narrowings + 1⟩) :
    State.place { st with narrowings := st.narrowings - 1 } = ⟨trail, opened, narrowings⟩ := by
  obtain ⟨htrail, hopened, hnarrowings⟩ := Place.mk.inj h
  rw [State.place, htrail, hopened, hnarrowings, Nat.add_sub_cancel]

theorem place_close {o : Opened} (h : st.place = ⟨trail, o :: opened, narrowings⟩) :
    State.place { st with opened := st.opened.tail } = ⟨trail, opened, narrowings⟩ := by
  obtain ⟨htrail, hopened, hnarrowings⟩ := Place.mk.inj h
  rw [State.place, htrail, hopened, hnarrowings, List.tail_cons]

end Back

theorem place_startLook (o : Outline) : (startLook o st).1.place = st.place := by
  rw [startLook]
  split <;> rfl

theorem todo_startLook (o : Outline) (st : State) :
    (startLook o st).2 = [] ∨ (startLook o st).2 = [.steps o.live] := by
  unfold startLook Outline.live
  cases o.presence with
  | none => exact .inr rfl
  | some policy =>
    cases policy with
    | forbidden error => exact .inl rfl
    | optional | required error => exact .inr rfl

/-- A visit is over at once, at the same place, or it looks into its scope. -/
theorem startVisit_cases (outlines : Dict ScopeId Outline) (id : ScopeId) (st : State) :
    (∃ st', startVisit outlines id st = (st', []) ∧ st'.place = st.place) ∨
      ∃ o, Opens outlines id st o := by
  unfold startVisit
  cases hst : st.failure with
  | some e => exact .inl ⟨st, rfl, rfl⟩
  | none =>
    cases hfind : st.opened.find? (·.id = id) with
    | some o => exact .inl ⟨st.meet o, rfl, place_meet o⟩
    | none =>
      cases ho : outlines.find? id with
      | none => exact .inl ⟨st.fail (.undefinedScope id), rfl, rfl⟩
      | some o => exact .inr ⟨o, hst, hfind, ho⟩

theorem todo_startStep {step : Outline.Step} {target : ScopeId}
    (h : step.target? = some target) : (startStep st step).2 = .visit target :: back step := by
  cases step with
  | rule error => exact nomatch h
  | member | collection | inclusion | narrowing =>
    obtain rfl := Option.some.inj h
    rfl

end Places

/-! ## Surveys on a chain -/

/-- A survey is on a chain: it is where the chain leads, before or after the visit there, or
inside the scope to which the chain leads. -/
inductive Progress.On (outlines : Dict ScopeId Outline) (root : ScopeId) :
    List Link → Progress → Prop where
  | arriving {chain : List Link} {id : ScopeId} {st : State}
    (h : LeadsTo outlines root chain id) (hst : st.place = placeOf chain) :
    On outlines root chain ⟨st, .visit id :: behind chain⟩
  | inside {chain : List Link} {id : ScopeId} {o : Outline} {st : State}
    {steps : List Outline.Step} (h : LeadsTo outlines root chain id)
    (ho : outlines.find? id = some o) (hsteps : steps <:+ o.live)
    (hst : st.place = insideOf chain id) :
    On outlines root chain ⟨st, .steps steps :: .close :: behind chain⟩
  | closing {chain : List Link} {id : ScopeId} {st : State}
    (h : LeadsTo outlines root chain id) (hst : st.place = insideOf chain id) :
    On outlines root chain ⟨st, .close :: behind chain⟩
  | back {chain : List Link} {id : ScopeId} {st : State}
    (h : LeadsTo outlines root chain id) (hst : st.place = placeOf chain) :
    On outlines root chain ⟨st, behind chain⟩

namespace Progress.On

variable {outlines : Dict ScopeId Outline} {root id : ScopeId} {chain : List Link} {o : Outline}
  {st : State} {steps : List Outline.Step} {p q : Progress}

theorem place_openScope (hst : st.place = placeOf chain) :
    (st.openScope id).place = insideOf chain id := by
  obtain ⟨htrail, hopened, hnarrowings⟩ := Place.mk.inj hst
  rw [State.place, State.openScope, State.depth, insideOf, htrail, hopened, hnarrowings,
    length_trailOf]

/-- Following a step leads to the place of its link. -/
theorem place_startStep (hst : st.place = insideOf chain id) {step : Outline.Step}
    {target : ScopeId} (htarget : step.target? = some target) (rest : List Outline.Step) :
    (startStep st step).1.place = placeOf (⟨id, step, rest⟩ :: chain) := by
  obtain ⟨htrail, hopened, hnarrowings⟩ := Place.mk.inj hst
  have hplace : (startStep st step).1.place =
      ⟨match step.segment? with
        | some s => Path.join (st.trail.headD "") s.text :: st.trail
        | none => st.trail, st.opened, st.narrowings + step.narrowings⟩ := by
    cases step with
    | rule error => exact nomatch htarget
    | member | collection | inclusion | narrowing => rfl
  rw [hplace, htrail, hopened, hnarrowings]
  rfl

/-- Inside a scope a survey follows the next step, or is done with it. -/
theorem exists_of_inside (h : LeadsTo outlines root chain id) (ho : outlines.find? id = some o)
    (hsteps : steps <:+ o.live) (hst : st.place = insideOf chain id)
    (hnext : next? outlines ⟨st, .steps steps :: .close :: behind chain⟩ = some q) :
    ∃ chain', q.On outlines root chain' := by
  cases steps with
  | nil =>
    obtain rfl := Option.some.inj hnext
    exact ⟨chain, .closing h hst⟩
  | cons step rest =>
    rw [next?_cons, perform] at hnext
    cases htarget : step.target? with
    | none =>
      cases step with
      | rule error =>
        obtain rfl := Option.some.inj hnext
        exact ⟨chain, .inside h ho ((List.suffix_cons _ _).trans hsteps) hst⟩
      | member | collection | inclusion | narrowing => cases htarget
    | some target =>
      obtain rfl := Option.some.inj hnext
      rw [todo_startStep htarget]
      refine ⟨⟨id, step, rest⟩ :: chain, ?_⟩
      have hon := On.arriving (.follow h ho hsteps htarget) (place_startStep hst htarget rest)
      simpa [behind] using hon

/-- Back from a visit a survey undoes the step that led there, or is done. -/
theorem exists_of_back (h : LeadsTo outlines root chain id) (hst : st.place = placeOf chain)
    (hnext : next? outlines ⟨st, behind chain⟩ = some q) :
    ∃ chain', q.On outlines root chain' := by
  cases h with
  | root => exact nomatch hnext
  | @follow outer link o _ h ho hsteps htarget =>
    obtain ⟨linkId, step, rest⟩ := link
    have hrest : rest <:+ o.live := (List.suffix_cons _ _).trans hsteps
    cases step with
    | rule error => exact nomatch htarget
    | member | collection =>
      obtain rfl := Option.some.inj hnext
      exact ⟨outer, .inside h ho hrest (place_leave hst)⟩
    | inclusion target => exact exists_of_inside h ho hrest hst hnext
    | narrowing target =>
      obtain rfl := Option.some.inj hnext
      exact ⟨outer, .inside h ho hrest (place_widen hst)⟩

/-- Each task leads from one chain to another. -/
theorem exists_of_next? (h : p.On outlines root chain) (hnext : p.next? outlines = some q) :
    ∃ chain', q.On outlines root chain' := by
  cases h with
  | @arriving id st h hst =>
    rw [next?_cons, perform] at hnext
    obtain rfl := Option.some.inj hnext
    rcases startVisit_cases outlines id st with ⟨st', hstart, hplace⟩ | ⟨o, hopens⟩
    · rw [hstart]
      exact ⟨chain, .back h (hplace.trans hst)⟩
    · have hplace : (startLook o (st.openScope id)).1.place = insideOf chain id :=
        (place_startLook o).trans (place_openScope hst)
      rw [startVisit_of_opens hopens]
      rcases todo_startLook o (st.openScope id) with htodo | htodo
      · rw [htodo]
        exact ⟨chain, .closing h hplace⟩
      · rw [htodo]
        exact ⟨chain, .inside h hopens.2.2 (List.suffix_refl _) hplace⟩
  | inside h ho hsteps hst => exact exists_of_inside h ho hsteps hst hnext
  | @closing id st h hst =>
    obtain rfl := Option.some.inj hnext
    exact ⟨chain, .back h (place_close hst)⟩
  | back h hst => exact exists_of_back h hst hnext

theorem exists_of_reaches (h : StateTransition.Reaches (Progress.next? outlines) (begin root) p) :
    ∃ chain, p.On outlines root chain := by
  induction h with
  | refl => exact ⟨[], .arriving .root rfl⟩
  | tail _ hnext ih =>
    obtain ⟨chain, hon⟩ := ih
    exact hon.exists_of_next? hnext

/-- The counters are the numbers of steps. -/
theorem counters (h : p.On outlines root chain) :
    p.state.depth = downs chain ∧ p.state.narrowings = narrowingsOf chain := by
  cases h with
  | arriving _ hst | inside _ _ _ hst | closing _ hst | back _ hst =>
    obtain ⟨htrail, _, hnarrowings⟩ := Place.mk.inj hst
    exact ⟨by rw [State.depth, htrail, length_trailOf], hnarrowings⟩

/-- What is to be undone first has been done by the innermost link. -/
theorem exists_link (h : p.On outlines root chain) {task : Task} {rest : List Task}
    (htodo : p.todo = task :: rest) (htask : task = .leave ∨ task = .widen) :
    ∃ link outer, chain = link :: outer ∧ task ∈ Survey.back link.step ∧
      p.state.place = placeOf chain := by
  cases h with
  | arriving | inside | closing =>
    obtain ⟨rfl, _⟩ := List.cons.inj htodo
    rcases htask with htask | htask <;> exact nomatch htask
  | back _ hst =>
    cases chain with
    | nil => exact nomatch htodo
    | cons link outer =>
      refine ⟨link, outer, rfl, ?_, hst⟩
      rw [behind] at htodo
      cases hback : Survey.back link.step with
      | nil =>
        rw [hback] at htodo
        obtain ⟨rfl, _⟩ := List.cons.inj htodo
        rcases htask with htask | htask <;> exact nomatch htask
      | cons first more =>
        rw [hback] at htodo
        obtain ⟨rfl, _⟩ := List.cons.inj htodo
        exact List.mem_cons_self

end Progress.On

/-! ## Scopes and when they were opened -/

section History

variable {outlines : Dict ScopeId Outline} {root : ScopeId}

theorem opened_startVisit (outlines : Dict ScopeId Outline) (id : ScopeId) (st : State) :
    (startVisit outlines id st).1.opened = st.opened ∨
      (startVisit outlines id st).1.opened = ⟨id, st.depth, st.narrowings⟩ :: st.opened := by
  rcases startVisit_cases outlines id st with ⟨st', hstart, hplace⟩ | ⟨o, hopens⟩
  · rw [hstart]
    exact .inl (congrArg Place.opened hplace)
  · rw [startVisit_of_opens hopens, opened_startLook]
    exact .inr rfl

/-- A task opens its scope with the numbers as they are, or closes a scope, or does neither. -/
theorem opened_perform (outlines : Dict ScopeId Outline) (st : State) (task : Task) :
    (perform outlines st task).1.opened = st.opened ∨
      (perform outlines st task).1.opened = st.opened.tail ∨
      ∃ id, task = .visit id ∧
        (perform outlines st task).1.opened = ⟨id, st.depth, st.narrowings⟩ :: st.opened := by
  cases task with
  | visit id =>
    rcases opened_startVisit outlines id st with hsame | hopened
    · exact .inl hsame
    · exact .inr (.inr ⟨id, rfl, hopened⟩)
  | steps steps =>
    cases steps with
    | nil => exact .inl rfl
    | cons step rest => exact .inl (opened_startStep step)
  | leave => exact .inl rfl
  | widen => exact .inl rfl
  | close => exact .inr (.inl rfl)

/-- The state in which a scope was opened: its visit was next, the scopes below it were open, and
the numbers were those that are kept. -/
structure Progress.Opening (outlines : Dict ScopeId Outline) (root : ScopeId) (o : Opened)
    (below : List Opened) (p q : Progress) : Prop where
  reached : StateTransition.Reaches (Progress.next? outlines) (begin root) q
  reaches : StateTransition.Reaches (Progress.next? outlines) q p
  next : q.todo.head? = some (.visit o.id)
  opened : q.state.opened = below
  depth : q.state.depth = o.depth
  narrowings : q.state.narrowings = o.narrowings

theorem exists_opening {p : Progress} {above below : List Opened} {o : Opened}
    (h : StateTransition.Reaches (Progress.next? outlines) (begin root) p)
    (hopened : p.state.opened = above ++ o :: below) :
    ∃ q, Progress.Opening outlines root o below p q := by
  induction h generalizing above with
  | refl => simp [begin] at hopened
  | @tail p p' hreached hnext ih =>
    have earlier {above : List Opened} (h : p.state.opened = above ++ o :: below) :
        ∃ q, Progress.Opening outlines root o below p' q := by
      obtain ⟨q, hq⟩ := ih h
      exact ⟨q, { hq with reaches := hq.reaches.tail hnext }⟩
    obtain ⟨st, todo⟩ := p
    cases todo with
    | nil => exact nomatch hnext
    | cons task rest =>
      obtain rfl := Option.some.inj hnext
      rcases opened_perform outlines st task with hsame | htail | ⟨id, rfl, hcons⟩
      · exact earlier (hsame.symm.trans hopened)
      · rw [htail] at hopened
        cases hst : st.opened with
        | nil => simp [hst] at hopened
        | cons first more =>
          rw [hst, List.tail_cons] at hopened
          have hbefore : st.opened = (first :: above) ++ o :: below := by
            rw [hst, hopened, List.cons_append]
          exact earlier hbefore
      · rw [hcons] at hopened
        cases above with
        | nil =>
          obtain ⟨rfl, rfl⟩ := List.cons.inj hopened
          exact ⟨_, hreached, .single rfl, rfl, rfl, rfl, rfl⟩
        | cons first above => exact earlier (List.cons.inj hopened).2

end History

/-! ## Visits come back -/

theorem followStep_place {visit : ScopeId → State → State}
    (hvisit : ∀ id st, (visit id st).place = st.place) (st : State) (step : Outline.Step) :
    (followStep visit st step).place = st.place := by
  cases step with
  | rule error => rfl
  | member name target => exact place_leave (hvisit target (st.enter name))
  | collection target => exact place_leave (hvisit target (st.enter Path.anyIndex))
  | inclusion target => exact hvisit target st
  | narrowing target =>
    exact place_widen (hvisit target { st with narrowings := st.narrowings + 1 })

theorem followSteps_place {visit : ScopeId → State → State}
    (hvisit : ∀ id st, (visit id st).place = st.place) (steps : List Outline.Step) (st : State) :
    (steps.foldl (followStep visit) st).place = st.place := by
  induction steps generalizing st with
  | nil => rfl
  | cons step rest ih =>
    rw [List.foldl_cons, ih]
    exact followStep_place hvisit st step

theorem look_place {visit : ScopeId → State → State}
    (hvisit : ∀ id st, (visit id st).place = st.place) (o : Outline) (st : State) :
    (look visit o st).place = st.place := by
  unfold look
  split
  · rfl
  · exact followSteps_place hvisit o.steps _
  · exact followSteps_place hvisit o.steps st

theorem visit_place_of_not_opens {outlines : Dict ScopeId Outline} {id : ScopeId} {st : State}
    (closed : Nat) (h : ∀ o, ¬Opens outlines id st o) :
    (visit outlines closed id st).place = st.place := by
  rcases startVisit_cases outlines id st with ⟨st', hstart, hplace⟩ | ⟨o, hopens⟩
  · rw [(startVisit_of_not_opens closed h).1] at hstart
    rw [(Prod.mk.inj hstart).1, hplace]
  · exact absurd hopens (h o)

/-- A visit comes back to the place where it began, whatever it finds there. -/
theorem visit_place (outlines : Dict ScopeId Outline) (closed : Nat) (id : ScopeId) (st : State) :
    (visit outlines closed id st).place = st.place := by
  induction closed generalizing id st with
  | zero =>
    by_cases hopens : ∃ o, Opens outlines id st o
    · obtain ⟨o, hst, hfind, ho⟩ := hopens
      unfold visit
      rw [hst, hfind, ho]
      rfl
    · exact visit_place_of_not_opens 0 (not_exists.1 hopens)
  | succ closed ih =>
    by_cases hopens : ∃ o, Opens outlines id st o
    · obtain ⟨o, hopens⟩ := hopens
      rw [visit_of_opens hopens]
      exact place_close (look_place ih o (st.openScope id))
    · exact visit_place_of_not_opens (closed + 1) (not_exists.1 hopens)

/-! ## What a survey keeps -/

/-- What holds wherever a survey has come to. -/
structure Progress.Balanced (outlines : Dict ScopeId Outline) (root : ScopeId) (p : Progress) :
    Prop where
  /-- The survey is on a chain of steps from the root.  The depth is the number of its members and
  collections, and the other counter is the number of its narrowings. -/
  chain : ∃ chain, p.On outlines root chain ∧ p.state.depth = downs chain ∧
    p.state.narrowings = narrowingsOf chain
  /-- The shape that is left is the one that the innermost step has led to. -/
  leave : ∀ rest, p.todo = .leave :: rest → ∃ link outer s, p.On outlines root (link :: outer) ∧
    link.step.segment? = some s ∧
    p.state.trail = Path.join ((trailOf outer).headD "") s.text :: trailOf outer
  /-- There is a narrowing to go back from. -/
  widen : ∀ rest, p.todo = .widen :: rest → p.state.narrowings ≠ 0
  /-- With each open scope the counters are kept as they were when it was opened. -/
  opened : ∀ above o below, p.state.opened = above ++ o :: below →
    ∃ q, Progress.Opening outlines root o below p q
  /-- A visit that is next comes back to the place where the survey is, in the state that the
  function answers, and the survey goes on with what is behind it. -/
  visit : ∀ id rest, p.todo = .visit id :: rest →
    (Survey.visit outlines outlines.size id p.state).place = p.state.place ∧
    StateTransition.Reaches (Progress.next? outlines) p
      ⟨Survey.visit outlines outlines.size id p.state, rest⟩

theorem balanced_of_reaches {outlines : Dict ScopeId Outline} {root : ScopeId} {p : Progress}
    (h : StateTransition.Reaches (Progress.next? outlines) (begin root) p) :
    p.Balanced outlines root := by
  obtain ⟨chain, hon⟩ := Progress.On.exists_of_reaches h
  constructor
  case chain => exact ⟨chain, hon, hon.counters⟩
  case leave =>
    intro rest htodo
    obtain ⟨⟨id, step, steps⟩, outer, rfl, hback, hst⟩ := hon.exists_link htodo (.inl rfl)
    obtain ⟨htrail, _⟩ := Place.mk.inj hst
    cases step with
    | member name target => exact ⟨_, outer, .member name, hon, rfl, htrail⟩
    | collection target => exact ⟨_, outer, .anyIndex, hon, rfl, htrail⟩
    | rule | inclusion | narrowing => simp [back] at hback
  case widen =>
    intro rest htodo
    obtain ⟨⟨id, step, steps⟩, outer, rfl, hback, hst⟩ := hon.exists_link htodo (.inr rfl)
    obtain ⟨_, _, hnarrowings⟩ := Place.mk.inj hst
    cases step with
    | narrowing target =>
      rw [hnarrowings]
      exact Nat.succ_ne_zero _
    | rule | inclusion | member | collection => simp [back] at hback
  case opened => exact fun above o below hopened => exists_opening h hopened
  case visit =>
    intro id rest htodo
    obtain ⟨st, todo⟩ := p
    subst htodo
    have honce := ((sound_begin outlines root).reaches h).openOnce
    have hvisit := visit_does honce (Nat.le_add_right outlines.size _) id st rfl
    exact ⟨visit_place outlines outlines.size id st, hvisit.reaches rest⟩

/-- A survey of any table, from any root, is balanced.  Visits come back to the place where they
began, also when something has gone wrong.  In each state on the way the depth is the number of
members and collections among the steps that are being followed, and the other counter is the
number of narrowings among them.  With each open scope both are kept as they were when it was
opened, and what is left or gone back from has been entered. -/
theorem surveys_are_balanced (outlines : Dict ScopeId Outline) (root : ScopeId) :
    StateTransition.eval (Progress.next? outlines) (begin root) =
      Part.some ⟨walk outlines root, []⟩ ∧
    (∀ closed id st, (visit outlines closed id st).place = st.place) ∧
    ∀ p, StateTransition.Reaches (Progress.next? outlines) (begin root) p →
      p.Balanced outlines root :=
  ⟨eval_begin outlines root, visit_place outlines, fun _ hp => balanced_of_reaches hp⟩

/-- Elements that are narrowed to what includes the element, and itself, and holds the whole. -/
def winding : Dict ScopeId Outline := Dict.ofList
  [(⟨0⟩, ⟨[.collection ⟨1⟩], none⟩), (⟨1⟩, ⟨[.narrowing ⟨2⟩], none⟩),
   (⟨2⟩, ⟨[.inclusion ⟨1⟩, .inclusion ⟨2⟩, .member "whole" ⟨0⟩], none⟩)]

/-- The survey has failed, as a scope includes itself, and goes on to visit the whole. -/
theorem surveys_are_balanced_winding :
    ∃ p, StateTransition.Reaches (Progress.next? winding) (begin ⟨0⟩) p ∧
      p.todo.head? = some (.visit ⟨0⟩) ∧
      p.state.failure = some (.inclusionCycle ⟨2⟩ "[#]") ∧ p.state.recursive = true ∧
      p.state.opened = [⟨⟨2⟩, 1, 1⟩, ⟨⟨1⟩, 1, 0⟩, ⟨⟨0⟩, 0, 0⟩] ∧
      p.state.depth = 2 ∧ p.state.narrowings = 1 ∧
      (visit winding winding.size ⟨0⟩ p.state).place = p.state.place ∧
      p.Balanced winding ⟨0⟩ := by
  obtain ⟨_, hplace, hbalanced⟩ := surveys_are_balanced winding ⟨0⟩
  have hreaches : StateTransition.Reaches (Progress.next? winding) (begin ⟨0⟩) _ :=
    .head rfl (.head rfl (.head rfl (.head rfl (.head rfl (.head rfl (.head rfl (.head rfl
      (.head rfl (.head rfl .refl)))))))))
  exact ⟨_, hreaches, rfl, rfl, rfl, rfl, rfl, rfl, hplace winding.size ⟨0⟩ _,
    hbalanced _ hreaches⟩

end Rulebook.Survey
