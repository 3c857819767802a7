import Rulebook.Proofs.Visits

/-!
# A walk task by task

`Walk.visit` says what becomes of a walk in the end.  Here the walk goes on by single tasks, and
what is still to be done after a task is on a list, so that one can speak of each state in
between, also where the walk has no end.

`perform` does one task and says what it leaves to be done; it has no bound for the nesting and
calls nothing.  A step that enters a node leaves the task to go back from there, with the segment
that led to it, so the list also tells at which node the walk is (`Progress.segments`).

`Performs` lists what a task can do, with what each case depends on, and `performs` says that
there is nothing else.  An invariant of walks follows from one look at the cases.

`visit_does` compares a visit with its task: where a visit ends, its task is done some time later,
with the same walk; where it uses up its bound, its task takes at least as many tasks as the
bound.  Hence a run ends if and only if its tasks come to an end, and in the same walk
(`exists_walk?_iff`).
-/

namespace Rulebook.Walk

open Rulebook.Path (Segment)

variable {M : ModelSpace} {k : M.Kind}

/-- What a walk has to do at a time. -/
inductive Task (M : ModelSpace) where
  /-- To visit the scope of an identifier with a value. -/
  | visit (approach : Approach) (id : ScopeId) (k : M.Kind) (value : Option (M.Value k))
  /-- To check a value with a scope. -/
  | check (k : M.Kind) (scope : Scope M k) (value : Option (M.Value k))
  /-- To take the first of the steps, and then the others. -/
  | steps (k : M.Kind) (v : M.Value k) (steps : List (Step M k))
  /-- To take the steps that are left, unless the scope has been stopped. -/
  | furtherSteps (k : M.Kind) (v : M.Value k) (steps : List (Step M k))
  /-- To visit the first of the elements, and then the others, counting from `index`. -/
  | elements (id : ScopeId) (k : M.Kind) (index : Nat) (elements : List (Option (M.Value k)))
  /-- To visit the elements that are left, unless the walk has stopped for good. -/
  | furtherElements (id : ScopeId) (k : M.Kind) (index : Nat)
    (elements : List (Option (M.Value k)))
  /-- To leave the node that a segment led to. -/
  | leave (segment : Segment)
  /-- To forget a broken presence. -/
  | goOn
  /-- To close the node that was opened last. -/
  | close

/-- The beginning of a step, and what it leaves to be done. -/
def startStep (c : Course M) (v : M.Value k) (w : Walk M) : Step M k → Walk M × List (Task M)
  | .rule error test => (if test v then w else w.record c.options error, [])
  | .member name target kind get =>
    (w.enter c.paths name,
      [.visit .entering target kind (get v), .leave (.member name), .goOn])
  | .collection target kind elements => (w, [.elements target kind 0 (elements v)])
  | .inclusion target => (w, [.visit .staying target k (some v)])
  | .narrowing target kind view =>
    match view v with
    | some u => (w, [.visit .entering target kind (some u)])
    | none => (w, [])

/-- The beginning of a check, and what it leaves to be done. -/
def startCheck (c : Course M) (scope : Scope M k) (value : Option (M.Value k)) (w : Walk M) :
    Walk M × List (Task M) :=
  match scope.presence, value with
  | some (.required error), none => (w.breach c.options error, [])
  | some (.forbidden error), some _ => (w.breach c.options error, [])
  | _, none => (w, [])
  | _, some v => (w, [.steps k v scope.steps])

/-- The beginning of a visit, and what it leaves to be done. -/
def startVisit (c : Course M) (approach : Approach) (id : ScopeId) (k : M.Kind)
    (value : Option (M.Value k)) (w : Walk M) : Walk M × List (Task M) :=
  match c.scopes.typed? id k with
  | none => ({ w with missed := w.missed ++ [(id, k)] }, [])
  | some scope =>
    match approach, c.options.guardLoops, value with
    | .entering, true, some v =>
      if w.opened.contains (M.nodeOf v) then (w, [])
      else ({ w with opened := M.nodeOf v :: w.opened }, [.check k scope value, .close])
    | _, _, _ => (w, [.check k scope value])

/-- Back from the node that a segment led to. -/
def back (w : Walk M) : Segment → Walk M
  | .member _ => w.leave
  | _ => w.leaveIndex

/-- What becomes of a walk by a task, and what the task leaves to be done. -/
def perform (c : Course M) (w : Walk M) : Task M → Walk M × List (Task M)
  | .visit approach id k value => startVisit c approach id k value w
  | .check _ scope value => startCheck c scope value w
  | .steps _ _ [] => (w, [])
  | .steps k v (step :: rest) =>
    ((startStep c v w step).1, (startStep c v w step).2 ++ [.furtherSteps k v rest])
  | .furtherSteps k v rest => (w, if w.stops then [] else [.steps k v rest])
  | .elements _ _ _ [] => (w, [])
  | .elements id k index (e :: rest) =>
    (w.enterIndex c.paths index,
      [.visit .entering id k e, .leave (.index index), .goOn,
        .furtherElements id k (index + 1) rest])
  | .furtherElements id k index rest =>
    (w, if w.halted then [] else [.elements id k index rest])
  | .leave segment => (w.back segment, [])
  | .goOn => (w.goOn, [])
  | .close => ({ w with opened := w.opened.tail }, [])

/-- What a task can do: the cases of `perform`, with what each depends on. -/
inductive Performs (c : Course M) (w : Walk M) : Task M → Walk M × List (Task M) → Prop
  | miss {k : M.Kind} {approach : Approach} {id : ScopeId} {value : Option (M.Value k)}
      (hscope : c.scopes.typed? id k = none) :
      Performs c w (.visit approach id k value) ({ w with missed := w.missed ++ [(id, k)] }, [])
  | look {k : M.Kind} {approach : Approach} {id : ScopeId} {value : Option (M.Value k)}
      {scope : Scope M k} (hscope : c.scopes.typed? id k = some scope) :
      Performs c w (.visit approach id k value) (w, [.check k scope value])
  | openNode {k : M.Kind} {id : ScopeId} {v : M.Value k} {scope : Scope M k}
      (hscope : c.scopes.typed? id k = some scope) (hguard : c.options.guardLoops = true)
      (hclosed : M.nodeOf v ∉ w.opened) :
      Performs c w (.visit .entering id k (some v))
        ({ w with opened := M.nodeOf v :: w.opened }, [.check k scope (some v), .close])
  | passOver {k : M.Kind} {id : ScopeId} {v : M.Value k} (hguard : c.options.guardLoops = true)
      (hopen : M.nodeOf v ∈ w.opened) : Performs c w (.visit .entering id k (some v)) (w, [])
  | breach {k : M.Kind} {scope : Scope M k} {value : Option (M.Value k)} {error : ErrorId}
      (hpresence : scope.presence = some (.required error) ∧ value = none ∨
        scope.presence = some (.forbidden error) ∧ value ≠ none) :
      Performs c w (.check k scope value) (w.breach c.options error, [])
  | absent {k : M.Kind} {scope : Scope M k} : Performs c w (.check k scope none) (w, [])
  | begin {k : M.Kind} {scope : Scope M k} {v : M.Value k}
      (hpresence : ∀ error, scope.presence ≠ some (.forbidden error)) :
      Performs c w (.check k scope (some v)) (w, [.steps k v scope.steps])
  | noSteps {k : M.Kind} {v : M.Value k} : Performs c w (.steps k v []) (w, [])
  | hold {k : M.Kind} {v : M.Value k} {rest : List (Step M k)} {error : ErrorId}
      {test : M.Value k → Bool} (htest : test v = true) :
      Performs c w (.steps k v (.rule error test :: rest)) (w, [.furtherSteps k v rest])
  | fail {k : M.Kind} {v : M.Value k} {rest : List (Step M k)} {error : ErrorId}
      {test : M.Value k → Bool} (htest : test v = false) :
      Performs c w (.steps k v (.rule error test :: rest))
        (w.record c.options error, [.furtherSteps k v rest])
  | member {k kind : M.Kind} {v : M.Value k} {rest : List (Step M k)} {name : String}
      {target : ScopeId} {get : M.Value k → Option (M.Value kind)} :
      Performs c w (.steps k v (.member name target kind get :: rest))
        (w.enter c.paths name,
          [.visit .entering target kind (get v), .leave (.member name), .goOn,
          .furtherSteps k v rest])
  | collection {k kind : M.Kind} {v : M.Value k} {rest : List (Step M k)} {target : ScopeId}
      {elements : M.Value k → List (Option (M.Value kind))} :
      Performs c w (.steps k v (.collection target kind elements :: rest))
        (w, [.elements target kind 0 (elements v), .furtherSteps k v rest])
  | inclusion {k : M.Kind} {v : M.Value k} {rest : List (Step M k)} {target : ScopeId} :
      Performs c w (.steps k v (.inclusion target :: rest))
        (w, [.visit .staying target k (some v), .furtherSteps k v rest])
  | narrow {k kind : M.Kind} {v : M.Value k} {rest : List (Step M k)} {target : ScopeId}
      {view : M.Value k → Option (M.Value kind)} {u : M.Value kind} (hview : view v = some u) :
      Performs c w (.steps k v (.narrowing target kind view :: rest))
        (w, [.visit .entering target kind (some u), .furtherSteps k v rest])
  | skip {k kind : M.Kind} {v : M.Value k} {rest : List (Step M k)} {target : ScopeId}
      {view : M.Value k → Option (M.Value kind)} (hview : view v = none) :
      Performs c w (.steps k v (.narrowing target kind view :: rest))
        (w, [.furtherSteps k v rest])
  | stop {k : M.Kind} {v : M.Value k} {rest : List (Step M k)} (hstops : w.stops = true) :
      Performs c w (.furtherSteps k v rest) (w, [])
  | nextStep {k : M.Kind} {v : M.Value k} {rest : List (Step M k)} (hstops : w.stops = false) :
      Performs c w (.furtherSteps k v rest) (w, [.steps k v rest])
  | noElements {k : M.Kind} {id : ScopeId} {index : Nat} :
      Performs c w (.elements id k index []) (w, [])
  | element {k : M.Kind} {id : ScopeId} {index : Nat} {e : Option (M.Value k)}
      {rest : List (Option (M.Value k))} :
      Performs c w (.elements id k index (e :: rest))
        (w.enterIndex c.paths index, [.visit .entering id k e, .leave (.index index), .goOn,
          .furtherElements id k (index + 1) rest])
  | halt {k : M.Kind} {id : ScopeId} {index : Nat} {rest : List (Option (M.Value k))}
      (hhalted : w.halted = true) : Performs c w (.furtherElements id k index rest) (w, [])
  | nextElement {k : M.Kind} {id : ScopeId} {index : Nat} {rest : List (Option (M.Value k))}
      (hhalted : w.halted = false) :
      Performs c w (.furtherElements id k index rest) (w, [.elements id k index rest])
  | leave {segment : Segment} : Performs c w (.leave segment) (w.back segment, [])
  | goOn : Performs c w .goOn (w.goOn, [])
  | close : Performs c w .close ({ w with opened := w.opened.tail }, [])

/-- What becomes of a task is one of the cases. -/
theorem performs (c : Course M) (w : Walk M) (task : Task M) :
    Performs c w task (perform c w task) := by
  cases task with
  | visit approach id k value =>
    rw [perform, startVisit]
    cases hscope : c.scopes.typed? id k with
    | none => exact .miss hscope
    | some scope =>
      dsimp only
      split
      · rename_i hguard
        split
        · rename_i hopen
          exact .passOver hguard (List.contains_iff_mem.1 hopen)
        · rename_i hclosed
          exact .openNode hscope hguard (mt List.contains_iff_mem.2 hclosed)
      · exact .look hscope
  | check k scope value =>
    rw [perform]
    unfold startCheck
    split
    · rename_i hpresence
      exact .breach (.inl ⟨hpresence, rfl⟩)
    · rename_i hpresence
      exact .breach (.inr ⟨hpresence, Option.some_ne_none _⟩)
    · exact .absent
    · rename_i hpresence
      exact .begin hpresence
  | steps k v steps =>
    cases steps with
    | nil => exact .noSteps
    | cons step rest =>
      cases step with
      | rule error test =>
        rw [perform, startStep]
        cases htest : test v with
        | true => exact .hold htest
        | false => exact .fail htest
      | member name target kind get => exact .member
      | collection target kind elements => exact .collection
      | inclusion target => exact .inclusion
      | narrowing target kind view =>
        rw [perform, startStep]
        cases hview : view v with
        | none => exact .skip hview
        | some u => exact .narrow hview
  | furtherSteps k v rest =>
    rw [perform]
    cases hstops : w.stops with
    | true => exact .stop hstops
    | false => exact .nextStep hstops
  | elements id k index elements =>
    cases elements with
    | nil => exact .noElements
    | cons e rest => exact .element
  | furtherElements id k index rest =>
    rw [perform]
    cases hhalted : w.halted with
    | true => exact .halt hhalted
    | false => exact .nextElement hhalted
  | leave segment => exact .leave
  | goOn => exact .goOn
  | close => exact .close

/-- A walk with what is still to be done. -/
structure Progress (M : ModelSpace) where
  walk : Walk M
  todo : List (Task M)

namespace Progress

/-- The progress by the next task, if there is one. -/
def next? (c : Course M) (p : Progress M) : Option (Progress M) :=
  match p.todo with
  | [] => none
  | task :: rest => some ⟨(perform c p.walk task).1, (perform c p.walk task).2 ++ rest⟩

/-- The progress by a number of tasks, if there are so many. -/
def after? (c : Course M) : Nat → Progress M → Option (Progress M)
  | 0, p => some p
  | n + 1, p => (p.next? c).bind (after? c n)

variable {c : Course M} {p q : Progress M} {m n : Nat}

theorem next?_cons (c : Course M) (w : Walk M) (task : Task M) (rest : List (Task M)) :
    next? c ⟨w, task :: rest⟩ = some ⟨(perform c w task).1, (perform c w task).2 ++ rest⟩ := rfl

theorem after?_add (c : Course M) (m n : Nat) (p : Progress M) :
    p.after? c (m + n) = (p.after? c m).bind (after? c n) := by
  induction m generalizing p with
  | zero => rw [Nat.zero_add, after?, Option.bind_some]
  | succ m ih =>
    rw [Nat.add_right_comm, after?, after?]
    cases p.next? c with
    | none => rfl
    | some q => exact ih q

/-- What each task keeps, a run keeps. -/
theorem after?_keeps {P : Progress M → Prop} (hkeeps : ∀ p q, P p → p.next? c = some q → P q)
    (h : P p) (hafter : p.after? c n = some q) : P q := by
  induction n generalizing p with
  | zero =>
    obtain rfl := Option.some.inj hafter
    exact h
  | succ n ih =>
    obtain ⟨p', hnext, hafter⟩ := Option.bind_eq_some_iff.1 hafter
    exact ih (hkeeps p p' h hnext) hafter

theorem isSome_after?_of_le (hle : m ≤ n)
    (h : (p.after? c n).isSome) : (p.after? c m).isSome := by
  obtain ⟨d, rfl⟩ := Nat.exists_eq_add_of_le hle
  rw [after?_add] at h
  cases hm : p.after? c m with
  | none =>
    rw [hm] at h
    exact h
  | some q => rfl

/-- The tasks come to an end in one way. -/
theorem eq_of_after? {q' : Progress M} (h : p.after? c m = some q) (hdone : q.next? c = none)
    (h' : p.after? c n = some q') (hdone' : q'.next? c = none) : q = q' := by
  have hle {m n : Nat} {q q' : Progress M} (hle : m ≤ n) (h : p.after? c m = some q)
      (hdone : q.next? c = none) (h' : p.after? c n = some q') : q = q' := by
    obtain ⟨d, rfl⟩ := Nat.exists_eq_add_of_le hle
    rw [after?_add, h, Option.bind_some] at h'
    cases d with
    | zero => exact Option.some.inj h'
    | succ d =>
      rw [after?, hdone] at h'
      exact nomatch h'
  rcases Nat.le_total m n with hmn | hnm
  · exact hle hmn h hdone h'
  · exact (hle hnm h' hdone' h).symm

end Progress

/-! ## Visits are done task by task -/

/-- Performing the tasks comes to `result`: they are done some time later, with this walk, or
there is none, and they take at least `n` tasks. -/
def Does (c : Course M) (n : Nat) (w : Walk M) (tasks : List (Task M)) : Option (Walk M) → Prop
  | some w' => ∀ todo, ∃ m, Progress.after? c m ⟨w, tasks ++ todo⟩ = some ⟨w', todo⟩
  | none => ∀ todo, (Progress.after? c n ⟨w, tasks ++ todo⟩).isSome

namespace Does

variable {c : Course M} {m n : Nat} {w : Walk M} {tasks more : List (Task M)}
  {result : Option (Walk M)}

theorem nothing (w : Walk M) : Does c n w [] (some w) := fun _ => ⟨0, rfl⟩

theorem cons_succ {task : Task M}
    (h : Does c n (perform c w task).1 ((perform c w task).2 ++ tasks) result) :
    Does c (n + 1) w (task :: tasks) result := by
  cases result with
  | some w' =>
    intro todo
    obtain ⟨m, hm⟩ := h todo
    rw [List.append_assoc] at hm
    exact ⟨m + 1, hm⟩
  | none =>
    intro todo
    have hn := h todo
    rw [List.append_assoc] at hn
    exact hn

theorem of_le (h : Does c n w tasks result) (hle : m ≤ n) : Does c m w tasks result := by
  cases result with
  | some w' => exact h
  | none => exact fun todo => Progress.isSome_after?_of_le hle (h todo)

/-- A task at the front changes nothing about how many there are at least. -/
theorem cons {task : Task M}
    (h : Does c n (Walk.perform c w task).1 ((Walk.perform c w task).2 ++ tasks) result) :
    Does c n w (task :: tasks) result :=
  h.cons_succ.of_le (Nat.le_succ n)

theorem bind {go : Walk M → Option (Walk M)} (h : Does c n w tasks result)
    (hgo : ∀ w', result = some w' → Does c n w' more (go w')) :
    Does c n w (tasks ++ more) (result.bind go) := by
  cases result with
  | none =>
    intro todo
    rw [List.append_assoc]
    exact h (more ++ todo)
  | some w' =>
    have hmore := hgo w' rfl
    rw [Option.bind_some]
    cases hafter : go w' with
    | some w'' =>
      rw [hafter] at hmore
      intro todo
      obtain ⟨m, hm⟩ := h (more ++ todo)
      obtain ⟨m', hm'⟩ := hmore todo
      rw [List.append_assoc]
      exact ⟨m + m', by rw [Progress.after?_add, hm, Option.bind_some, hm']⟩
    | none =>
      rw [hafter] at hmore
      intro todo
      obtain ⟨m, hm⟩ := h (more ++ todo)
      rw [List.append_assoc]
      refine Progress.isSome_after?_of_le (Nat.le_add_left n m) ?_
      rw [Progress.after?_add, hm]
      exact hmore todo

end Does

section Functions

variable {c : Course M} {n : Nat} {visit : Visitor M}

theorem visitElements_does {id : ScopeId}
    {visitOne : Option (M.Value k) → Walk M → Option (Walk M)}
    (hone : ∀ value w, Does c n w [.visit .entering id k value] (visitOne value w)) (index : Nat)
    (elements : List (Option (M.Value k))) (w : Walk M) :
    Does c n w [.elements id k index elements]
      (visitElements c.paths visitOne index elements w) := by
  induction elements generalizing index w with
  | nil => exact .cons (.nothing w)
  | cons e rest ih =>
    refine .cons ((hone e (w.enterIndex c.paths index)).bind fun w' _ => ?_)
    refine .cons (.cons (.cons ?_))
    show Does c n w'.leaveIndex.goOn
      ((if w'.leaveIndex.goOn.halted then [] else [.elements id k (index + 1) rest]) ++ [])
      (if w'.leaveIndex.goOn.halted then some w'.leaveIndex.goOn
        else visitElements c.paths visitOne (index + 1) rest w'.leaveIndex.goOn)
    rw [List.append_nil]
    split
    · exact .nothing _
    · exact ih (index + 1) _

theorem startStep_does
    (hvisit : ∀ approach id k value w,
      Does c n w [.visit approach id k value] (visit approach id k value w))
    (v : M.Value k) (w : Walk M) (step : Step M k) :
    Does c n (startStep c v w step).1 (startStep c v w step).2 (takeStep c visit v w step) := by
  cases step with
  | rule error test => exact .nothing _
  | member name target kind get =>
    refine (hvisit .entering target kind (get v) _).bind fun w' _ => ?_
    exact .cons (.cons (.nothing _))
  | collection target kind elements =>
    exact visitElements_does (hvisit .entering target kind) 0 (elements v) w
  | inclusion target => exact hvisit .staying target k (some v) w
  | narrowing target kind view =>
    rw [startStep, takeStep]
    cases view v with
    | none => exact .nothing w
    | some u => exact hvisit .entering target kind (some u) w

theorem takeSteps_does
    (hvisit : ∀ approach id k value w,
      Does c n w [.visit approach id k value] (visit approach id k value w))
    (v : M.Value k) (steps : List (Step M k)) (w : Walk M) :
    Does c n w [.steps k v steps] (takeSteps c visit v steps w) := by
  induction steps generalizing w with
  | nil => exact .cons (.nothing w)
  | cons step rest ih =>
    refine .cons ?_
    rw [perform, List.append_nil]
    refine (startStep_does hvisit v w step).bind fun w' _ => .cons ?_
    rw [perform, List.append_nil]
    dsimp only
    split
    · exact .nothing w'
    · exact ih w'

theorem checkWith_does
    (hvisit : ∀ approach id k value w,
      Does c n w [.visit approach id k value] (visit approach id k value w))
    (scope : Scope M k) (value : Option (M.Value k)) (w : Walk M) :
    Does c n w [.check k scope value] (checkWith c visit scope value w) := by
  refine .cons ?_
  rw [List.append_nil, Walk.perform]
  unfold startCheck checkWith
  cases value with
  | none =>
    cases scope.presence with
    | none => exact .nothing w
    | some policy => cases policy <;> exact .nothing _
  | some v =>
    cases scope.presence with
    | none => exact takeSteps_does hvisit v scope.steps w
    | some policy =>
      cases policy with
      | optional => exact takeSteps_does hvisit v scope.steps w
      | required error => exact takeSteps_does hvisit v scope.steps w
      | forbidden error => exact .nothing _

/-- The task of a visit comes to what the visit comes to. -/
theorem visit_does (c : Course M) (depth : Nat) (approach : Approach) (id : ScopeId) (k : M.Kind)
    (value : Option (M.Value k)) (w : Walk M) :
    Does c depth w [.visit approach id k value] (Walk.visit c depth approach id k value w) := by
  induction depth generalizing approach id k value w with
  | zero => exact fun _ => rfl
  | succ depth ih =>
    refine .cons_succ ?_
    rw [List.append_nil, perform, startVisit, Walk.visit]
    cases c.scopes.typed? id k with
    | none => exact .nothing _
    | some scope =>
      have hcheck (w : Walk M) : Does c depth w [.check k scope value]
          (checkWith c (Walk.visit c depth) scope value w) := checkWith_does ih scope value w
      dsimp only
      cases approach with
      | staying => exact hcheck w
      | entering =>
        cases value with
        | none => cases c.options.guardLoops <;> exact hcheck w
        | some v =>
          cases c.options.guardLoops with
          | false => exact hcheck w
          | true =>
            dsimp only [guarded]
            by_cases hopen : M.nodeOf v ∈ w.opened
            · rw [if_pos hopen, if_pos (List.contains_iff_mem.2 hopen)]
              exact .nothing w
            · rw [if_neg hopen, if_neg (mt List.contains_iff_mem.1 hopen)]
              exact (hcheck _).bind fun w' _ => .cons (.nothing _)

end Functions

end Rulebook.Walk

namespace Rulebook.Scheme

open Walk (Progress)

variable {M : ModelSpace} {k : M.Kind}

/-- What is to be done for a model, in a walk that begins. -/
def begin (s : Scheme M k) (model : Option (M.Value k)) : Progress M :=
  ⟨{}, [.visit .entering s.rootId k model]⟩

/-- A run ends if and only if its tasks come to an end, and in the same walk. -/
theorem exists_walk?_iff (s : Scheme M k) (model : Option (M.Value k)) (options : Options)
    (w : Walk M) :
    (∃ depth, s.walk? depth model options = some w) ↔
      ∃ n, (s.begin model).after? (s.course options) n = some ⟨w, []⟩ := by
  have hdoes (depth : Nat) : Walk.Does (s.course options) depth {}
      [.visit .entering s.rootId k model] (s.walk? depth model options) :=
    Walk.visit_does _ depth _ _ _ _ _
  constructor
  · rintro ⟨depth, hw⟩
    have hends := hdoes depth
    rw [hw] at hends
    exact hends []
  · rintro ⟨n, hn⟩
    have hends := hdoes (n + 1)
    cases hw : s.walk? (n + 1) model options with
    | some w' =>
      rw [hw] at hends
      obtain ⟨m, hm⟩ := hends []
      have hsame := Progress.eq_of_after? hm rfl hn rfl
      rw [(Progress.mk.inj hsame).1] at hw
      exact ⟨n + 1, hw⟩
    | none =>
      rw [hw] at hends
      have hmore : ((s.begin model).after? (s.course options) (n + 1)).isSome := hends []
      rw [Progress.after?_add, hn] at hmore
      exact nomatch hmore

end Rulebook.Scheme
