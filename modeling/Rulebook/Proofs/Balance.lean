import Mathlib.Data.List.Chain
import Rulebook.Proofs.Alignment
import Rulebook.Proofs.Termination

/-!
# A walk is balanced

A walk keeps three stacks: the shapes of the nodes around it, their indexes, and the nodes that
are open.  Checking a scope can stop at many places, and leaves the stacks as they were at each of
them.  The tasks that are left say why: whatever is put on a stack, the task to take it off again
is put on the list.  `unwound` performs only that part of the tasks, and no task changes where
that leads (`Performs.unwound`), so when a list of tasks is done, the stacks are as they were at
its beginning.

The flags are of another kind, since they are set by one task and read by later ones.  `Follows`
says which task can come next to which, and `Poised` that the walk may begin the task that is
first: no flag is up where a scope, a step or an element is begun.
-/

namespace Rulebook.Walk

open Rulebook.Path (Segment)

variable {M : ModelSpace} {k : M.Kind} {c : Course M} {w w' : Walk M} {task : Task M}
  {r : Walk M × List (Task M)}

/-! ## Stacks -/

/-- The stacks of a walk. -/
structure Stacks (M : ModelSpace) where
  trail : List String
  indexes : List Nat
  opened : List M.Node

/-- The stacks as they are. -/
def toStacks (w : Walk M) : Stacks M := ⟨w.trail, w.indexes, w.opened⟩

/-- What a task takes off the stacks for the task that has put it there. -/
def Task.unwind (st : Stacks M) : Task M → Stacks M
  | .leave (.member _) => { st with trail := st.trail.tail }
  | .leave _ => { st with trail := st.trail.tail, indexes := st.indexes.tail }
  | .close => { st with opened := st.opened.tail }
  | _ => st

/-- The stacks when the tasks are done. -/
def unwound (st : Stacks M) (tasks : List (Task M)) : Stacks M := tasks.foldl Task.unwind st

theorem unwound_append (st : Stacks M) (tasks more : List (Task M)) :
    unwound st (tasks ++ more) = unwound (unwound st tasks) more := List.foldl_append

@[simp] theorem record_toStacks (options : Options) (id : ErrorId) (w : Walk M) :
    (w.record options id).toStacks = w.toStacks := by
  rw [record]
  split <;> rfl

/-- A task leaves to be taken off what it puts on the stacks, and nothing else. -/
theorem Performs.unwound (h : Performs c w task r) :
    Walk.unwound r.1.toStacks r.2 = task.unwind w.toStacks := by
  cases h with
  | breach => exact record_toStacks c.options _ w
  | fail => exact record_toStacks c.options _ w
  | @leave segment => cases segment <;> rfl
  | _ => rfl

/-- The stacks of a walk when its tasks are done. -/
def Progress.unwound (p : Progress M) : Stacks M := Walk.unwound p.walk.toStacks p.todo

theorem Progress.unwound_after? {p q : Progress M} {n : Nat} (h : p.after? c n = some q) :
    q.unwound = p.unwound := by
  refine after?_keeps (P := fun q => q.unwound = p.unwound) ?_ rfl h
  rintro ⟨w, todo⟩ q' hsame hnext
  cases todo with
  | nil => exact nomatch hnext
  | cons task rest =>
    obtain rfl := Option.some.inj hnext
    rw [← hsame, unwound, unwound_append, (performs c w task).unwound]
    rfl

/-- When a list of tasks is done, the stacks are as they were. -/
theorem Does.unwound_eq {n : Nat} {tasks : List (Task M)} (h : Does c n w tasks (some w')) :
    w'.toStacks = Walk.unwound w.toStacks tasks := by
  obtain ⟨m, hm⟩ := h []
  have hsame := Progress.unwound_after? hm
  rwa [List.append_nil] at hsame

/-! ## What grows -/

/-- What each task keeps of the walk, whatever else is to be done, a run keeps. -/
theorem Progress.walk_after? {P : Walk M → Prop}
    (hkeeps : ∀ w task, P w → P (Walk.perform c w task).1) {p q : Progress M} {n : Nat}
    (h : P p.walk) (hafter : p.after? c n = some q) : P q.walk := by
  refine after?_keeps (P := fun q => P q.walk) ?_ h hafter
  rintro ⟨w, todo⟩ q' hw hnext
  cases todo with
  | nil => exact nomatch hnext
  | cons task rest =>
    obtain rfl := Option.some.inj hnext
    exact hkeeps w task hw

/-- A later walk: it has recorded what the earlier one has, and more behind it, and it has stopped
for good if the earlier one has. -/
structure Grows (w w' : Walk M) : Prop where
  errors : ∀ path ids, w.errors.find? path = some ids →
    ∃ more, w'.errors.find? path = some (ids ++ more)
  halted : w.halted = true → w'.halted = true

namespace Grows

theorem refl (w : Walk M) : w.Grows w := ⟨fun _ ids h => ⟨[], by rw [h, List.append_nil]⟩, id⟩

theorem of_same (herrors : w'.errors = w.errors) (hhalted : w'.halted = w.halted) : w.Grows w' :=
  ⟨fun _ ids h => ⟨[], by rw [herrors, h, List.append_nil]⟩, fun h => hhalted.trans h⟩

theorem trans {w'' : Walk M} (h : w.Grows w') (h' : w'.Grows w'') : w.Grows w'' := by
  refine ⟨fun path ids hids => ?_, h'.halted ∘ h.halted⟩
  obtain ⟨more, hmore⟩ := h.errors path ids hids
  obtain ⟨evenMore, hevenMore⟩ := h'.errors path _ hmore
  exact ⟨more ++ evenMore, by rw [hevenMore, List.append_assoc]⟩

theorem record (options : Options) (id : ErrorId) (w : Walk M) :
    w.Grows (w.record options id) := by
  rw [Walk.record]
  cases hhalted : w.halted with
  | true => exact .refl w
  | false =>
    refine ⟨fun path ids hids => ?_, fun h => absurd (hhalted.symm.trans h) Bool.false_ne_true⟩
    simp only [Bool.false_eq_true, if_false, ErrorsByPath.find?_record]
    split
    · rename_i hpath
      subst hpath
      exact ⟨[id], by rw [hids, Option.getD_some]⟩
    · exact ⟨[], by rw [hids, List.append_nil]⟩

theorem breach (options : Options) (id : ErrorId) (w : Walk M) : w.Grows (w.breach options id) :=
  (record options id w).trans (.of_same rfl rfl)

theorem of_performs (h : Performs c w task r) : w.Grows r.1 := by
  cases h with
  | breach => exact .breach c.options _ w
  | fail => exact .record c.options _ w
  | @leave segment => cases segment <;> exact .of_same rfl rfl
  | _ => exact .of_same rfl rfl

theorem after? {p q : Progress M} {n : Nat} (h : p.after? c n = some q) : p.walk.Grows q.walk :=
  Progress.walk_after?
    (fun w task hgrows => hgrows.trans (.of_performs (performs c w task))) (.refl p.walk) h

end Grows

/-! ## Open nodes -/

/-- No task opens a node that is open. -/
theorem Performs.nodup (h : Performs c w task r) (hopened : w.opened.Nodup) :
    r.1.opened.Nodup := by
  have hrecord (error : ErrorId) : (w.record c.options error).opened.Nodup := by
    rw [show (w.record c.options error).opened = w.opened from
      congrArg Stacks.opened (record_toStacks c.options error w)]
    exact hopened
  cases h with
  | openNode _ _ hclosed => exact List.nodup_cons.2 ⟨hclosed, hopened⟩
  | breach => exact hrecord _
  | fail => exact hrecord _
  | @leave segment => cases segment <;> exact hopened
  | close => exact hopened.tail
  | _ => exact hopened

/-! ## Flags -/

/-- Neither flag is up. -/
structure Clear (w : Walk M) : Prop where
  halted : w.halted = false
  fellBack : w.fellBack = false

theorem clear_iff_stops : w.Clear ↔ w.stops = false := by
  rw [stops, Bool.or_eq_false_iff]
  exact ⟨fun h => ⟨h.fellBack, h.halted⟩, fun h => ⟨h.2, h.1⟩⟩

/-- What the flags have to be for a task to come first.  A presence that was broken has been
forgotten before further elements are considered. -/
def Task.Ready (w : Walk M) : Task M → Prop
  | .visit .. | .check .. | .steps .. | .elements .. => w.Clear
  | .furtherElements .. => w.fellBack = false
  | .furtherSteps .. | .leave _ | .goOn | .close => True

/-- What can be on the list behind a task.  Nothing is begun unless the task before it says so,
and further elements come behind what forgets a broken presence. -/
def Task.Follows (task : Task M) : Task M → Prop
  | .visit .. | .check .. | .steps .. | .elements .. => False
  | .furtherElements .. => task = .goOn
  | .furtherSteps .. | .leave _ | .goOn | .close => True

/-- The flags allow for the first of the tasks. -/
def ReadyFor (w : Walk M) : List (Task M) → Prop
  | [] => True
  | task :: _ => task.Ready w

/-- The walk may begin the first task, and the others are behind tasks that they can follow. -/
structure Progress.Poised (p : Progress M) : Prop where
  ready : p.walk.ReadyFor p.todo
  chain : p.todo.IsChain Task.Follows

section Flags

variable {next : Task M}

theorem poised_nil (w : Walk M) : Progress.Poised ⟨w, []⟩ := ⟨trivial, .nil⟩

theorem poised_singleton (h : task.Ready w) : Progress.Poised ⟨w, [task]⟩ := ⟨h, .singleton task⟩

/-- Behind a task that leaves nothing the next one can begin. -/
theorem ready_of_follows (h : task.Follows next) : next.Ready (perform c w task).1 := by
  cases next with
  | visit | check | steps | elements => exact absurd h id
  | furtherElements id k index elements =>
    obtain rfl : task = .goOn := h
    rfl
  | furtherSteps | leave | goOn | close => trivial

/-- What can follow a task can follow whatever the task leaves to be done. -/
theorem follows_of_mem (h : task.Follows next) {more : Task M}
    (hmore : more ∈ (perform c w task).2) : more.Follows next := by
  cases next with
  | visit | check | steps | elements => exact absurd h id
  | furtherElements id k index elements =>
    obtain rfl : task = .goOn := h
    exact absurd hmore List.not_mem_nil
  | furtherSteps | leave | goOn | close => trivial

/-- A task that may begin leaves tasks of which the first may begin. -/
theorem Performs.poised (h : Performs c w task r) (hready : task.Ready w) :
    Progress.Poised ⟨r.1, r.2⟩ := by
  cases h with
  | look | begin => exact poised_singleton hready
  | openNode => exact ⟨⟨hready.halted, hready.fellBack⟩, .cons_cons trivial (.singleton _)⟩
  | hold | fail | skip => exact poised_singleton trivial
  | member =>
    exact ⟨⟨hready.halted, hready.fellBack⟩,
      .cons_cons trivial (.cons_cons trivial (.cons_cons trivial (.singleton _)))⟩
  | collection | inclusion | narrow => exact ⟨hready, .cons_cons trivial (.singleton _)⟩
  | nextStep hstops => exact poised_singleton (clear_iff_stops.2 hstops)
  | element =>
    exact ⟨⟨hready.halted, hready.fellBack⟩,
      .cons_cons trivial (.cons_cons trivial (.cons_cons rfl (.singleton _)))⟩
  | nextElement hhalted => exact poised_singleton ⟨hhalted, hready⟩
  | miss | passOver | breach | absent | noSteps | stop | noElements |
      halt | leave | goOn | close =>
    exact poised_nil _

namespace Progress

variable {p q : Progress M} {n : Nat}

theorem Poised.next? (h : p.Poised) (hnext : p.next? c = some q) : q.Poised := by
  obtain ⟨w, todo⟩ := p
  cases todo with
  | nil => exact nomatch hnext
  | cons task rest =>
    obtain rfl := Option.some.inj hnext
    obtain ⟨hready, hchain⟩ := h
    have hleft : Poised ⟨(perform c w task).1, (perform c w task).2⟩ :=
      (performs c w task).poised hready
    obtain ⟨hfollows, hrest⟩ := List.isChain_cons.1 hchain
    refine ⟨?_, List.isChain_append.2 ⟨hleft.chain, hrest, ?_⟩⟩
    · cases hmore : (perform c w task).2 with
      | nil =>
        cases rest with
        | nil => trivial
        | cons next _ => exact ready_of_follows (hfollows next rfl)
      | cons first more =>
        rw [hmore] at hleft
        exact hleft.ready
    · intro last hlast next hnext
      exact follows_of_mem (hfollows next hnext) (List.mem_of_getLast? hlast)

theorem Poised.after? (h : p.Poised) (hafter : p.after? c n = some q) : q.Poised :=
  after?_keeps (fun _ _ hp hnext => hp.next? hnext) h hafter

end Progress

end Flags

/-! ## What a run keeps -/

/-- A later walk that is back: its stacks are the same, and it has only grown. -/
structure Returns (w w' : Walk M) : Prop where
  same : w'.toStacks = w.toStacks
  grows : w.Grows w'

theorem Does.returns {n : Nat} {tasks : List (Task M)} (h : Does c n w tasks (some w'))
    (hsame : Walk.unwound w.toStacks tasks = w.toStacks) : w.Returns w' := by
  obtain ⟨m, hm⟩ := h []
  exact ⟨h.unwound_eq.trans hsame, .after? hm⟩

theorem does_of_checkWith {scope : Scope M k} {value : Option (M.Value k)} {depth : Nat}
    (h : checkWith c (Walk.visit c depth) scope value w = some w') :
    Does c depth w [.check k scope value] (some w') := by
  rw [← h]
  exact checkWith_does (Walk.visit_does c depth) scope value w

theorem does_of_visit {approach : Approach} {id : ScopeId} {value : Option (M.Value k)}
    {depth : Nat} (h : Walk.visit c depth approach id k value w = some w') :
    Does c depth w [.visit approach id k value] (some w') := by
  rw [← h]
  exact Walk.visit_does c depth approach id k value w

/-- What holds wherever a run has come to. -/
structure Progress.Balanced (c : Course M) (p : Progress M) : Prop where
  /-- No node is open twice. -/
  opened : p.walk.opened.Nodup
  /-- A node is left only if one has been entered. -/
  leave : ∀ segment rest, p.todo = .leave segment :: rest → p.walk.trail ≠ []
  /-- No flag is up when a step is begun. -/
  step : ∀ k (v : M.Value k) step steps rest, p.todo = .steps k v (step :: steps) :: rest →
    p.walk.Clear
  /-- No flag is up when a value is checked with a scope, and when that is done, the run goes on
  with what is behind it. -/
  check : ∀ k (scope : Scope M k) value rest, p.todo = .check k scope value :: rest →
    p.walk.Clear ∧
    ∀ depth w, checkWith c (Walk.visit c depth) scope value p.walk = some w →
      ∃ n, p.after? c n = some ⟨w, rest⟩
  /-- When a value is checked with a scope, whichever they are, the walk comes back. -/
  checked : ∀ k (scope : Scope M k) value depth w,
    checkWith c (Walk.visit c depth) scope value p.walk = some w → p.walk.Returns w
  /-- When a value is visited with the scope of an identifier, whichever they are and however they
  are approached, the walk comes back. -/
  visited : ∀ approach id k (value : Option (M.Value k)) depth w,
    Walk.visit c depth approach id k value p.walk = some w → p.walk.Returns w
  /-- The rest of the run only adds to the lists of errors, and once it has stopped for good it
  does not take that back. -/
  later : ∀ n q, p.after? c n = some q → p.walk.Grows q.walk

end Rulebook.Walk

namespace Rulebook.Scheme

open Walk (Progress)

variable {M : ModelSpace} {k : M.Kind} {s : Scheme M k} {model : Option (M.Value k)}
  {options : Options} {n : Nat} {p : Progress M}

theorem IsCompiled.balanced_of_after? (hs : s.IsCompiled)
    (h : (s.begin model).after? (s.course options) n = some p) :
    p.Balanced (s.course options) := by
  have hpoised : p.Poised :=
    Progress.Poised.after? (p := s.begin model) ⟨⟨rfl, rfl⟩, .singleton _⟩ h
  have hsound : p.Sound (s.course options) := hs.sound_of_after? h
  obtain ⟨hready, _⟩ := hpoised
  constructor
  case opened =>
    exact Progress.walk_after? (P := fun w => w.opened.Nodup)
      (fun w task hw => (Walk.performs _ w task).nodup hw) List.nodup_nil h
  case leave =>
    intro segment rest htodo htrail
    have haligned := hsound.aligned.trail
    rw [htodo, htrail] at haligned
    exact nomatch haligned
  case step =>
    intro k v step steps rest htodo
    rw [htodo] at hready
    exact hready
  case check =>
    intro k scope value rest htodo
    obtain ⟨w, todo⟩ := p
    subst htodo
    exact ⟨hready, fun depth w' hw' => Walk.does_of_checkWith hw' rest⟩
  case checked => exact fun k scope value depth w hw => (Walk.does_of_checkWith hw).returns rfl
  case visited => exact fun approach id k value depth w hw => (Walk.does_of_visit hw).returns rfl
  case later => exact fun m q hq => .after? hq

/-- A run is balanced wherever it has come to: when a value is checked with a scope, the stacks
are as they were before, whether the scope has been checked to its end or has been stopped; the
lists of errors have only been added to.  Each step begins with no flag up, no node is open twice,
and no node is left that has not been entered. -/
theorem runs_are_balanced {table : ScopeTable M} {rootId : ScopeId} {catalog : Catalog}
    (h : compile table k rootId catalog = .ok s)
    (model : Option (M.Value k)) (options : Options) :
    (∀ w, (∃ depth, s.walk? depth model options = some w) ↔
      ∃ n, (s.begin model).after? (s.course options) n = some ⟨w, []⟩) ∧
    ∀ n p, (s.begin model).after? (s.course options) n = some p →
      p.Balanced (s.course options) :=
  ⟨fun w => s.exists_walk?_iff model options w,
    fun _ _ hp => (isCompiled_of_compile h).balanced_of_after? hp⟩

/-- The walk through the knot checks the line that is there, where the order, its lines and the
line are open.  The line holds the order, which is passed over, and it has no article. -/
theorem runs_are_balanced_knot :
    ∃ (s : Scheme Orders.space .obj) (p : Progress Orders.space) (w : Walk Orders.space),
      compile (Orders.table true) .obj ⟨0⟩ Orders.catalog = .ok s ∧
      (s.begin (some Orders.knotOrder)).after? (s.course ⟨false, true⟩) 16 = some p ∧
      p.todo.head? = some (.check .obj (Orders.lineScope true) (some Orders.knotLine)) ∧
      p.walk.trail = ["lines[#]", "lines"] ∧ p.walk.opened = Orders.knotNodes.reverse ∧
      p.walk.opened.Nodup ∧ p.walk.Clear ∧
      Walk.checkWith (s.course ⟨false, true⟩) (Walk.visit (s.course ⟨false, true⟩) 2)
        (Orders.lineScope true) (some Orders.knotLine) p.walk = some w ∧
      p.walk.Returns w ∧ p.walk.errors.find? "lines[1]" = none ∧
      w.errors.find? "lines[1]" = some [⟨3⟩] := by
  have h : compile (Orders.table true) .obj ⟨0⟩ Orders.catalog = .ok _ := rfl
  have hrun (s : Scheme Orders.space .obj)
      (hs : compile (Orders.table true) .obj ⟨0⟩ Orders.catalog = .ok s) :
      ∃ (p : Progress Orders.space) (rest : List (Walk.Task Orders.space))
        (w : Walk Orders.space),
        (s.begin (some Orders.knotOrder)).after? (s.course ⟨false, true⟩) 16 = some p ∧
        p.todo = .check .obj (Orders.lineScope true) (some Orders.knotLine) :: rest ∧
        p.walk.trail = ["lines[#]", "lines"] ∧ p.walk.opened = Orders.knotNodes.reverse ∧
        Walk.checkWith (s.course ⟨false, true⟩) (Walk.visit (s.course ⟨false, true⟩) 2)
          (Orders.lineScope true) (some Orders.knotLine) p.walk = some w ∧
        p.walk.errors.find? "lines[1]" = none ∧ w.errors.find? "lines[1]" = some [⟨3⟩] := by
    obtain rfl := Except.ok.inj (h.symm.trans hs)
    exact ⟨_, _, _, rfl, rfl, rfl, rfl, rfl, rfl, rfl⟩
  obtain ⟨p, rest, w, hp, htodo, htrail, hopened, hw, hbefore, hafter⟩ := hrun _ h
  have hbalanced := (runs_are_balanced h (some Orders.knotOrder) ⟨false, true⟩).2 16 p hp
  exact ⟨_, p, w, h, hp, by rw [htodo, List.head?_cons], htrail, hopened, hbalanced.opened,
    (hbalanced.check _ _ _ rest htodo).1, hw, hbalanced.checked _ _ _ 2 w hw, hbefore, hafter⟩

end Rulebook.Scheme
