import Rulebook.Proofs.Acceptance
import Rulebook.Proofs.Progress
import Rulebook.Proofs.Validation

/-!
# Shapes and indexes keep in step

A walk keeps the shape of its node and the indexes of the elements around it in two lists that
know nothing of each other.  Putting an index for each placeholder gives the path of the node only
if both lists speak of the same nodes.

They do in every state of a run.  Which nodes a walk is in can be seen from what it has still to
leave, so `Aligned` compares both lists with the segments of the tasks.  Each task keeps that
(`Performs.keeps`): those that enter a node put the task to leave it on the list, and nothing else
touches the shapes or the indexes.
-/

namespace Rulebook.Walk

open Rulebook.Path (Segment)

variable {M : ModelSpace} {k : M.Kind}

/-! ## The nodes around a walk -/

/-- The segment of the node that a task leaves. -/
def Task.segment? : Task M → Option Segment
  | .leave segment => some segment
  | _ => none

/-- The segments of the node where the walk is: of all nodes it has still to leave, the outermost
first. -/
def Progress.segments (p : Progress M) : List Segment :=
  (p.todo.filterMap Task.segment?).reverse

/-- The shapes of nodes around each other, for segments with the innermost first. -/
def shapesOf : List Segment → List String
  | [] => []
  | s :: outer => Path.ofSegments ((s :: outer).reverse.map Segment.shape) :: shapesOf outer

/-- The walk keeps the shapes and the indexes of the nodes that the segments lead to, the
innermost first. -/
structure Aligned (w : Walk M) (inner : List Segment) : Prop where
  trail : w.trail = shapesOf inner
  indexes : w.indexes = inner.filterMap Segment.index?

namespace Aligned

variable {w w' : Walk M} {inner : List Segment} {paths : PathTable}

theorem path (h : Aligned w inner) :
    w.path = Path.ofSegments (inner.reverse.map Segment.shape) := by
  rw [Walk.path, h.trail]
  cases inner <;> rfl

theorem of_same (h : Aligned w inner) (htrail : w'.trail = w.trail)
    (hindexes : w'.indexes = w.indexes) : Aligned w' inner :=
  ⟨htrail.trans h.trail, hindexes.trans h.indexes⟩

theorem shapesOf_cons (h : Aligned w inner) (hpaths : ∀ b r, paths.resolve b r = Path.join b r)
    (s : Segment) : paths.resolve w.path s.shape.text :: w.trail = shapesOf (s :: inner) := by
  rw [shapesOf, List.reverse_cons, List.map_append, List.map_singleton, Path.ofSegments_concat,
    ← h.path, ← h.trail, hpaths]

theorem enter (h : Aligned w inner) (hpaths : ∀ b r, paths.resolve b r = Path.join b r)
    (name : String) : Aligned (w.enter paths name) (.member name :: inner) :=
  ⟨h.shapesOf_cons hpaths (.member name), h.indexes⟩

theorem enterIndex (h : Aligned w inner) (hpaths : ∀ b r, paths.resolve b r = Path.join b r)
    (index : Nat) : Aligned (w.enterIndex paths index) (.index index :: inner) :=
  ⟨h.shapesOf_cons hpaths (.index index), congrArg (index :: ·) h.indexes⟩

/-- Going back undoes what entering the node has done. -/
theorem back {s : Segment} (h : Aligned w (s :: inner)) (hs : s.IsConcrete) :
    Aligned (w.back s) inner := by
  have htrail : w.trail.tail = shapesOf inner := congrArg List.tail h.trail
  cases s with
  | member name => exact ⟨htrail, h.indexes⟩
  | index i => exact ⟨htrail, congrArg List.tail h.indexes⟩
  | anyIndex => exact absurd hs id

end Aligned

/-! ## What a task keeps -/

/-- What a task is about is known: its scope is one of the table, its steps are steps of one, and
the node it leaves can be named. -/
def Task.Known (c : Course M) : Task M → Prop
  | .check k scope _ => ∃ id, c.scopes.typed? id k = some scope
  | .steps k _ rest | .furtherSteps k _ rest =>
    ∃ id scope, c.scopes.typed? id k = some scope ∧ ∀ step ∈ rest, step ∈ scope.steps
  | .leave segment => segment.IsConcrete
  | _ => True

/-- The tasks that are left are known, and the walk is aligned to the nodes that they leave before
those that were around it. -/
structure Keeps (c : Course M) (inner : List Segment) (r : Walk M × List (Task M)) : Prop where
  known : ∀ task ∈ r.2, task.Known c
  aligned : Aligned r.1 (r.2.filterMap Task.segment? ++ inner)

section Tasks

variable {c : Course M} {catalog : Catalog} {inner : List Segment} {w w' : Walk M}

@[simp] theorem record_trail (options : Options) (id : ErrorId) (w : Walk M) :
    (w.record options id).trail = w.trail := by
  rw [record]
  split <;> rfl

@[simp] theorem record_indexes (options : Options) (id : ErrorId) (w : Walk M) :
    (w.record options id).indexes = w.indexes := by
  rw [record]
  split <;> rfl

/-- The steps that are left of known ones are known. -/
theorem Task.Known.furtherSteps {v : M.Value k} {step : Step M k} {rest : List (Step M k)}
    (h : Task.Known c (.steps k v (step :: rest))) : Task.Known c (.furtherSteps k v rest) := by
  obtain ⟨id, scope, hscope, hsteps⟩ := h
  exact ⟨id, scope, hscope, (List.forall_mem_cons.1 hsteps).2⟩

/-- A task leaves known tasks, and a walk that is aligned to them. -/
theorem Performs.keeps (hfits : c.scopes.Fits catalog)
    (hpaths : ∀ b r, c.paths.resolve b r = Path.join b r) {task : Task M}
    {r : Walk M × List (Task M)} (h : Performs c w task r) (hknown : task.Known c)
    (haligned : Aligned w (task.segment?.toList ++ inner)) : Keeps c inner r := by
  have hrecord (error : ErrorId) (h : Aligned w inner) :
      Aligned (w.record c.options error) inner :=
    h.of_same (record_trail c.options error w) (record_indexes c.options error w)
  cases h with
  | miss => exact ⟨List.forall_mem_nil _, haligned.of_same rfl rfl⟩
  | look hscope => exact ⟨List.forall_mem_singleton.2 ⟨_, hscope⟩, haligned⟩
  | openNode hscope =>
    refine ⟨?_, haligned.of_same rfl rfl⟩
    simp only [List.forall_mem_cons]
    exact ⟨⟨_, hscope⟩, trivial, List.forall_mem_nil _⟩
  | breach => exact ⟨List.forall_mem_nil _, (hrecord _ haligned).of_same rfl rfl⟩
  | begin =>
    obtain ⟨id, hscope⟩ := hknown
    exact ⟨List.forall_mem_singleton.2 ⟨id, _, hscope, fun _ hstep => hstep⟩, haligned⟩
  | hold | skip => exact ⟨List.forall_mem_singleton.2 hknown.furtherSteps, haligned⟩
  | fail => exact ⟨List.forall_mem_singleton.2 hknown.furtherSteps, hrecord _ haligned⟩
  | member =>
    obtain ⟨id, scope, hscope, hsteps⟩ := hknown
    have hname := hfits.isMemberName hscope (hsteps _ List.mem_cons_self) List.mem_cons_self
    refine ⟨?_, haligned.enter hpaths _⟩
    simp only [List.forall_mem_cons]
    exact ⟨trivial, hname, trivial, Task.Known.furtherSteps ⟨id, scope, hscope, hsteps⟩,
      List.forall_mem_nil _⟩
  | collection | inclusion | narrow =>
    refine ⟨?_, haligned⟩
    simp only [List.forall_mem_cons]
    exact ⟨trivial, hknown.furtherSteps, List.forall_mem_nil _⟩
  | nextStep => exact ⟨List.forall_mem_singleton.2 hknown, haligned⟩
  | element =>
    refine ⟨?_, haligned.enterIndex hpaths _⟩
    simp only [List.forall_mem_cons]
    exact ⟨trivial, trivial, trivial, trivial, List.forall_mem_nil _⟩
  | nextElement => exact ⟨List.forall_mem_singleton.2 trivial, haligned⟩
  | leave => exact ⟨List.forall_mem_nil _, Aligned.back haligned hknown⟩
  | goOn | close => exact ⟨List.forall_mem_nil _, haligned.of_same rfl rfl⟩
  | passOver | absent | noSteps | stop | noElements | halt =>
    exact ⟨List.forall_mem_nil _, haligned⟩

/-! ## What a run keeps -/

/-- The tasks are known, and the walk is aligned to the nodes that they leave. -/
structure Progress.Sound (c : Course M) (p : Progress M) : Prop where
  known : ∀ task ∈ p.todo, task.Known c
  aligned : Aligned p.walk (p.todo.filterMap Task.segment?)

namespace Progress

variable {p q : Progress M}

theorem Sound.next? (hfits : c.scopes.Fits catalog)
    (hpaths : ∀ b r, c.paths.resolve b r = Path.join b r) (h : p.Sound c)
    (hnext : p.next? c = some q) : q.Sound c := by
  obtain ⟨w, todo⟩ := p
  cases todo with
  | nil => exact nomatch hnext
  | cons task rest =>
    obtain rfl := Option.some.inj hnext
    obtain ⟨hknown, haligned⟩ := h
    rw [List.forall_mem_cons] at hknown
    have hkeeps : Keeps c (rest.filterMap Task.segment?) (perform c w task) := by
      refine (performs c w task).keeps hfits hpaths hknown.1 ?_
      cases htask : task.segment? with
      | none => rwa [List.filterMap_cons_none htask] at haligned
      | some s => rwa [List.filterMap_cons_some htask] at haligned
    refine ⟨?_, ?_⟩
    · rw [List.forall_mem_append]
      exact ⟨hkeeps.known, hknown.2⟩
    · rw [List.filterMap_append]
      exact hkeeps.aligned

theorem Sound.after? (hfits : c.scopes.Fits catalog)
    (hpaths : ∀ b r, c.paths.resolve b r = Path.join b r) {n : Nat} (h : p.Sound c)
    (hafter : p.after? c n = some q) : q.Sound c :=
  after?_keeps (fun _ _ hp hnext => Sound.next? hfits hpaths hp hnext) h hafter

/-- The walk would record an error at the node that it is in. -/
theorem Sound.position (h : p.Sound c) :
    Path.placeholders p.walk.path = p.walk.indexes.length ∧
      p.walk.position = Path.ofSegments p.segments := by
  have hconcrete : ∀ s ∈ p.segments, s.IsConcrete := by
    intro s hs
    obtain ⟨task, htask, hsegment⟩ := List.mem_filterMap.1 (List.mem_reverse.1 hs)
    have hknown := h.known task htask
    cases task with
    | leave segment =>
      obtain rfl : segment = s := Option.some.inj hsegment
      exact hknown
    | visit | check | steps | furtherSteps | elements | furtherElements | goOn | close =>
      exact nomatch hsegment
  have hpath : p.walk.path = Path.ofSegments (p.segments.map Segment.shape) := h.aligned.path
  have hindexes : p.walk.indexes.reverse = p.segments.filterMap Segment.index? := by
    rw [h.aligned.indexes, segments, List.filterMap_reverse]
  refine ⟨?_, ?_⟩
  · rw [hpath, Path.placeholders_ofSegments hconcrete, ← hindexes, List.length_reverse]
  · rw [Walk.position, hpath, hindexes, Path.fillIndexes_ofSegments hconcrete]

end Progress

end Tasks

end Rulebook.Walk

namespace Rulebook.Scheme

open Rulebook.Path (Segment)

variable {M : ModelSpace} {k : M.Kind} {s : Scheme M k}

theorem IsCompiled.sound_of_after? (hs : s.IsCompiled) {model : Option (M.Value k)}
    {options : Options} {n : Nat} {p : Walk.Progress M}
    (h : (s.begin model).after? (s.course options) n = some p) : p.Sound (s.course options) := by
  have hbegin : (s.begin model).Sound (s.course options) :=
    ⟨List.forall_mem_singleton.2 trivial, ⟨rfl, rfl⟩⟩
  exact hbegin.after? hs.fits hs.resolve_eq h

/-- Putting the indexes for the placeholders of a shape gives the path of the node: the segments,
joined as they are.  In every state of a run, also of one without end, the shape that the walk
keeps has as many placeholders as it keeps indexes, and an error is recorded at the path of the
members and elements that the walk is in. -/
theorem shapes_with_indexes_are_paths :
    (∀ segments : List Segment, (∀ t ∈ segments, t.IsConcrete) →
      Path.fillIndexes (Path.ofSegments (segments.map Segment.shape))
        (segments.filterMap Segment.index?) = Path.ofSegments segments) ∧
    ∀ {M : ModelSpace} {k : M.Kind} {table : ScopeTable M} {rootId : ScopeId} {catalog : Catalog}
      {s : Scheme M k}, compile table k rootId catalog = .ok s →
      ∀ (model : Option (M.Value k)) (options : Options),
        (∀ w, (∃ depth, s.walk? depth model options = some w) ↔
          ∃ n, (s.begin model).after? (s.course options) n = some ⟨w, []⟩) ∧
        ∀ n p, (s.begin model).after? (s.course options) n = some p →
          p.walk.path = Path.ofSegments (p.segments.map Segment.shape) ∧
          Path.placeholders p.walk.path = p.walk.indexes.length ∧
          ∀ id, (p.walk.record options id).errors =
            if p.walk.halted then p.walk.errors
            else p.walk.errors.record (Path.ofSegments p.segments) id := by
  refine ⟨fun segments hconcrete => Path.fillIndexes_ofSegments hconcrete, ?_⟩
  intro M k table rootId catalog s h model options
  refine ⟨fun w => s.exists_walk?_iff model options w, fun n p hp => ?_⟩
  have hsound := (isCompiled_of_compile h).sound_of_after? hp
  obtain ⟨hplaceholders, hposition⟩ := hsound.position
  refine ⟨hsound.aligned.path, hplaceholders, fun id => ?_⟩
  rw [← hposition, Walk.record]
  split <;> rfl

/-- The walk through the tower has come to the line of the inner order, which is missing. -/
theorem shapes_with_indexes_are_paths_tower :
    Path.fillIndexes (Path.ofSegments
        [.member "lines", .anyIndex, .member "order", .member "lines", .anyIndex]) [0, 0] =
      Path.ofSegments [.member "lines", .index 0, .member "order", .member "lines", .index 0] ∧
    ∃ (s : Scheme Orders.space .obj) (p : Walk.Progress Orders.space),
      compile (Orders.table true) .obj ⟨0⟩ Orders.catalog = .ok s ∧
      (s.begin (some Orders.towerOrder)).after? (s.course ⟨false, false⟩) 29 = some p ∧
      p.segments = [.member "lines", .index 0, .member "order", .member "lines", .index 0] ∧
      p.walk.path = "lines[#].order.lines[#]" ∧ Path.placeholders p.walk.path = 2 ∧
      (p.walk.record ⟨false, false⟩ ⟨2⟩).errors =
        p.walk.errors.record "lines[0].order.lines[0]" ⟨2⟩ := by
  obtain ⟨hpath, hstates⟩ := shapes_with_indexes_are_paths
  have hline :=
    hpath [.member "lines", .index 0, .member "order", .member "lines", .index 0] <| by
    simp only [List.forall_mem_cons, Segment.IsConcrete]
    exact ⟨by decide, trivial, by decide, by decide, trivial, List.forall_mem_nil _⟩
  refine ⟨hline, ?_⟩
  have h : compile (Orders.table true) .obj ⟨0⟩ Orders.catalog = .ok _ := rfl
  have hrun (s : Scheme Orders.space .obj)
      (hs : compile (Orders.table true) .obj ⟨0⟩ Orders.catalog = .ok s) :
      ∃ p, (s.begin (some Orders.towerOrder)).after? (s.course ⟨false, false⟩) 29 = some p ∧
        p.segments = [.member "lines", .index 0, .member "order", .member "lines", .index 0] ∧
        p.walk.indexes = [0, 0] ∧ p.walk.halted = false := by
    obtain rfl := Except.ok.inj (h.symm.trans hs)
    exact ⟨_, rfl, rfl, rfl, rfl⟩
  obtain ⟨p, hp, hsegments, hindexes, hrunning⟩ := hrun _ h
  obtain ⟨hshape, hplaceholders, hrecord⟩ := (hstates h _ _).2 29 p hp
  refine ⟨_, p, h, hp, hsegments, ?_, ?_, ?_⟩
  · rw [hshape, hsegments]
    rfl
  · rw [hplaceholders, hindexes]
    rfl
  · rw [hrecord, hrunning, hsegments]
    rfl

end Rulebook.Scheme
