import Rulebook.Proofs.Alignment
import Rulebook.Proofs.Termination

/-!
# Joins that are ready

A survey joins paths and puts them in a table, and a run looks its joins up there.  Looking up a
pair that is not in the table is no mistake, as it is joined on the spot, but where the scopes are
not recursive it does not happen: the survey and the run take the same steps.

A run is followed task by task.  Each task is about a scope into which the survey has looked at
the same shape (`Task.Surveyed`), and a task that enters a node does so by a segment that the
survey has entered there.  In recursive scopes this is lost, because the survey turns back where
it meets an open scope again and the run goes on.
-/

namespace Rulebook

open Rulebook.Path (Segment)

/-! ## What a survey has entered -/

namespace Survey

/-- The state knows that a segment leads down from these segments: the join is in its table, and
it has been so deep. -/
structure State.Knows (st : State) (segments : List Segment) (s : Segment) : Prop where
  found : ∃ joined, st.paths.find? (Path.ofSegments segments) s.text = some joined
  deep : segments.length < st.maxDepth

namespace State

variable {st : State} {segments : List Segment} {s : Segment}

theorem knows_entered (st : State) (segments : List Segment) (s : Segment) :
    (st.apply (.entered segments s)).Knows segments s where
  found := ⟨_, by rw [apply, PathTable.find?_insert, if_pos ⟨rfl, rfl⟩]⟩
  deep := Nat.le_max_right _ _

/-- What has been found once stays. -/
theorem Knows.apply (h : st.Knows segments s) (x : Finding) : (st.apply x).Knows segments s := by
  obtain ⟨⟨joined, hjoined⟩, hdeep⟩ := h
  cases x with
  | error segments' id => exact ⟨⟨joined, hjoined⟩, hdeep⟩
  | entered segments' s' =>
    refine ⟨?_, Nat.lt_of_lt_of_le hdeep (Nat.le_max_left _ _)⟩
    rw [State.apply, PathTable.find?_insert]
    split
    · exact ⟨_, rfl⟩
    · exact ⟨joined, hjoined⟩
  | again o g =>
    rw [State.apply]
    split <;> exact ⟨⟨joined, hjoined⟩, hdeep⟩
  | missing id => exact ⟨⟨joined, hjoined⟩, hdeep⟩

theorem Knows.foldl (h : st.Knows segments s) (fs : List Finding) :
    (fs.foldl State.apply st).Knows segments s := by
  induction fs generalizing st with
  | nil => exact h
  | cons f rest ih => exact ih (h.apply f)

theorem knows_of_mem {fs : List Finding} (h : .entered segments s ∈ fs) (st : State) :
    (fs.foldl State.apply st).Knows segments s := by
  induction fs generalizing st with
  | nil => exact absurd h List.not_mem_nil
  | cons f rest ih =>
    rcases List.mem_cons.1 h with rfl | hrest
    · exact (knows_entered st segments s).foldl rest
    · exact ih hrest _

end State

namespace Branch

variable {outlines : Dict ScopeId Outline} {root : ScopeId} {f : Frame} {stack : List Frame}

/-- The survey has entered the last segment of a branch. -/
theorem entered_mem_report (h : Branch outlines root f stack) {outer : List Segment} {t : Segment}
    (hf : f.segments = outer ++ [t]) : .entered outer t ∈ report outlines root := by
  induction h with
  | root => exact absurd hf.symm (List.append_ne_nil_of_right_ne_nil _ (List.cons_ne_nil _ _))
  | @next f stack o step target h ho hstep htarget hclosed ih =>
    rw [Frame.next] at hf
    cases hsegment : step.segment? with
    | none =>
      rw [hsegment, Option.toList_none, List.append_nil] at hf
      exact ih hf
    | some s =>
      rw [hsegment, Option.toList_some] at hf
      obtain ⟨rfl, hs⟩ := List.append_inj' hf rfl
      obtain rfl := List.singleton_inj.1 hs
      refine h.findings_subset ?_
      rw [h.findings_eq ho]
      refine List.mem_append_right _ (List.mem_flatMap.2 ⟨step, hstep, ?_⟩)
      rw [stepFindings, hsegment]
      exact List.mem_append_left _ (List.mem_append_right _ (List.mem_singleton_self _))

variable {s : Survey}

/-- Where a branch has entered its last segment the join is in the table. -/
theorem found (hs : ofOutlines outlines root = .ok s) (h : Branch outlines root f stack)
    {outer : List Segment} {t : Segment} (hf : f.segments = outer ++ [t]) :
    s.paths.find? (Path.ofSegments outer) t.text =
        some (Path.join (Path.ofSegments outer) t.text) ∧
      f.segments.length ≤ s.maxDepth := by
  have hknows := State.knows_of_mem (h.entered_mem_report hf) {}
  have hcorrect := paths_of_ofOutlines hs
  obtain ⟨_, rfl⟩ := ofOutlines_eq_ok_iff.1 hs
  obtain ⟨⟨joined, hjoined⟩, hdeep⟩ := hknows
  refine ⟨?_, ?_⟩
  · rw [← hcorrect _ _ _ hjoined]
    exact hjoined
  · rw [hf, List.length_append]
    exact hdeep

/-- No branch is deeper than the survey says. -/
theorem length_segments_le (hs : ofOutlines outlines root = .ok s)
    (h : Branch outlines root f stack) : f.segments.length ≤ s.maxDepth := by
  rcases List.eq_nil_or_concat f.segments with hnil | ⟨outer, t, hf⟩
  · rw [hnil]
    exact Nat.zero_le _
  · rw [List.concat_eq_append] at hf
    exact (h.found hs hf).2

end Branch

end Survey

/-! ## Scopes at the shape of a node -/

namespace Scheme

variable {M : ModelSpace} {k l : M.Kind} {s : Scheme M k} {inner : List Segment} {id : ScopeId}

/-- The survey looks into a scope at the shape of a node, given by its segments with the innermost
first. -/
def LooksInto (s : Scheme M k) (inner : List Segment) (id : ScopeId) : Prop :=
  ∃ f stack, Survey.Branch s.scopes.outlines s.rootId f stack ∧ f.id = id ∧
    f.segments = (inner.map Segment.shape).reverse

theorem looksInto_root (s : Scheme M k) : s.LooksInto [] s.rootId := ⟨_, _, .root, rfl, rfl⟩

/-- Where the scopes are not recursive, the survey follows each step. -/
theorem LooksInto.step (hs : s.IsCompiled) (hrec : s.recursive = false) (h : s.LooksInto inner id)
    {scope : Scope M l} (hscope : s.scopes.typed? id l = some scope) {step : Step M l}
    (hstep : step ∈ scope.live) {target : ScopeId} (htarget : step.outline.target? = some target)
    (down : Option Segment) (hdown : step.outline.segment? = down.map Segment.shape) :
    s.LooksInto (down.toList ++ inner) target := by
  obtain ⟨f, stack, hbranch, rfl, hsegments⟩ := h
  have hlive : step.outline ∈ scope.outline.live := by
    rw [Scope.live_outline]
    exact List.mem_map_of_mem hstep
  rcases hbranch.next_or_again (ScopeTable.find?_outlines hscope) hlive htarget with
    hnext | ⟨g, _, _, hmem⟩
  · refine ⟨_, _, hnext, rfl, ?_⟩
    rw [Survey.Frame.next, hsegments, hdown]
    cases down with
    | none => exact List.append_nil _
    | some t => exact List.reverse_cons.symm
  · exact absurd hmem (hs.not_again hrec g _)

/-- The join of the shape of a node with the segment by which it was entered is in the table. -/
theorem LooksInto.found (hs : s.IsCompiled) {t : Segment} (h : s.LooksInto (t :: inner) id) :
    s.survey.paths.find? (Path.ofSegments (inner.reverse.map Segment.shape)) t.shape.text =
      some (Path.join (Path.ofSegments (inner.reverse.map Segment.shape)) t.shape.text) := by
  obtain ⟨f, stack, hbranch, _, hsegments⟩ := h
  rw [List.map_cons, List.reverse_cons, ← List.map_reverse] at hsegments
  exact (hbranch.found hs.surveyed hsegments).1

/-- The survey is as deep as the node. -/
theorem LooksInto.length_le (hs : s.IsCompiled) (h : s.LooksInto inner id) :
    inner.length ≤ s.survey.maxDepth := by
  obtain ⟨f, stack, hbranch, _, hsegments⟩ := h
  have hle := hbranch.length_segments_le hs.surveyed
  rwa [hsegments, List.length_reverse, List.length_map] at hle

end Scheme

/-! ## What a task keeps -/

namespace Walk

variable {M : ModelSpace} {k l : M.Kind} {s : Scheme M k} {inner : List Segment}

/-- The segment by which a task enters a node. -/
def Task.entered? : Task M → Option Segment
  | .steps _ _ (.member name _ _ _ :: _) => some (.member name)
  | .elements _ _ index (_ :: _) => some (.index index)
  | _ => none

/-- The pair that the next task looks up: the shape of the node where the walk is, and the segment
that leads to the shape of the node which the task enters. -/
def Progress.lookUp? (p : Progress M) : Option (String × String) :=
  (p.todo.head?.bind Task.entered?).map fun t => (p.walk.path, t.shape.text)

theorem Progress.lookUp?_cons (w : Walk M) (task : Task M) (rest : List (Task M)) :
    lookUp? ⟨w, task :: rest⟩ = task.entered?.map fun t => (w.path, t.shape.text) := rfl

/-- The survey has looked into the scope that a task is about, at the shape of the node. -/
def Task.Surveyed (s : Scheme M k) (inner : List Segment) : Task M → Prop
  | .visit _ id _ _ => s.LooksInto inner id
  | .check l scope _ => ∃ id, s.scopes.typed? id l = some scope ∧ s.LooksInto inner id
  | .steps l _ rest | .furtherSteps l _ rest =>
    ∃ id scope, s.scopes.typed? id l = some scope ∧ s.LooksInto inner id ∧
      ∀ step ∈ rest, step ∈ scope.live
  | .elements id _ _ _ | .furtherElements id _ _ _ => s.LooksInto (.anyIndex :: inner) id
  | .leave segment => ∃ id, s.LooksInto (segment :: inner) id
  | .goOn | .close => True

/-- Each task is surveyed, at the node where the walk is when it comes to the task. -/
def AllSurveyed (s : Scheme M k) (inner : List Segment) : List (Task M) → Prop
  | [] => True
  | task :: rest =>
    task.Surveyed s (rest.filterMap Task.segment? ++ inner) ∧ AllSurveyed s inner rest

namespace AllSurveyed

variable {tasks more todo : List (Task M)}

theorem append (h : AllSurveyed s (more.filterMap Task.segment? ++ inner) tasks)
    (hmore : AllSurveyed s inner more) : AllSurveyed s inner (tasks ++ more) := by
  induction tasks with
  | nil => exact hmore
  | cons task rest ih =>
    refine ⟨?_, ih h.2⟩
    have hsegments : (rest ++ more).filterMap Task.segment? ++ inner =
        rest.filterMap Task.segment? ++ (more.filterMap Task.segment? ++ inner) := by
      rw [List.filterMap_append, List.append_assoc]
    exact hsegments ▸ h.1

/-- The survey has been at the shape of the node where the walk is. -/
theorem exists_looksInto (h : AllSurveyed s [] todo) :
    ∃ id, s.LooksInto (todo.filterMap Task.segment?) id := by
  induction todo with
  | nil => exact ⟨_, s.looksInto_root⟩
  | cons task rest ih =>
    obtain ⟨htask, hrest⟩ := h
    cases task with
    | leave segment =>
      rw [List.append_nil] at htask
      exact htask
    | visit | check | steps | furtherSteps | elements | furtherElements | goOn | close =>
      exact ih hrest

end AllSurveyed

section Tasks

variable {c : Course M} {w : Walk M} {step : Step M l}

/-- The steps that are left of surveyed ones are surveyed. -/
theorem Task.Surveyed.furtherSteps {v : M.Value l} {rest : List (Step M l)}
    (h : Task.Surveyed s inner (.steps l v (step :: rest))) :
    Task.Surveyed s inner (.furtherSteps l v rest) := by
  obtain ⟨id, scope, hscope, hlooks, hlive⟩ := h
  exact ⟨id, scope, hscope, hlooks, (List.forall_mem_cons.1 hlive).2⟩

/-- The survey has looked into the scope to which the first of surveyed steps leads. -/
theorem Task.Surveyed.follow (hs : s.IsCompiled) (hrec : s.recursive = false) {v : M.Value l}
    {rest : List (Step M l)} (h : Task.Surveyed s inner (.steps l v (step :: rest)))
    {target : ScopeId} (htarget : step.outline.target? = some target) (down : Option Segment)
    (hdown : step.outline.segment? = down.map Segment.shape) :
    s.LooksInto (down.toList ++ inner) target := by
  obtain ⟨id, scope, hscope, hlooks, hlive⟩ := h
  exact hlooks.step hs hrec hscope (hlive _ List.mem_cons_self) htarget down hdown

/-- A surveyed task leaves surveyed tasks. -/
theorem Performs.surveyed (hs : s.IsCompiled) (hrec : s.recursive = false)
    (hc : c.scopes = s.scopes) {task : Task M} {r : Walk M × List (Task M)}
    (hperforms : Performs c w task r) (h : task.Surveyed s inner) : AllSurveyed s inner r.2 := by
  cases hperforms with
  | look hscope => exact ⟨⟨_, hc ▸ hscope, h⟩, trivial⟩
  | openNode hscope => exact ⟨⟨_, hc ▸ hscope, h⟩, trivial, trivial⟩
  | @begin _ scope _ hpresence =>
    have hlive : scope.live = scope.steps := by
      refine Scope.live_eq_steps ?_
      rw [Scope.refusal?]
      split
      · rename_i herror
        exact absurd herror (hpresence _)
      · rfl
    obtain ⟨id, hscope, hlooks⟩ := h
    exact ⟨⟨id, scope, hscope, hlooks, fun _ hstep => hlive ▸ hstep⟩, trivial⟩
  | hold | fail | skip => exact ⟨h.furtherSteps, trivial⟩
  | member =>
    have htarget := h.follow hs hrec rfl (some (.member _)) rfl
    exact ⟨htarget, ⟨_, htarget⟩, trivial, h.furtherSteps, trivial⟩
  | collection => exact ⟨h.follow hs hrec rfl (some .anyIndex) rfl, h.furtherSteps, trivial⟩
  | inclusion | narrow => exact ⟨h.follow hs hrec rfl none rfl, h.furtherSteps, trivial⟩
  | nextStep | nextElement => exact ⟨h, trivial⟩
  | @element _ id index =>
    -- The shape of an element is the same for every index.
    have helement : s.LooksInto (.index index :: inner) id := h
    exact ⟨helement, ⟨id, helement⟩, trivial, h, trivial⟩
  | miss | passOver | breach | absent | noSteps | stop | noElements |
      halt | leave | goOn | close =>
    trivial

/-- A surveyed task enters a node at a shape into which the survey has looked. -/
theorem Task.Surveyed.exists_looksInto (hs : s.IsCompiled) (hrec : s.recursive = false)
    {task : Task M} (h : task.Surveyed s inner) {t : Segment} (ht : task.entered? = some t) :
    ∃ id, s.LooksInto (t :: inner) id := by
  cases task with
  | steps l v steps =>
    cases steps with
    | nil => exact nomatch ht
    | cons step rest =>
      cases step with
      | member name target kind get =>
        obtain rfl := Option.some.inj ht
        exact ⟨target, Task.Surveyed.follow hs hrec h rfl (some (.member name)) rfl⟩
      | rule | collection | inclusion | narrowing => exact nomatch ht
  | elements id l index elements =>
    cases elements with
    | nil => exact nomatch ht
    | cons e rest =>
      obtain rfl := Option.some.inj ht
      exact ⟨id, h⟩
  | visit | check | furtherSteps | furtherElements | leave | goOn | close => exact nomatch ht

/-- All that a task looks up is what it enters: with a table that answers the same there, it does
the same. -/
theorem perform_eq_of_resolve {paths : PathTable} {task : Task M}
    (h : ∀ t, task.entered? = some t →
      paths.resolve w.path t.shape.text = c.paths.resolve w.path t.shape.text) :
    perform { c with paths } w task = perform c w task := by
  cases task with
  | steps l v steps =>
    cases steps with
    | nil => rfl
    | cons step rest =>
      cases step with
      | member name target kind get =>
        have hname : paths.resolve w.path name = c.paths.resolve w.path name := h _ rfl
        simp only [perform, startStep, Walk.enter, hname]
      | rule | collection | inclusion | narrowing => rfl
  | elements id l index elements =>
    cases elements with
    | nil => rfl
    | cons e rest =>
      have hindex : paths.resolve w.path Path.anyIndex = c.paths.resolve w.path Path.anyIndex :=
        h _ rfl
      have henter : w.enterIndex paths index = w.enterIndex c.paths index :=
        congrArg
          (fun shape => { w with indexes := index :: w.indexes, trail := shape :: w.trail })
          hindex
      simp only [perform, henter]
  | visit | check | furtherSteps | furtherElements | leave | goOn | close => rfl

end Tasks

/-! ## What a run keeps -/

namespace Progress

variable {c : Course M} {p q : Progress M} {n : Nat}

theorem surveyed_next? (hs : s.IsCompiled) (hrec : s.recursive = false) (hc : c.scopes = s.scopes)
    (h : AllSurveyed s [] p.todo) (hnext : p.next? c = some q) : AllSurveyed s [] q.todo := by
  obtain ⟨w, todo⟩ := p
  cases todo with
  | nil => exact nomatch hnext
  | cons task rest =>
    obtain rfl := Option.some.inj hnext
    exact .append ((performs c w task).surveyed hs hrec hc h.1) h.2

theorem surveyed_after? (hs : s.IsCompiled) (hrec : s.recursive = false)
    (hc : c.scopes = s.scopes)
    (h : AllSurveyed s [] p.todo) (hafter : p.after? c n = some q) : AllSurveyed s [] q.todo :=
  after?_keeps (P := fun p => AllSurveyed s [] p.todo)
    (fun _ _ hp hnext => surveyed_next? hs hrec hc hp hnext) h hafter

/-- What the next task looks up is in the table. -/
theorem found_of_lookUp? (hs : s.IsCompiled) (hrec : s.recursive = false)
    (h : AllSurveyed s [] p.todo) (hsound : p.Sound c) {base relative : String}
    (hpair : p.lookUp? = some (base, relative)) :
    s.survey.paths.find? base relative = some (Path.join base relative) := by
  obtain ⟨w, todo⟩ := p
  cases todo with
  | nil => exact nomatch hpair
  | cons task rest =>
    rw [lookUp?_cons] at hpair
    obtain ⟨t, ht, hpair⟩ := Option.map_eq_some_iff.1 hpair
    obtain ⟨id, hlooks⟩ := h.1.exists_looksInto hs hrec ht
    -- A task that enters a node leaves none.
    have hleaves : task.segment? = none := by
      cases task with
      | leave segment => exact nomatch ht
      | visit | check | steps | furtherSteps | elements | furtherElements | goOn | close => rfl
    have haligned := hsound.aligned
    rw [List.filterMap_cons_none hleaves] at haligned
    rw [List.append_nil] at hlooks
    obtain ⟨rfl, rfl⟩ := Prod.mk.inj hpair
    rw [haligned.path]
    exact hlooks.found hs

section Tables

variable {options : Options} {paths : PathTable}

/-- A table that answers the same for what the next task looks up makes no difference to it. -/
theorem next?_eq_of_resolve
    (h : ∀ base relative, p.lookUp? = some (base, relative) →
      paths.resolve base relative = c.paths.resolve base relative) :
    p.next? { c with paths } = p.next? c := by
  obtain ⟨w, todo⟩ := p
  cases todo with
  | nil => rfl
  | cons task rest =>
    have hperform : perform { c with paths } w task = perform c w task := by
      refine perform_eq_of_resolve fun t ht => h _ _ ?_
      rw [lookUp?_cons, ht, Option.map_some]
    rw [next?_cons, next?_cons, hperform]

/-- With a table that answers the same for all pairs that are in the table of the survey, the run
is the same. -/
theorem after?_eq_of_resolve (hs : s.IsCompiled) (hrec : s.recursive = false)
    (hpaths : ∀ base relative joined, s.survey.paths.find? base relative = some joined →
      paths.resolve base relative = joined)
    (h : AllSurveyed s [] p.todo) (hsound : p.Sound (s.course options)) (n : Nat) :
    p.after? ⟨s.scopes, paths, options⟩ n = p.after? (s.course options) n := by
  induction n generalizing p with
  | zero => rfl
  | succ n ih =>
    have hnext : p.next? ⟨s.scopes, paths, options⟩ = p.next? (s.course options) := by
      refine next?_eq_of_resolve (c := s.course options) fun base relative hpair => ?_
      rw [hpaths _ _ _ (found_of_lookUp? hs hrec h hsound hpair)]
      exact (hs.resolve_eq base relative).symm
    rw [after?, after?, hnext]
    cases hq : p.next? (s.course options) with
    | none => rfl
    | some q => exact ih (surveyed_next? hs hrec rfl h hq) (hsound.next? hs.fits hs.resolve_eq hq)

end Tables

end Progress

end Walk

namespace Scheme

variable {M : ModelSpace} {k : M.Kind}

/-- Looking up a pair comes to joining it, whether the pair is in the table or not.  Where the
scopes are not recursive, each pair that a run looks up is in the table, whatever the model and
the options are: nothing that the table says of other pairs, or would join on the spot, changes
the run.  And a run gets no deeper than the survey says. -/
theorem joins_are_ready {table : ScopeTable M} {rootId : ScopeId} {catalog : Catalog}
    {s : Scheme M k} (h : compile table k rootId catalog = .ok s) :
    (∀ base relative, s.survey.paths.resolve base relative = Path.join base relative) ∧
    (s.recursive = false → ∀ (model : Option (M.Value k)) (options : Options),
      (∀ w, (∃ depth, s.walk? depth model options = some w) ↔
        ∃ n, (s.begin model).after? (s.course options) n = some ⟨w, []⟩) ∧
      (∀ n p, (s.begin model).after? (s.course options) n = some p →
        (∀ base relative, p.lookUp? = some (base, relative) →
          s.survey.paths.find? base relative = some (Path.join base relative)) ∧
        p.walk.path = Path.ofSegments (p.segments.map Segment.shape) ∧
        p.segments.length ≤ s.survey.maxDepth) ∧
      ∀ paths : PathTable,
        (∀ base relative joined, s.survey.paths.find? base relative = some joined →
          paths.resolve base relative = joined) →
        ∀ n, (s.begin model).after? ⟨s.scopes, paths, options⟩ n =
          (s.begin model).after? (s.course options) n) := by
  have hs := isCompiled_of_compile h
  refine ⟨hs.resolve_eq, fun hrec model options => ?_⟩
  have hbegin : Walk.AllSurveyed s [] (s.begin model).todo := ⟨s.looksInto_root, trivial⟩
  refine ⟨fun w => s.exists_walk?_iff model options w, fun n p hp => ?_, fun paths hpaths n => ?_⟩
  · have hsound := hs.sound_of_after? hp
    have hsurveyed := Walk.Progress.surveyed_after? hs hrec rfl hbegin hp
    refine ⟨fun base relative hpair => ?_, hsound.aligned.path, ?_⟩
    · exact Walk.Progress.found_of_lookUp? hs hrec hsurveyed hsound hpair
    · obtain ⟨id, hlooks⟩ := hsurveyed.exists_looksInto
      rw [Walk.Progress.segments, List.length_reverse]
      exact hlooks.length_le hs
  · have hafter : (s.begin model).after? (s.course options) 0 = some (s.begin model) := rfl
    exact Walk.Progress.after?_eq_of_resolve hs hrec hpaths hbegin (hs.sound_of_after? hafter) n

/-- Checking the lines of the knot, the run has looked up its second element and is there, as deep
as the survey says.  A table that says anything of other pairs leads it to the same place. -/
theorem joins_are_ready_knot :
    ∃ (s : Scheme Orders.space .obj) (p q : Walk.Progress Orders.space),
      compile (Orders.table false) .obj ⟨0⟩ Orders.catalog = .ok s ∧ s.recursive = false ∧
      (s.begin (some Orders.knotOrder)).after? (s.course ⟨false, true⟩) 14 = some p ∧
      p.lookUp? = some ("lines", "[#]") ∧
      s.survey.paths.find? "lines" "[#]" = some "lines[#]" ∧
      (s.begin (some Orders.knotOrder)).after?
        ⟨s.scopes, s.survey.paths.insert "lines" "size" "", ⟨false, true⟩⟩ 15 = some q ∧
      q.walk.path = "lines[#]" ∧ q.segments = [.member "lines", .index 1] ∧
      q.segments.length ≤ s.survey.maxDepth := by
  have h : compile (Orders.table false) .obj ⟨0⟩ Orders.catalog = .ok _ := rfl
  obtain ⟨_, hrun⟩ := joins_are_ready h
  obtain ⟨_, hstates, htables⟩ := hrun rfl (some Orders.knotOrder) ⟨false, true⟩
  obtain ⟨hfound, _, _⟩ := hstates 14 _ rfl
  obtain ⟨_, hpath, hdepth⟩ := hstates 15 _ rfl
  refine ⟨_, _, _, h, rfl, rfl, rfl, hfound _ _ rfl, ?_, hpath, rfl, hdepth⟩
  rw [htables]
  · rfl
  · intro base relative joined hjoined
    rw [PathTable.resolve, PathTable.find?_insert]
    split
    · rename_i hpair
      obtain ⟨rfl, rfl⟩ := hpair
      exact absurd hjoined (Option.some_ne_none joined).symm
    · rw [hjoined, Option.getD_some]

/-- In scopes that are recursive a pair can be missing from the table. -/
example : ∃ (s : Scheme Orders.space .obj) (p : Walk.Progress Orders.space),
    compile (Orders.table true) .obj ⟨0⟩ Orders.catalog = .ok s ∧ s.recursive = true ∧
    (s.begin (some Orders.towerOrder)).after? (s.course ⟨false, false⟩) 23 = some p ∧
    p.lookUp? = some ("lines[#].order", "lines") ∧
    s.survey.paths.find? "lines[#].order" "lines" = none :=
  ⟨_, _, rfl, rfl, rfl, rfl, rfl⟩

end Scheme

end Rulebook
