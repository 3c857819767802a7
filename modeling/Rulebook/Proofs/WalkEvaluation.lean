import Rulebook.Proofs.Compile
import Rulebook.Proofs.Evaluation
import Rulebook.Proofs.Grouping
import Rulebook.Proofs.Segments

/-!
# Walks do what evaluations say

A walk and an evaluation go through a model side by side.  `Plays` says what becomes of a walk
where the evaluation of the same scope finds a verdict: it records the events, raises the flag if
the verdict fell back, and changes nothing else.  With `failFast` it records the first event only
and has stopped for good.

The proof goes through the functions of `Walk` one by one.  The verdicts are composed by `andThen`
and `settle`, so `Plays.andThen` and `Plays.settle` carry most of it, and `Plays.within` says that
a step which is taken back afterwards (a trail, an index, an open node) leaves no trace.  What a
walk has to be like for the next step is `Ready`.
-/

namespace Rulebook.Walk

open Rulebook.Path (Segment)

variable {M : ModelSpace} {k : M.Kind}

/-! ## Walks that can take a step -/

/-- Where the walk would record an error. -/
def position (w : Walk M) : String := Path.fillIndexes w.path w.indexes.reverse

/-- The walk has not stopped, no presence is broken, and it is at the node that the segments lead
to, with those nodes open. -/
structure Ready (w : Walk M) (opened : List M.Node) (segments : List Segment) : Prop where
  running : w.halted = false
  steady : w.fellBack = false
  opened : w.opened = opened
  concrete : ∀ s ∈ segments, s.IsConcrete
  path : w.path = Path.ofSegments (segments.map Segment.shape)
  indexes : w.indexes.reverse = segments.filterMap Segment.index?

namespace Ready

variable {w : Walk M} {opened : List M.Node} {segments : List Segment} {paths : PathTable}

/-- A walk that begins. -/
theorem start : Ready (M := M) {} [] [] := ⟨rfl, rfl, rfl, nofun, rfl, rfl⟩

/-- The walk would record an error at the path of its node. -/
theorem here (h : Ready w opened segments) : w.position = Path.ofSegments segments := by
  rw [position, h.path, h.indexes, Path.fillIndexes_ofSegments h.concrete]

theorem enter (h : Ready w opened segments) (hpaths : ∀ b r, paths.resolve b r = Path.join b r)
    {name : String} (hname : Path.isMemberName name) :
    Ready (w.enter paths name) opened (segments ++ [.member name]) where
  running := h.running
  steady := h.steady
  opened := h.opened
  concrete := by
    simp only [List.forall_mem_append, List.forall_mem_singleton]
    exact ⟨h.concrete, hname⟩
  path := by
    rw [List.map_append, List.map_singleton, Segment.shape_member, Path.ofSegments_concat,
      ← h.path]
    exact hpaths w.path name
  indexes := by
    rw [List.filterMap_append]
    exact h.indexes.trans (List.append_nil _).symm

theorem enterIndex (h : Ready w opened segments)
    (hpaths : ∀ b r, paths.resolve b r = Path.join b r) (index : Nat) :
    Ready (w.enterIndex paths index) opened (segments ++ [.index index]) where
  running := h.running
  steady := h.steady
  opened := h.opened
  concrete := by
    simp only [List.forall_mem_append, List.forall_mem_singleton]
    exact ⟨h.concrete, trivial⟩
  path := by
    rw [List.map_append, List.map_singleton, Segment.shape_index, Path.ofSegments_concat,
      ← h.path]
    exact hpaths w.path Path.anyIndex
  indexes := by
    rw [List.filterMap_append]
    show (index :: w.indexes).reverse = _
    rw [List.reverse_cons, h.indexes]
    rfl

theorem push (h : Ready w opened segments) (node : M.Node) :
    Ready { w with opened := node :: w.opened } (node :: opened) segments where
  running := h.running
  steady := h.steady
  opened := congrArg (node :: ·) h.opened
  concrete := h.concrete
  path := h.path
  indexes := h.indexes

end Ready

/-! ## What becomes of a walk -/

/-- What becomes of a walk where an evaluation finds `r`. -/
inductive Plays (failFast : Bool) (r : Verdict String) (w : Walk M) : Option (Walk M) → Prop where
  /-- The bound for the nesting is used up before the walk has stopped. -/
  | outOfDepth (hquiet : failFast = false ∨ r.events = []) (hend : r.ending = .outOfDepth) :
    Plays failFast r w none
  /-- The walk records all events. -/
  | ends (hquiet : failFast = false ∨ r.events = []) (hend : r.ending ≠ .outOfDepth) :
    Plays failFast r w (some { w with
      errors := ErrorsByPath.recordAll w.errors r.events
      fellBack := decide (r.ending = .fellBack) })
  /-- The walk records the first event and has stopped. -/
  | halts {e : String × ErrorId} {rest : List (String × ErrorId)} {fellBack : Bool}
    (hfast : failFast = true) (hevents : r.events = e :: rest) :
    Plays failFast r w (some { w with
      errors := ErrorsByPath.record w.errors e.1 e.2, halted := true, fellBack })

namespace Plays

variable {failFast : Bool} {r next : Verdict String} {w w' : Walk M} {result : Option (Walk M)}

/-- A step leaves the walk at its node. -/
theorem ready (h : Plays failFast r w (some w')) {opened : List M.Node} {segments : List Segment}
    (hw : Ready w opened segments) (hgo : w'.stops = false) : Ready w' opened segments := by
  rw [stops, Bool.or_eq_false_iff] at hgo
  cases h with
  | ends hquiet hend => exact { hw with steady := hgo.1 }
  | halts hfast hevents => exact absurd hgo.2 Bool.noConfusion

/-- What is taken back afterwards leaves no trace. -/
theorem within {enter : Walk M} {leave : Walk M → Walk M} (h : Plays failFast r enter result)
    (herrors : enter.errors = w.errors) (hhalted : enter.halted = w.halted)
    (hleave : ∀ errors halted fellBack, leave { enter with errors, halted, fellBack } =
      { w with errors, halted, fellBack }) : Plays failFast r w (result.map leave) := by
  cases h with
  | outOfDepth hquiet hend => exact .outOfDepth hquiet hend
  | ends hquiet hend =>
    rw [Option.map_some, hleave, herrors, hhalted]
    exact .ends hquiet hend
  | halts hfast hevents =>
    rw [Option.map_some, hleave, herrors]
    exact .halts hfast hevents

/-- Going on after a node below forgets that a presence was broken there. -/
theorem settle (h : Plays failFast r w result) : Plays failFast r.settle w (result.map goOn) := by
  cases h with
  | outOfDepth hquiet hend =>
    rw [Verdict.settle, hend]
    exact .outOfDepth hquiet hend
  | ends hquiet hend =>
    have hend' : r.settle.ending = .finished := by
      rw [Verdict.settle]
      cases hr : r.ending with
      | finished => exact hr
      | fellBack => rfl
      | outOfDepth => exact absurd hr hend
    have hsettled : Plays failFast r.settle w (some { w with
        errors := ErrorsByPath.recordAll w.errors r.settle.events
        fellBack := decide (r.settle.ending = .fellBack) }) := by
      refine .ends ?_ ?_
      · rwa [Verdict.events_settle]
      · rw [hend']
        exact Ending.noConfusion
    rwa [hend', Verdict.events_settle] at hsettled
  | halts hfast hevents =>
    rw [← Verdict.events_settle] at hevents
    exact .halts hfast hevents

/-- A walk that stops stays as it is, and one that does not goes on. -/
theorem andThen {go : Walk M → Option (Walk M)} (h : Plays failFast r w result)
    (hstop : ∀ w', result = some w' → w'.stops = true → go w' = some w')
    (hgo : ∀ w', result = some w' → w'.stops = false → Plays failFast next w' (go w'))
    (hrunning : w.halted = false) :
    Plays failFast (r.andThen next) w (result.bind go) := by
  cases h with
  | outOfDepth hquiet hend =>
    rw [Verdict.andThen_of_ne_finished (by rw [hend]; exact Ending.noConfusion)]
    exact .outOfDepth hquiet hend
  | ends hquiet hend =>
    by_cases hfinished : r.ending = .finished
    · have hgoes := hgo _ rfl (by simp [stops, hfinished, hrunning])
      rw [Verdict.andThen_of_finished hfinished, Option.bind_some]
      generalize hres : go _ = result' at hgoes
      cases hgoes with
      | outOfDepth hquiet' hend' =>
        refine .outOfDepth ?_ hend'
        rcases hquiet with hquiet | hquiet
        · exact .inl hquiet
        · exact hquiet'.imp_right fun h => by rw [hquiet, h]; rfl
      | ends hquiet' hend' =>
        rw [← ErrorsByPath.recordAll_append]
        refine .ends (r := ⟨r.events ++ next.events, next.ending⟩) ?_ hend'
        rcases hquiet with hquiet | hquiet
        · exact .inl hquiet
        · exact hquiet'.imp_right fun h => by rw [hquiet, h]; rfl
      | halts hfast hevents =>
        have hnone : r.events = [] := hquiet.resolve_left (by rw [hfast]; exact Bool.noConfusion)
        rw [hnone, ErrorsByPath.recordAll_nil]
        exact .halts hfast hevents
    · have hstops := hstop _ rfl (by
        cases hr : r.ending with
        | finished => exact absurd hr hfinished
        | fellBack => simp [stops]
        | outOfDepth => exact absurd hr hend)
      rw [Verdict.andThen_of_ne_finished hfinished, Option.bind_some, hstops]
      exact .ends hquiet hend
  | halts hfast hevents =>
    rw [Option.bind_some, hstop _ rfl (by simp [stops])]
    rcases Verdict.events_andThen r next with h | h
    · exact .halts hfast (by rw [h, hevents]; rfl)
    · exact .halts hfast (by rw [h, hevents])

end Plays

/-! ## Recording -/

section Recording

variable {w : Walk M} {opened : List M.Node} {segments : List Segment}

theorem plays_nothing (hw : Ready w opened segments) (failFast : Bool) :
    Plays failFast {} w (some w) := by
  have hsame : w = { w with fellBack := false } := by
    rw [← hw.steady]
  rw [hsame]
  exact .ends (r := {}) (.inr rfl) Ending.noConfusion

theorem plays_record (hw : Ready w opened segments) (options : Options) (id : ErrorId) :
    Plays options.failFast { events := [(Path.ofSegments segments, id)] } w
      (some (w.record options id)) := by
  rw [record, hw.running, if_neg Bool.false_ne_true, ← position, hw.here]
  cases hfast : options.failFast with
  | true => exact .halts (r := { events := [(Path.ofSegments segments, id)] }) rfl rfl
  | false =>
    have hends : Plays false { events := [(Path.ofSegments segments, id)] } w (some { w with
        errors := ErrorsByPath.record w.errors (Path.ofSegments segments) id
        fellBack := false }) :=
      .ends (r := { events := [(Path.ofSegments segments, id)] }) (.inl rfl) Ending.noConfusion
    rw [hw.running] at hends
    rw [hw.steady]
    exact hends

theorem plays_breach (hw : Ready w opened segments) (options : Options) (id : ErrorId) :
    Plays options.failFast (.breach (Path.ofSegments segments) id) w
      (some (w.breach options id)) := by
  rw [breach, record, hw.running, if_neg Bool.false_ne_true, ← position, hw.here]
  cases hfast : options.failFast with
  | true => exact .halts (r := .breach (Path.ofSegments segments) id) rfl rfl
  | false =>
    have hsame : w = { w with halted := false } := by
      rw [← hw.running]
    rw [hsame]
    exact .ends (r := .breach (Path.ofSegments segments) id) (.inl rfl) Ending.noConfusion

end Recording

/-! ## Steps -/

/-- A visitor does what a reader says wherever there is a scope to visit. -/
def Follows (c : Course M) (opened : List M.Node) (read : Evaluation.Reader M String)
    (visit : Visitor M) : Prop :=
  ∀ (approach : Approach) (id : ScopeId) (k : M.Kind) (value : Option (M.Value k))
    (segments : List Segment) (w : Walk M),
    (∃ scope : Scope M k, c.scopes.typed? id k = some scope) → Ready w opened segments →
    Plays c.options.failFast (read approach id k value (Path.ofSegments segments)) w
      (visit approach id k value w)

section Steps

variable {c : Course M} {catalog : Catalog} {opened : List M.Node}
  {read : Evaluation.Reader M String} {visit : Visitor M} {id : ScopeId} {scope : Scope M k}
  {segments : List Segment} {w : Walk M}

theorem below_ofSegments (segments : List Segment) (s : Segment) :
    Path.below (Path.ofSegments segments) s = Path.ofSegments (segments ++ [s]) :=
  (Path.ofSegments_concat segments s).symm

theorem visitElements_plays {paths : PathTable} {failFast : Bool}
    (hpaths : ∀ b r, paths.resolve b r = Path.join b r)
    {readOne : Option (M.Value k) → String → Verdict String}
    {visitOne : Option (M.Value k) → Walk M → Option (Walk M)}
    (hone : ∀ e segments w, Ready w opened segments →
      Plays failFast (readOne e (Path.ofSegments segments)) w (visitOne e w))
    (elements : List (Option (M.Value k))) (index : Nat) (hw : Ready w opened segments) :
    Plays failFast
      (Evaluation.evalElements Path.below readOne (Path.ofSegments segments) index elements) w
      (visitElements paths visitOne index elements w) := by
  induction elements generalizing index w with
  | nil => exact plays_nothing hw failFast
  | cons e rest ih =>
    have hbelow : Plays failFast
        (readOne e (Path.below (Path.ofSegments segments) (.index index)))
        w ((visitOne e (w.enterIndex paths index)).map leaveIndex) := by
      rw [below_ofSegments]
      exact (hone e _ _ (hw.enterIndex hpaths index)).within rfl rfl fun _ _ _ => rfl
    have hstep := hbelow.settle
    -- Going back up and going on are two steps of the walk, so that each has its own lemma.
    have hvisit : visitElements paths visitOne index (e :: rest) w =
        (((visitOne e (w.enterIndex paths index)).map leaveIndex).map goOn).bind fun w =>
          if w.halted then some w else visitElements paths visitOne (index + 1) rest w := by
      rw [Option.bind_map, Option.bind_map]
      rfl
    rw [hvisit, Evaluation.evalElements]
    refine hstep.andThen ?_ ?_ hw.running
    · intro w' hw' hstops
      obtain ⟨w₁, _, rfl⟩ := Option.map_eq_some_iff.1 hw'
      exact if_pos hstops
    · intro w' hw' hstops
      rw [hw'] at hstep
      have hready := hstep.ready hw hstops
      rw [if_neg (by rw [hready.running]; exact Bool.false_ne_true)]
      exact ih (index + 1) hready

theorem takeStep_plays (hfits : c.scopes.Fits catalog)
    (hpaths : ∀ b r, c.paths.resolve b r = Path.join b r)
    (hscope : c.scopes.typed? id k = some scope) (hfollows : Follows c opened read visit)
    {step : Step M k} (hstep : step ∈ scope.steps) (v : M.Value k)
    (hw : Ready w opened segments) :
    Plays c.options.failFast
      (Evaluation.evalStep Path.below read v (Path.ofSegments segments) step)
      w (takeStep c visit v w step) := by
  cases step with
  | rule error test =>
    rw [Evaluation.evalStep, takeStep]
    split
    · exact plays_nothing hw _
    · exact plays_record hw c.options error
  | member name target kind get =>
    have hname := hfits.isMemberName hscope hstep List.mem_cons_self
    have htarget := hfits.exists_typed? hscope hstep
      (List.mem_cons_of_mem _ List.mem_cons_self)
    have hbelow : Plays c.options.failFast
        (read .entering target kind (get v)
          (Path.below (Path.ofSegments segments) (.member name)))
        w ((visit .entering target kind (get v) (w.enter c.paths name)).map leave) := by
      rw [below_ofSegments]
      exact (hfollows _ _ _ _ _ _ htarget (hw.enter hpaths hname)).within rfl rfl
        fun _ _ _ => rfl
    have htake : takeStep c visit v w (.member name target kind get) =
        ((visit .entering target kind (get v) (w.enter c.paths name)).map leave).map goOn := by
      rw [Option.map_map]
      exact Option.map_eq_bind.symm
    rw [htake]
    exact hbelow.settle
  | collection target kind elements =>
    have htarget := hfits.exists_typed? hscope hstep List.mem_cons_self
    exact visitElements_plays hpaths
      (fun e segments w hw => hfollows _ _ _ e segments w htarget hw) (elements v) 0 hw
  | inclusion target =>
    exact hfollows _ _ _ _ _ _ (hfits.exists_typed? hscope hstep List.mem_cons_self) hw
  | narrowing target kind view =>
    rw [Evaluation.evalStep, takeStep]
    cases view v with
    | none => exact plays_nothing hw _
    | some u =>
      exact hfollows _ _ _ _ _ _ (hfits.exists_typed? hscope hstep List.mem_cons_self) hw

theorem takeSteps_plays (hfits : c.scopes.Fits catalog)
    (hpaths : ∀ b r, c.paths.resolve b r = Path.join b r)
    (hscope : c.scopes.typed? id k = some scope) (hfollows : Follows c opened read visit)
    {steps : List (Step M k)} (hsteps : ∀ step ∈ steps, step ∈ scope.steps) (v : M.Value k)
    (hw : Ready w opened segments) :
    Plays c.options.failFast
      (Evaluation.evalSteps Path.below read v (Path.ofSegments segments) steps) w
      (takeSteps c visit v steps w) := by
  induction steps generalizing w with
  | nil => exact plays_nothing hw _
  | cons step rest ih =>
    rw [List.forall_mem_cons] at hsteps
    have hfirst := takeStep_plays hfits hpaths hscope hfollows hsteps.1 v hw
    refine hfirst.andThen ?_ ?_ hw.running
    · intro w' _ hstops
      exact if_pos hstops
    · intro w' hw' hstops
      rw [hw'] at hfirst
      rw [if_neg (by rw [hstops]; exact Bool.false_ne_true)]
      exact ih hsteps.2 (hfirst.ready hw hstops)

theorem checkWith_plays (hfits : c.scopes.Fits catalog)
    (hpaths : ∀ b r, c.paths.resolve b r = Path.join b r)
    (hscope : c.scopes.typed? id k = some scope) (hfollows : Follows c opened read visit)
    (value : Option (M.Value k)) (hw : Ready w opened segments) :
    Plays c.options.failFast
      (Evaluation.evalScope Path.below read scope value (Path.ofSegments segments)) w
      (checkWith c visit scope value w) := by
  unfold checkWith
  cases value with
  | none =>
    rw [Evaluation.evalScope, Scope.absence?]
    cases scope.presence with
    | none => exact plays_nothing hw _
    | some policy =>
      cases policy with
      | optional => exact plays_nothing hw _
      | required error => exact plays_breach hw c.options error
      | forbidden error => exact plays_nothing hw _
  | some v =>
    have hsteps := takeSteps_plays hfits hpaths hscope hfollows (fun _ h => h) v hw
    rw [Evaluation.evalScope, Scope.refusal?]
    cases scope.presence with
    | none => exact hsteps
    | some policy =>
      cases policy with
      | optional => exact hsteps
      | required error => exact hsteps
      | forbidden error => exact plays_breach hw c.options error

end Steps

/-- A node that is open while a scope is checked leaves no trace. -/
theorem guarded_plays {failFast : Bool} {r : Verdict String} {check : Walk M → Option (Walk M)}
    {node : M.Node} {w : Walk M} (hnode : node ∉ w.opened)
    (h : Plays failFast r { w with opened := node :: w.opened }
      (check { w with opened := node :: w.opened })) :
    Plays failFast r w (guarded node check w) := by
  have hguarded : guarded node check w =
      (check { w with opened := node :: w.opened }).map
        fun w' => { w' with opened := w'.opened.tail } := by
    unfold guarded
    rw [if_neg hnode]
    exact Option.map_eq_bind.symm
  rw [hguarded]
  exact h.within rfl rfl fun _ _ _ => rfl

/-- A visit of a walk does what the evaluation to the same depth says. -/
theorem visit_follows {c : Course M} {catalog : Catalog} (hfits : c.scopes.Fits catalog)
    (hpaths : ∀ b r, c.paths.resolve b r = Path.join b r) {guard : Bool}
    (hguard : c.options.guardLoops = guard) (depth : Nat) (opened : List M.Node) :
    Follows c opened
      (Evaluation.eval Path.below c.scopes guard depth opened) (visit c depth) := by
  induction depth generalizing opened with
  | zero =>
    intro approach id k value segments w _ hw
    exact .outOfDepth (.inr rfl) rfl
  | succ depth ih =>
    intro approach id k value segments w htyped hw
    obtain ⟨scope, hscope⟩ := htyped
    have hcheck {nodes : List M.Node} {w : Walk M} (hw : Ready w nodes segments) :=
      checkWith_plays hfits hpaths hscope (ih nodes) value hw
    rw [Evaluation.eval, visit, hscope, hguard]
    cases approach with
    | staying => exact hcheck hw
    | entering =>
      cases value with
      | none => cases guard <;> exact hcheck hw
      | some v =>
        cases guard with
        | false => exact hcheck hw
        | true =>
          by_cases hopen : M.nodeOf v ∈ opened
          · have hpass : Evaluation.passesOver true opened .entering (some v) = true :=
              Evaluation.passesOver_entering.2 hopen
            have hvisit : guarded (M.nodeOf v) (checkWith c (visit c depth) scope (some v)) w =
                some w := if_pos (by rwa [hw.opened])
            simp only [hpass, if_true, hvisit]
            exact plays_nothing hw _
          · have hpass : Evaluation.passesOver true opened .entering (some v) = false :=
              Bool.eq_false_iff.2 (mt Evaluation.passesOver_entering.1 hopen)
            simp only [hpass]
            refine guarded_plays (by rw [hw.opened]; exact hopen) ?_
            exact hcheck (hw.push (M.nodeOf v))

end Rulebook.Walk
