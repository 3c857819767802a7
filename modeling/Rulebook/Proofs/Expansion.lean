import Rulebook.Proofs.Nodes

/-!
# An inclusion stands for the steps of the included scope

Where a scope includes another one, the steps of that scope can be written in its place.  The
table that comes of it makes a scheme as well, and whatever ends in the one scheme ends in the
other, with the same errors.

* A broken presence among the included steps falls back through the inclusion, so it cuts off the
  same steps as it does when they stand there themselves.
* An inclusion stays at its node and is not guarded, so the same nodes are open.
* The nesting is less deep without the inclusion.  So an evaluation says what it said, and can go
  on where it ran out of depth (`eval_expanded`); with `failFast` a walk may have stopped before
  that.
* What the included scope leads to, the including one has led to in two steps, so nothing new can
  be reached, and no scope includes itself that has not done so.

The included scope must not refuse the value, for then the inclusion is an error instead of steps.
-/

namespace Rulebook

variable {M : ModelSpace} {k : M.Kind}

/-! ## Writing steps in place of an inclusion -/

/-- An inclusion in a table: a scope, the steps before and after the inclusion, and the scope that
is included, which is there for the same kind and does not refuse the value. -/
structure InclusionSite (table : ScopeTable M) where
  id : ScopeId
  kind : M.Kind
  before : List (Step M kind)
  target : ScopeId
  after : List (Step M kind)
  presence : Option PresencePolicy
  included : Scope M kind
  typed : table.typed? id kind = some ⟨before ++ .inclusion target :: after, presence⟩
  included_typed : table.typed? target kind = some included
  accepted : included.refusal? = none

namespace InclusionSite

variable {table : ScopeTable M}

/-- The scope with the inclusion. -/
def including (site : InclusionSite table) : Scope M site.kind :=
  ⟨site.before ++ .inclusion site.target :: site.after, site.presence⟩

/-- The scope with the included steps in place of the inclusion. -/
def spelledOut (site : InclusionSite table) : Scope M site.kind :=
  ⟨site.before ++ site.included.steps ++ site.after, site.presence⟩

/-- The table with the included steps in place of the inclusion. -/
def expanded (site : InclusionSite table) : ScopeTable M :=
  table.insert site.id ⟨site.kind, site.spelledOut⟩

variable (site : InclusionSite table)

theorem find?_expanded (id : ScopeId) :
    site.expanded.find? id =
      if id = site.id then some ⟨site.kind, site.spelledOut⟩ else table.find? id :=
  Dict.find?_insert table site.id id _

theorem find?_id : table.find? site.id = some ⟨site.kind, site.including⟩ :=
  ScopeTable.typed?_eq_some_iff.1 site.typed

theorem find?_target : table.find? site.target = some ⟨site.kind, site.included⟩ :=
  ScopeTable.typed?_eq_some_iff.1 site.included_typed

theorem kind?_expanded (id : ScopeId) : site.expanded.kind? id = table.kind? id := by
  rw [ScopeTable.kind?, ScopeTable.kind?, find?_expanded]
  split
  · rename_i h
    rw [h, site.find?_id]
    rfl
  · rfl

/-- The table holds as many scopes as before. -/
theorem size_expanded : site.expanded.size = table.size := by
  have hkeys : site.expanded.keys.Perm table.keys := by
    rw [List.perm_ext_iff_of_nodup (Dict.nodup_keys _) (Dict.nodup_keys _)]
    intro id
    rw [Dict.mem_keys_iff, Dict.mem_keys_iff]
    simp only [find?_expanded]
    split
    · rename_i h
      rw [h, site.find?_id]
      simp
    · rfl
  rw [← Dict.length_keys, ← Dict.length_keys, hkeys.length_eq]

theorem typed?_expanded_id : site.expanded.typed? site.id site.kind = some site.spelledOut :=
  ScopeTable.typed?_eq_some_iff.2 ((site.find?_expanded site.id).trans (if_pos rfl))

theorem typed?_expanded_of_ne {id : ScopeId} {l : M.Kind} (h : ¬(id = site.id ∧ l = site.kind)) :
    site.expanded.typed? id l = table.typed? id l := by
  rw [ScopeTable.typed?, ScopeTable.typed?, find?_expanded]
  by_cases hid : id = site.id
  · have hkind : site.kind ≠ l := fun hkind => h ⟨hid, hkind.symm⟩
    rw [if_pos hid, hid, site.find?_id]
    simp only [dif_neg hkind]
  · rw [if_neg hid]

/-! ## What is evaluated -/

section Evaluated

open Evaluation

variable {π : Type} {down : π → Path.Segment → π} {guard : Bool} {depth : Nat}

/-- Where nothing is lost by the new table, nothing is lost by spelling out an inclusion. -/
theorem eval_included (h : ∀ opened, GoesOn (eval down table guard depth opened)
      (eval down site.expanded guard depth opened)) (opened : List M.Node) (v : M.Value site.kind)
    (p : π) :
    (eval down table guard depth opened .staying site.target site.kind (some v) p).GoesOn
      (evalSteps down (eval down site.expanded guard depth opened) v p site.included.steps) := by
  cases depth with
  | zero => exact .of_nothing _
  | succ depth =>
    have hread : GoesOn (eval down table guard depth opened)
        (eval down site.expanded guard (depth + 1) opened) := fun a id l u p =>
      (eval_goesOn (Nat.le_succ depth) opened a id l u p).trans (h opened a id l u p)
    have heval :
        eval down table guard (depth + 1) opened .staying site.target site.kind (some v) p =
          evalSteps down (eval down table guard depth opened) v p site.included.steps := by
      rw [eval, site.included_typed]
      simp only [passesOver, evalScope, site.accepted]
      rfl
    rw [heval]
    exact evalSteps_goesOn hread v p site.included.steps

/-- With the new table an evaluation says what it said, and goes on where it ran out of depth. -/
theorem eval_expanded (opened : List M.Node) :
    GoesOn (eval down table guard depth opened) (eval down site.expanded guard depth opened) := by
  induction depth generalizing opened with
  | zero => exact fun _ _ _ _ _ => .of_nothing _
  | succ depth ih =>
    intro approach id l value p
    rw [eval, eval]
    by_cases hsite : id = site.id ∧ l = site.kind
    · obtain ⟨rfl, rfl⟩ := hsite
      rw [site.typed, site.typed?_expanded_id]
      dsimp only
      split
      · exact .same
      · generalize openedBelow guard opened approach value = below
        cases value with
        | none => exact .same
        | some v =>
          have hrefusal : site.spelledOut.refusal? = site.including.refusal? := rfl
          show (evalScope down _ site.including (some v) p).GoesOn _
          rw [evalScope, evalScope, hrefusal]
          cases site.including.refusal? with
          | some error => exact .same
          | none =>
            dsimp only
            rw [including, spelledOut]
            dsimp only
            rw [List.append_assoc, evalSteps_append, evalSteps_append, evalSteps_append]
            exact (evalSteps_goesOn (ih below) v p site.before).andThen
              ((site.eval_included ih below v p).andThen
                (evalSteps_goesOn (ih below) v p site.after))
    · rw [site.typed?_expanded_of_ne hsite]
      cases table.typed? id l with
      | none => exact .same
      | some scope =>
        dsimp only
        split
        · exact .same
        · exact evalScope_goesOn (ih _) scope value p

end Evaluated

/-! ## What can be reached -/

/-- A step that is spelled out has been a step before, or one of the included scope. -/
theorem mem_live_spelledOut {step : Step M site.kind} (h : step ∈ site.spelledOut.live) :
    step ∈ site.including.live ∨
      .inclusion site.target ∈ site.including.live ∧ step ∈ site.included.live := by
  have hrefusal : site.including.refusal? = none := by
    rw [Scope.live] at h
    split at h
    · exact absurd h List.not_mem_nil
    · assumption
  have hsteps := Scope.mem_steps_of_mem_live h
  rw [Scope.live_eq_steps hrefusal, Scope.live_eq_steps site.accepted]
  simp only [spelledOut, including, List.mem_append, List.mem_cons] at hsteps ⊢
  rcases hsteps with (hbefore | hincluded) | hafter
  · exact .inl (.inl hbefore)
  · exact .inr ⟨.inr (.inl trivial), hincluded⟩
  · exact .inl (.inr (.inr hafter))

theorem leadsTo_of_expanded {a b : ScopeId} (h : site.expanded.LeadsTo a b) :
    Relation.TransGen table.LeadsTo a b := by
  obtain ⟨s, hs, step, hstep, htarget⟩ := h
  rw [find?_expanded] at hs
  split at hs
  · rename_i ha
    obtain rfl := Option.some.inj hs
    rw [ha]
    rcases site.mem_live_spelledOut hstep with hstep | ⟨hinclusion, hstep⟩
    · exact .single ⟨_, site.find?_id, step, hstep, htarget⟩
    · exact .tail (.single ⟨_, site.find?_id, _, hinclusion, rfl⟩)
        ⟨_, site.find?_target, step, hstep, htarget⟩
  · exact .single ⟨s, hs, step, hstep, htarget⟩

theorem includes_of_expanded {a b : ScopeId} (h : site.expanded.Includes a b) :
    Relation.TransGen table.Includes a b := by
  obtain ⟨s, hs, hstep⟩ := h
  rw [find?_expanded] at hs
  split at hs
  · rename_i ha
    obtain rfl := Option.some.inj hs
    rw [ha]
    rcases site.mem_live_spelledOut hstep with hstep | ⟨hinclusion, hstep⟩
    · exact .single ⟨_, site.find?_id, hstep⟩
    · exact .tail (.single ⟨_, site.find?_id, hinclusion⟩) ⟨_, site.find?_target, hstep⟩
  · exact .single ⟨s, hs, hstep⟩

/-- All that the new table names is there. -/
theorem fits_expanded {catalog : Catalog} (h : table.Fits catalog) :
    site.expanded.Fits catalog := by
  rw [ScopeTable.fits_iff] at h ⊢
  intro id s hs
  simp only [site.kind?_expanded]
  rw [find?_expanded] at hs
  split at hs
  · obtain rfl := Option.some.inj hs
    have hincluding := h site.id _ site.find?_id
    have hincluded := h site.target _ site.find?_target
    refine ⟨hincluding.presence, fun step hstep => ?_⟩
    rcases List.mem_append.1 hstep with hstep | hafter
    · rcases List.mem_append.1 hstep with hbefore | hstep
      · exact hincluding.steps step (List.mem_append_left _ hbefore)
      · exact hincluded.steps step hstep
    · exact hincluding.steps step (List.mem_append_right _ (List.mem_cons_of_mem _ hafter))
  · exact h id s hs

theorem exists_compile_expanded {rootId : ScopeId} {catalog : Catalog} {s : Scheme M k}
    (h : Scheme.compile table k rootId catalog = .ok s) :
    ∃ s', Scheme.compile site.expanded k rootId catalog = .ok s' := by
  obtain ⟨root, _, _, hroot, hfits, _, _⟩ := Scheme.compile_eq_ok h
  refine Scheme.exists_compile ?_ (site.fits_expanded hfits) fun id hreach hloop => ?_
  · rw [site.kind?_expanded]
    exact ScopeTable.kind?_eq_some_iff.2 ⟨root, hroot⟩
  · have hbefore : Relation.ReflTransGen table.LeadsTo rootId id :=
      Relation.reflTransGen_closed
        (fun _ _ hleads => (site.leadsTo_of_expanded hleads).to_reflTransGen) _ _ hreach
    have hbeforeLoop : Relation.TransGen table.Includes id id :=
      Relation.TransGen.closed (fun _ _ hincludes => site.includes_of_expanded hincludes)
        _ _ hloop
    exact Scheme.not_includes_self h hbefore hbeforeLoop

end InclusionSite

/-! ## What a walk records -/

/-- A walk that has ended would have recorded no more, had the evaluation gone on. -/
theorem Walk.Plays.exists_of_goesOn {failFast : Bool} {r r' : Verdict String} {w : Walk M}
    {result : Option (Walk M)} (h : Plays failFast r {} (some w))
    (h' : Plays failFast r' {} result)
    (hgoes : r.GoesOn r') : ∃ w', result = some w' ∧ w'.errors = w.errors := by
  have hsame : (r'.ending ≠ .outOfDepth ∨ failFast = true ∧ r'.events ≠ []) ∧
      r'.recorded failFast = r.recorded failFast := by
    cases h with
    | ends hquiet hend =>
      rw [hgoes.eq hend]
      exact ⟨.inl hend, rfl⟩
    | @halts e rest _ hfast hevents =>
      have hfirst : ∃ more, r'.events = e :: more := by
        cases hgoes with
        | same => exact ⟨rest, hevents⟩
        | further _ hmore =>
          obtain ⟨more, hmore⟩ := hmore
          rw [hevents] at hmore
          exact ⟨rest ++ more, hmore.symm⟩
      obtain ⟨more, hmore⟩ := hfirst
      refine ⟨.inr ⟨hfast, ?_⟩, ?_⟩
      · rw [hmore]
        exact List.cons_ne_nil _ _
      · rw [Verdict.recorded, Verdict.recorded, hmore, hevents, hfast]
        rfl
  obtain ⟨hends, hrecorded⟩ := hsame
  cases result with
  | some w' => exact ⟨w', rfl, by rw [h'.errors_eq, h.errors_eq, hrecorded]⟩
  | none =>
    cases h' with
    | outOfDepth hquiet hend =>
      rcases hends with hends | ⟨hfast, hne⟩
      · exact absurd hend hends
      · rcases hquiet with hslow | hnone
        · exact absurd (hfast.symm.trans hslow) Bool.noConfusion
        · exact absurd hnone hne

namespace Scheme

variable {s : Scheme M k}

/-- Writing the steps of an included scope in place of the inclusion makes a scheme again.
Whatever ends in the first scheme ends in the second, to the same depth and with the same
errors. -/
theorem inclusion_spells_out_steps {table : ScopeTable M} {rootId : ScopeId} {catalog : Catalog}
    (h : compile table k rootId catalog = .ok s) (site : InclusionSite table) :
    ∃ s', compile site.expanded k rootId catalog = .ok s' ∧
      ∀ (model : Option (M.Value k)) (options : Options),
        (∀ depth w, s.walk? depth model options = some w →
          ∃ w', s'.walk? depth model options = some w' ∧ w'.errors = w.errors) ∧
        ∀ errors, s.validate model options = some errors →
          s'.validate model options = some errors := by
  obtain ⟨s', h'⟩ := site.exists_compile_expanded h
  refine ⟨s', h', fun model options => ?_⟩
  have hwalk {depth : Nat} {w : Walk M} (hw : s.walk? depth model options = some w) :
      ∃ w', s'.walk? depth model options = some w' ∧ w'.errors = w.errors := by
    have hplays := (isCompiled_of_compile h).walk?_plays depth model options
    have hplays' := (isCompiled_of_compile h').walk?_plays depth model options
    rw [hw, evaluate_of_compile h] at hplays
    rw [evaluate_of_compile h'] at hplays'
    exact hplays.exists_of_goesOn hplays' (site.eval_expanded [] _ _ _ _ _)
  refine ⟨fun depth w hw => hwalk hw, fun errors hvalidate => ?_⟩
  obtain ⟨w, hw, rfl⟩ := Option.map_eq_some_iff.1 hvalidate
  obtain ⟨w', hw', herrors⟩ := hwalk hw
  have hdepth : s'.depthBound model = s.depthBound model := by
    obtain ⟨_, _, _, _, _, _, rfl⟩ := compile_eq_ok h
    obtain ⟨_, _, _, _, _, _, rfl⟩ := compile_eq_ok h'
    rw [depthBound, depthBound, site.size_expanded]
  rw [validate, run?, hdepth, hw', Option.map_some, herrors]

end Scheme

/-- A line includes an article. -/
def Orders.articleSite : InclusionSite (table true) where
  id := ⟨2⟩
  kind := Document.Kind.obj
  before := []
  target := ⟨3⟩
  after := (lineScope true).steps.tail
  presence := (lineScope true).presence
  included := articleScope
  typed := rfl
  included_typed := rfl
  accepted := rfl

/-- Where lines have an article of their own, the errors of the knot are the same. -/
theorem Scheme.inclusion_spells_out_steps_knot :
    ∃ s s' errors,
      compile (Orders.table true) .obj ⟨0⟩ Orders.catalog = .ok s ∧
      compile Orders.articleSite.expanded .obj ⟨0⟩ Orders.catalog = .ok s' ∧
      Orders.articleSite.including.outline.steps = [.inclusion ⟨3⟩, .member "order" ⟨0⟩] ∧
      Orders.articleSite.spelledOut.outline.steps = [.rule ⟨3⟩, .member "order" ⟨0⟩] ∧
      s.validate (some Orders.knotOrder) ⟨false, true⟩ = some errors ∧
      s'.validate (some Orders.knotOrder) ⟨false, true⟩ = some errors ∧
      errors.entries = [("", [⟨0⟩]), ("lines[0]", [⟨2⟩]), ("lines[1]", [⟨3⟩])] := by
  have h : compile (Orders.table true) .obj ⟨0⟩ Orders.catalog = .ok _ := rfl
  obtain ⟨s', h', hruns⟩ := inclusion_spells_out_steps h Orders.articleSite
  obtain ⟨_, hvalidate⟩ := hruns (some Orders.knotOrder) ⟨false, true⟩
  exact ⟨_, s', _, h, h', rfl, rfl, rfl, hvalidate _ rfl, rfl⟩

end Rulebook
