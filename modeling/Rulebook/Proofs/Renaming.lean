import Rulebook.Proofs.Acceptance

/-!
# Renaming identifiers

Which number an identifier has says nothing about what it stands for.  A `Renaming` puts other
identifiers in the place of the old ones.  One table renames another if it has the same scopes
under other identifiers, and these correspond one to one; errors may be renamed in any way, so two
errors may become one.

Whatever looks at the scopes of a table looks at them through their identifiers, and finds the
same under new names.  There is one lemma for each function that does so.

* The findings of a survey are the renamed findings (`findings_rename`), and so a survey that
  succeeds succeeds with the errors renamed (`ofOutlines_rename`).
* A table that compiles compiles under new names (`Renames.exists_compile`).
* A walk takes the same way and has recorded the renamed errors (`Renames.walk?_eq`).
-/

namespace Rulebook

/-- New identifiers for scopes and errors. -/
structure Renaming where
  /-- The new identifier of a scope. -/
  scope : ScopeId → ScopeId
  /-- The new identifier of an error. -/
  error : ErrorId → ErrorId

variable {M : ModelSpace} {k : M.Kind} {r : Renaming}

/-! ## Scopes under new names -/

/-- A policy with its error renamed. -/
def PresencePolicy.rename (r : Renaming) : PresencePolicy → PresencePolicy
  | optional => optional
  | required id => required (r.error id)
  | forbidden id => forbidden (r.error id)

/-- A step with its error or its target renamed. -/
def Step.rename (r : Renaming) : Step M k → Step M k
  | rule id test => rule (r.error id) test
  | member name target kind get => member name (r.scope target) kind get
  | collection target kind elements => collection (r.scope target) kind elements
  | inclusion target => inclusion (r.scope target)
  | narrowing target kind view => narrowing (r.scope target) kind view

/-- A scope with all that it names renamed. -/
def Scope.rename (r : Renaming) (s : Scope M k) : Scope M k :=
  ⟨s.steps.map (Step.rename r), s.presence.map (PresencePolicy.rename r)⟩

/-- A scope of any kind with all that it names renamed. -/
def AnyScope.rename (r : Renaming) (s : AnyScope M) : AnyScope M := ⟨s.kind, s.scope.rename r⟩

/-- What a renamed step says. -/
def Outline.Step.rename (r : Renaming) : Outline.Step → Outline.Step
  | rule id => rule (r.error id)
  | member name target => member name (r.scope target)
  | collection target => collection (r.scope target)
  | inclusion target => inclusion (r.scope target)
  | narrowing target => narrowing (r.scope target)

/-- What a renamed scope says. -/
def Outline.rename (r : Renaming) (o : Outline) : Outline :=
  ⟨o.steps.map (Step.rename r), o.presence.map (PresencePolicy.rename r)⟩

theorem Step.outline_rename (step : Step M k) :
    (step.rename r).outline = step.outline.rename r := by
  cases step <;> rfl

theorem Scope.outline_rename (s : Scope M k) : (s.rename r).outline = s.outline.rename r := by
  have hsteps : Step.outline ∘ Step.rename r = Outline.Step.rename r ∘ Step.outline (k := k) :=
    funext Step.outline_rename
  rw [outline, rename, outline, Outline.rename, List.map_map, List.map_map, hsteps]

theorem Step.names_rename {error : ErrorId → Prop} {name : String → Prop}
    {target : ScopeId → M.Kind → Prop} {step : Step M k} :
    (step.rename r).Names error name target ↔
      step.Names (fun id => error (r.error id)) name fun id kind => target (r.scope id) kind := by
  cases step <;> rfl

theorem PresencePolicy.error?_rename (policy : PresencePolicy) :
    (policy.rename r).error? = policy.error?.map r.error := by
  cases policy <;> rfl

theorem Scope.names_rename {error : ErrorId → Prop} {name : String → Prop}
    {target : ScopeId → M.Kind → Prop} {s : Scope M k}
    (h : s.Names (fun id => error (r.error id)) name fun id kind => target (r.scope id) kind) :
    (s.rename r).Names error name target where
  presence policy hpolicy id hid := by
    obtain ⟨old, hold, rfl⟩ := Option.map_eq_some_iff.1 hpolicy
    rw [PresencePolicy.error?_rename] at hid
    obtain ⟨oldId, holdId, rfl⟩ := Option.map_eq_some_iff.1 hid
    exact h.presence old hold oldId holdId
  steps step hstep := by
    obtain ⟨old, hold, rfl⟩ := List.mem_map.1 hstep
    exact Step.names_rename.2 (h.steps old hold)

/-! ## Errors under new names -/

/-- The errors of each path renamed. -/
def ErrorsByPath.rename (r : Renaming) (errors : ErrorsByPath) : ErrorsByPath :=
  errors.map fun _ ids => ids.map r.error

theorem ErrorsByPath.rename_record (errors : ErrorsByPath) (path : String) (id : ErrorId) :
    (errors.record path id).rename r = (errors.rename r).record path (r.error id) := by
  refine Dict.ext_find? fun key => ?_
  rw [rename, Dict.find?_map, find?_record, find?_record, rename, Dict.find?_map, Dict.find?_map]
  split
  · cases errors.find? path <;> simp
  · rfl

theorem ErrorsByPath.keys_rename (errors : ErrorsByPath) : (errors.rename r).keys = errors.keys :=
  Dict.keys_map _ errors

/-! ## Surveys -/

namespace Survey

open Rulebook.Path (Segment)

/-- A frame with its scope renamed. -/
def Frame.rename (r : Renaming) (f : Frame) : Frame := { f with id := r.scope f.id }

/-- A finding with its scopes and its error renamed. -/
def Finding.rename (r : Renaming) : Finding → Finding
  | error segments id => error segments (r.error id)
  | entered segments s => entered segments s
  | again o f => again (o.rename r) (f.rename r)
  | missing id => missing (r.scope id)

section Findings

variable {below below' : Frame → List Finding}

theorem stepFindings_rename (hbelow : ∀ f, below' (f.rename r) = (below f).map (Finding.rename r))
    (f : Frame) (step : Outline.Step) :
    stepFindings below' (f.rename r) (step.rename r) =
      (stepFindings below f step).map (Finding.rename r) := by
  cases step with
  | rule id => rfl
  | member name target =>
    have htarget := hbelow (f.next (.member name target) target)
    exact congrArg (Finding.entered f.segments (.member name) :: ·) htarget
  | collection target =>
    have htarget := hbelow (f.next (.collection target) target)
    exact congrArg (Finding.entered f.segments .anyIndex :: ·) htarget
  | inclusion target => exact hbelow (f.next (.inclusion target) target)
  | narrowing target => exact hbelow (f.next (.narrowing target) target)

theorem live_rename (o : Outline) : (o.rename r).live = o.live.map (Outline.Step.rename r) := by
  obtain ⟨steps, presence⟩ := o
  cases presence with
  | none => rfl
  | some policy => cases policy <;> rfl

theorem presenceError?_rename (o : Outline) :
    (o.rename r).presenceError? = o.presenceError?.map r.error := by
  obtain ⟨steps, presence⟩ := o
  cases presence with
  | none => rfl
  | some policy => exact policy.error?_rename

theorem scopeFindings_rename
    (hbelow : ∀ f, below' (f.rename r) = (below f).map (Finding.rename r))
    (f : Frame) (o : Outline) :
    scopeFindings below' (f.rename r) (o.rename r) =
      (scopeFindings below f o).map (Finding.rename r) := by
  have hsteps : (o.live.map (Outline.Step.rename r)).flatMap (stepFindings below' (f.rename r)) =
      (o.live.flatMap (stepFindings below f)).map (Finding.rename r) := by
    rw [List.flatMap_map, List.map_flatMap]
    simp only [stepFindings_rename hbelow]
  rw [scopeFindings, scopeFindings, live_rename, presenceError?_rename, hsteps, List.map_append]
  cases o.presenceError? <;> rfl

end Findings

/-- The frame of a scope is found under its new name. -/
theorem find?_stack_rename (hinjective : Function.Injective r.scope) (stack : List Frame)
    (f : Frame) :
    (stack.map (Frame.rename r)).find? (·.id = (f.rename r).id) =
      (stack.find? (·.id = f.id)).map (Frame.rename r) := by
  rw [List.find?_map]
  have hsame : (fun g : Frame => decide (g.id = (f.rename r).id)) ∘ Frame.rename r =
      fun g => decide (g.id = f.id) := by
    funext g
    exact decide_eq_decide.2 hinjective.eq_iff
  rw [hsame]

theorem findings_rename {outlines outlines' : Dict ScopeId Outline}
    (hinjective : Function.Injective r.scope)
    (houtlines : ∀ id, outlines'.find? (r.scope id) = (outlines.find? id).map (Outline.rename r))
    (closed : Nat) (stack : List Frame) (f : Frame) :
    findings outlines' closed (stack.map (Frame.rename r)) (f.rename r) =
      (findings outlines closed stack f).map (Finding.rename r) := by
  induction closed generalizing stack f with
  | zero =>
    have hstack := find?_stack_rename hinjective stack f
    cases hfind : stack.find? (·.id = f.id) with
    | some o =>
      rw [hfind] at hstack
      rw [findings_again hfind, findings_again hstack]
      rfl
    | none =>
      rw [hfind] at hstack
      rw [findings_missing hfind (.inl rfl), findings_missing hstack (.inl rfl)]
      rfl
  | succ closed ih =>
    have hstack := find?_stack_rename hinjective stack f
    cases hfind : stack.find? (·.id = f.id) with
    | some o =>
      rw [hfind] at hstack
      rw [findings_again hfind, findings_again hstack]
      rfl
    | none =>
      rw [hfind] at hstack
      have houtline := houtlines f.id
      cases ho : outlines.find? f.id with
      | none =>
        rw [ho] at houtline
        rw [findings_missing hfind (.inr ho), findings_missing hstack (.inr houtline)]
        rfl
      | some o =>
        rw [ho] at houtline
        rw [findings_scope hfind ho, findings_scope hstack houtline]
        exact scopeFindings_rename (ih (f :: stack)) f o

theorem failure?_rename {x : Finding} : (x.rename r).failure? = none ↔ x.failure? = none := by
  cases x with
  | error segments id => rfl
  | entered segments s => rfl
  | again o f =>
    have hsame : (o.rename r).sameNode (f.rename r) ↔ o.sameNode f := .rfl
    simp [Finding.rename, Finding.failure?, hsame]
  | missing id => simp [Finding.rename, Finding.failure?]

/-- The state of a survey with the errors renamed. -/
def State.rename (r : Renaming) (st : State) : State := { st with errors := st.errors.rename r }

theorem State.apply_rename (st : State) {x : Finding} (hx : x.failure? = none) :
    (st.rename r).apply (x.rename r) = (st.apply x).rename r := by
  cases x with
  | error segments id =>
    rw [Finding.rename, apply, apply, rename, rename, ErrorsByPath.rename_record]
  | entered segments s => rfl
  | again o f =>
    have hsame : ¬o.sameNode f := by
      intro h
      simp [Finding.failure?, h] at hx
    have hsame' : ¬(o.rename r).sameNode (f.rename r) := hsame
    rw [Finding.rename, apply, apply, if_neg hsame, if_neg hsame']
    rfl
  | missing id => cases hx

theorem State.foldl_apply_rename {xs : List Finding} (hxs : ∀ x ∈ xs, x.failure? = none)
    (st : State) :
    (xs.map (Finding.rename r)).foldl State.apply (st.rename r) =
      (xs.foldl State.apply st).rename r := by
  induction xs generalizing st with
  | nil => rfl
  | cons x rest ih =>
    rw [List.forall_mem_cons] at hxs
    rw [List.map_cons, List.foldl_cons, List.foldl_cons, apply_rename st hxs.1, ih hxs.2]

/-- A survey with the errors renamed. -/
def rename (r : Renaming) (s : Survey) : Survey := { s with errors := s.errors.rename r }

/-- A survey that succeeds succeeds under new names. -/
theorem ofOutlines_rename {outlines outlines' : Dict ScopeId Outline}
    (hinjective : Function.Injective r.scope)
    (houtlines : ∀ id, outlines'.find? (r.scope id) = (outlines.find? id).map (Outline.rename r))
    (hsize : outlines'.size = outlines.size) {root : ScopeId} {s : Survey}
    (h : ofOutlines outlines root = .ok s) :
    ofOutlines outlines' (r.scope root) = .ok (s.rename r) := by
  have hreport : report outlines' (r.scope root) =
      (report outlines root).map (Finding.rename r) := by
    rw [report, hsize]
    exact findings_rename hinjective houtlines outlines.size [] (rootFrame root)
  obtain ⟨hok, rfl⟩ := ofOutlines_eq_ok_iff.1 h
  rw [ofOutlines_eq_ok_iff, hreport]
  constructor
  · intro x hx
    obtain ⟨old, hold, rfl⟩ := List.mem_map.1 hx
    exact failure?_rename.2 (hok old hold)
  · exact congrArg ofState (State.foldl_apply_rename hok {})

end Survey

/-! ## Tables -/

namespace ScopeTable

variable {table table' : ScopeTable M} {id : ScopeId}

/-- One table is another one with all identifiers renamed. -/
structure Renames (r : Renaming) (table table' : ScopeTable M) : Prop where
  bijective : Function.Bijective r.scope
  find?_eq : ∀ id, table'.find? (r.scope id) = (table.find? id).map (AnyScope.rename r)

namespace Renames

theorem kind?_eq (h : table.Renames r table') (id : ScopeId) :
    table'.kind? (r.scope id) = table.kind? id := by
  rw [kind?, h.find?_eq, kind?]
  cases table.find? id <;> rfl

theorem typed?_eq (h : table.Renames r table') (id : ScopeId) (k : M.Kind) :
    table'.typed? (r.scope id) k = (table.typed? id k).map (Scope.rename r) := by
  rw [typed?, typed?, h.find?_eq]
  cases table.find? id with
  | none => rfl
  | some s =>
    obtain ⟨kind, scope⟩ := s
    by_cases hkind : kind = k
    · subst hkind
      simp [AnyScope.rename]
    · simp [AnyScope.rename, hkind]

theorem find?_outlines_eq (h : table.Renames r table') (id : ScopeId) :
    table'.outlines.find? (r.scope id) = (table.outlines.find? id).map (Outline.rename r) := by
  rw [outlines, outlines, Dict.find?_map, Dict.find?_map, h.find?_eq]
  cases table.find? id with
  | none => rfl
  | some s => exact congrArg some s.scope.outline_rename

theorem size_eq (h : table.Renames r table') : table'.size = table.size := by
  have hkeys : table'.keys.Perm (table.keys.map r.scope) := by
    have hnodup := table.nodup_keys.map h.bijective.injective
    refine (List.perm_ext_iff_of_nodup table'.nodup_keys hnodup).2 ?_
    intro id
    obtain ⟨old, rfl⟩ := h.bijective.surjective id
    rw [List.mem_map_of_injective h.bijective.injective, Dict.mem_keys_iff, Dict.mem_keys_iff,
      h.find?_eq]
    cases table.find? old <;> simp
  rw [← Dict.length_keys, hkeys.length_eq, List.length_map, Dict.length_keys]

theorem fits {catalog catalog' : Catalog} (h : table.Renames r table')
    (hcatalog : ∀ id, catalog.contains id → catalog'.contains (r.error id))
    (hfits : table.Fits catalog) : table'.Fits catalog' := by
  rw [fits_iff] at hfits ⊢
  intro id s hs
  obtain ⟨old, rfl⟩ := h.bijective.surjective id
  rw [h.find?_eq] at hs
  obtain ⟨s, hold, rfl⟩ := Option.map_eq_some_iff.1 hs
  refine Scope.names_rename ((hfits old s hold).imp hcatalog (fun _ h => h) ?_)
  intro target kind htarget
  rwa [h.kind?_eq]

end Renames

end ScopeTable

/-! ## Schemes -/

/-- One scheme is another one with all identifiers renamed. -/
structure Scheme.Renames (r : Renaming) (s s' : Scheme M k) : Prop where
  scopes : s.scopes.Renames r s'.scopes
  rootId : s'.rootId = r.scope s.rootId
  survey : s'.survey = s.survey.rename r

/-- A table that compiles compiles under new names. -/
theorem ScopeTable.Renames.exists_compile {table table' : ScopeTable M}
    {catalog catalog' : Catalog}
    {rootId : ScopeId} {s : Scheme M k} (h : table.Renames r table')
    (hcatalog : ∀ id, catalog.contains id → catalog'.contains (r.error id))
    (hs : Scheme.compile table k rootId catalog = .ok s) :
    ∃ s', Scheme.compile table' k (r.scope rootId) catalog' = .ok s' ∧ s.Renames r s' := by
  obtain ⟨root, survey, _, hroot, hfits, hsurvey, rfl⟩ := Scheme.compile_eq_ok hs
  have hsize : table'.outlines.size = table.outlines.size := by
    rw [size_outlines, size_outlines, h.size_eq]
  have hsurvey' := Survey.ofOutlines_rename h.bijective.injective h.find?_outlines_eq hsize
    hsurvey
  have hkind : table'.kind? (r.scope rootId) = some k := by
    rw [h.kind?_eq]
    exact kind?_eq_some_iff.2 ⟨root, hroot⟩
  have hloops : ∀ id, Relation.ReflTransGen table'.LeadsTo (r.scope rootId) id →
      ¬Relation.TransGen table'.Includes id id := by
    intro id hreach
    rw [← edge_outlines] at hreach
    rw [← includes_outlines]
    exact (Survey.exists_ofOutlines_iff.1 ⟨_, hsurvey'⟩ id hreach).2
  obtain ⟨s', hs'⟩ := Scheme.exists_compile hkind (h.fits hcatalog hfits) hloops
  refine ⟨s', hs', ?_⟩
  obtain ⟨_, _, _, _, _, hanswer, rfl⟩ := Scheme.compile_eq_ok hs'
  rw [hsurvey'] at hanswer
  exact ⟨h, rfl, (Except.ok.inj hanswer).symm⟩

/-! ## Walks -/

/-- A walk relies on the same, with all identifiers renamed. -/
structure Course.Renames (r : Renaming) (c c' : Course M) : Prop where
  scopes : c.scopes.Renames r c'.scopes
  paths : c'.paths = c.paths
  options : c'.options = c.options

namespace Walk

/-- A walk with all that it has recorded and looked up in vain renamed. -/
def rename (r : Renaming) (w : Walk M) : Walk M :=
  { w with
    errors := w.errors.rename r
    missed := w.missed.map fun p => (r.scope p.1, p.2) }

/-- Visiting scopes under new names comes to the same walks, renamed. -/
def Corresponds (r : Renaming) (visit visit' : Visitor M) : Prop :=
  ∀ (approach : Approach) (id : ScopeId) (k : M.Kind) (value : Option (M.Value k)) (w : Walk M),
    visit' approach (r.scope id) k value (w.rename r) =
      (visit approach id k value w).map (rename r)

theorem record_rename (options : Options) (id : ErrorId) (w : Walk M) :
    (w.rename r).record options (r.error id) = (w.record options id).rename r := by
  by_cases hhalted : w.halted = true
  · have hhalted' : (w.rename r).halted = true := hhalted
    rw [record, record, if_pos hhalted, if_pos hhalted']
  · have hhalted' : ¬(w.rename r).halted = true := hhalted
    rw [record, record, if_neg hhalted, if_neg hhalted', rename, rename,
      ErrorsByPath.rename_record]
    rfl

theorem breach_rename (options : Options) (id : ErrorId) (w : Walk M) :
    (w.rename r).breach options (r.error id) = (w.breach options id).rename r := by
  rw [breach, record_rename, breach]
  rfl

section Visits

variable {c c' : Course M} {visit visit' : Visitor M}

theorem visitElements_rename {visitOne visitOne' : Option (M.Value k) → Walk M → Option (Walk M)}
    (hone : ∀ e w, visitOne' e (w.rename r) = (visitOne e w).map (rename r)) (paths : PathTable)
    (elements : List (Option (M.Value k))) (index : Nat) (w : Walk M) :
    visitElements paths visitOne' index elements (w.rename r) =
      (visitElements paths visitOne index elements w).map (rename r) := by
  induction elements generalizing index w with
  | nil => rfl
  | cons e rest ih =>
    have hfirst : visitOne' e ((w.rename r).enterIndex paths index) =
        (visitOne e (w.enterIndex paths index)).map (rename r) :=
      hone e (w.enterIndex paths index)
    rw [visitElements, visitElements, hfirst]
    cases visitOne e (w.enterIndex paths index) with
    | none => rfl
    | some w₁ =>
      by_cases hhalted : w₁.leaveIndex.goOn.halted = true
      · have hhalted' : (w₁.rename r).leaveIndex.goOn.halted = true := hhalted
        simp only [Option.map_some, Option.bind_eq_bind, Option.bind_some, hhalted, hhalted',
          if_true]
        rfl
      · have hhalted' : ¬(w₁.rename r).leaveIndex.goOn.halted = true := hhalted
        simp only [Option.map_some, Option.bind_eq_bind, Option.bind_some, hhalted, hhalted']
        exact ih (index + 1) w₁.leaveIndex.goOn

theorem takeStep_rename (h : c.Renames r c') (hvisit : Corresponds r visit visit') (v : M.Value k)
    (step : Step M k) (w : Walk M) :
    takeStep c' visit' v (w.rename r) (step.rename r) =
      (takeStep c visit v w step).map (rename r) := by
  cases step with
  | rule id test =>
    rw [Step.rename, takeStep, takeStep, h.options, record_rename]
    cases test v <;> rfl
  | member name target kind get =>
    have hmember := hvisit .entering target kind (get v) (w.enter c.paths name)
    have henter : (w.rename r).enter c.paths name = (w.enter c.paths name).rename r := rfl
    rw [Step.rename, takeStep, takeStep, h.paths, henter, hmember]
    cases visit .entering target kind (get v) (w.enter c.paths name) <;> rfl
  | collection target kind elements =>
    rw [Step.rename, takeStep, takeStep, h.paths]
    exact visitElements_rename (hvisit .entering target kind) c.paths (elements v) 0 w
  | inclusion target => exact hvisit .staying target k (some v) w
  | narrowing target kind view =>
    rw [Step.rename, takeStep, takeStep]
    cases view v with
    | none => rfl
    | some u => exact hvisit .entering target kind (some u) w

theorem takeSteps_rename (h : c.Renames r c') (hvisit : Corresponds r visit visit')
    (v : M.Value k)
    (steps : List (Step M k)) (w : Walk M) :
    takeSteps c' visit' v (steps.map (Step.rename r)) (w.rename r) =
      (takeSteps c visit v steps w).map (rename r) := by
  induction steps generalizing w with
  | nil => rfl
  | cons step rest ih =>
    rw [List.map_cons, takeSteps, takeSteps, takeStep_rename h hvisit]
    cases takeStep c visit v w step with
    | none => rfl
    | some w₁ =>
      by_cases hstops : w₁.stops = true
      · have hstops' : (w₁.rename r).stops = true := hstops
        simp only [Option.map_some, Option.bind_eq_bind, Option.bind_some, hstops, hstops',
          if_true]
      · have hstops' : ¬(w₁.rename r).stops = true := hstops
        simp only [Option.map_some, Option.bind_eq_bind, Option.bind_some, hstops, hstops']
        exact ih w₁

theorem checkWith_rename (h : c.Renames r c') (hvisit : Corresponds r visit visit')
    (scope : Scope M k) (value : Option (M.Value k)) (w : Walk M) :
    checkWith c' visit' (scope.rename r) value (w.rename r) =
      (checkWith c visit scope value w).map (rename r) := by
  obtain ⟨steps, presence⟩ := scope
  have hsteps (v : M.Value k) := takeSteps_rename h hvisit v steps w
  have hbreach (id : ErrorId) : (w.rename r).breach c'.options (r.error id) =
      (w.breach c.options id).rename r := by
    rw [h.options, breach_rename]
  cases value with
  | none =>
    cases presence with
    | none => rfl
    | some policy =>
      cases policy with
      | optional => rfl
      | required id => exact congrArg some (hbreach id)
      | forbidden id => rfl
  | some v =>
    cases presence with
    | none => exact hsteps v
    | some policy =>
      cases policy with
      | optional => exact hsteps v
      | required id => exact hsteps v
      | forbidden id => exact congrArg some (hbreach id)

theorem guarded_rename {node : M.Node} {check check' : Walk M → Option (Walk M)}
    (hcheck : ∀ w, check' (w.rename r) = (check w).map (rename r)) (w : Walk M) :
    guarded node check' (w.rename r) = (guarded node check w).map (rename r) := by
  rw [guarded, guarded]
  by_cases hopen : node ∈ w.opened
  · have hopen' : node ∈ (w.rename r).opened := hopen
    rw [if_pos hopen, if_pos hopen']
    rfl
  · have hopen' : node ∉ (w.rename r).opened := hopen
    have hinside := hcheck { w with opened := node :: w.opened }
    have hstart : { w.rename r with opened := node :: (w.rename r).opened } =
        rename r { w with opened := node :: w.opened } := rfl
    rw [if_neg hopen, if_neg hopen', hstart, hinside]
    cases check { w with opened := node :: w.opened } <;> rfl

theorem visit_rename (h : c.Renames r c') (depth : Nat) :
    Corresponds r (Walk.visit c depth) (Walk.visit c' depth) := by
  induction depth with
  | zero =>
    intro approach id k value w
    rfl
  | succ depth ih =>
    intro approach id k value w
    rw [Walk.visit, Walk.visit, h.scopes.typed?_eq, h.options]
    cases c.scopes.typed? id k with
    | none => simp [rename]
    | some scope =>
      have hcheck := checkWith_rename h ih scope value
      dsimp only [Option.map_some]
      split
      · exact guarded_rename hcheck w
      · exact hcheck w

end Visits

end Walk

namespace Scheme.Renames

variable {s s' : Scheme M k}

theorem course (h : s.Renames r s') (options : Options) :
    (s.course options).Renames r (s'.course options) where
  scopes := h.scopes
  paths := by
    rw [Scheme.course, h.survey]
    rfl
  options := rfl

theorem walk?_eq (h : s.Renames r s') (depth : Nat) (model : Option (M.Value k))
    (options : Options) :
    s'.walk? depth model options = (s.walk? depth model options).map (Walk.rename r) := by
  rw [walk?, walk?, h.rootId]
  exact Walk.visit_rename (h.course options) depth .entering s.rootId k model {}

theorem validate_eq (h : s.Renames r s') (model : Option (M.Value k)) (options : Options) :
    s'.validate model options = (s.validate model options).map (ErrorsByPath.rename r) := by
  have hbound : s'.depthBound model = s.depthBound model := by
    rw [depthBound, h.scopes.size_eq, depthBound]
  rw [validate, run?, hbound, h.walk?_eq, validate, run?, Option.map_map, Option.map_map]
  rfl

end Scheme.Renames

end Rulebook
