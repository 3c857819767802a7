import Rulebook.Proofs.Acceptance
import Rulebook.Scheme.Assembly

/-!
# A compiled scheme cannot go wrong

A step hands a value to a scope that it knows by its identifier only, and records errors by
identifiers.  The check of the references is made once; here it is carried to every look-up of a
walk.

`Safe` is the invariant: nothing has been looked up in vain, and what has been recorded is in the
catalog.  There is one lemma for each function of `Walk`, and `visitTo_lands` is the induction on
the nesting.

A run can be endless, and then there is no walk to speak of.  `visitTo` is the same recursion, but
hands over to another visitor at some depth.  With a visitor that gives up it is `visit`; with one
that passes over what is nested deeper there is always a walk, which is the run cut at that depth.
Whatever an endless run looks up or records, it does so at some depth, and some cut does the same.
-/

namespace Rulebook

variable {M : ModelSpace} {k : M.Kind}

namespace Walk

/-- Nothing has been looked up in vain, and whatever has been recorded is in the catalog. -/
structure Safe (catalog : Catalog) (w : Walk M) : Prop where
  missed : w.missed = []
  registered : ∀ path ids, w.errors.find? path = some ids → ∀ id ∈ ids, catalog.contains id

/-- The result is a safe walk; `cut` is whether there may be none. -/
inductive Lands (catalog : Catalog) (cut : Prop) : Option (Walk M) → Prop where
  | none (h : cut) : Lands catalog cut none
  | some {w : Walk M} (h : w.Safe catalog) : Lands catalog cut (some w)

section Recording

variable {catalog : Catalog} {w : Walk M} {options : Options} {id : ErrorId}

theorem Safe.start (catalog : Catalog) : Safe (M := M) catalog {} := by
  refine ⟨rfl, ?_⟩
  intro path ids hids
  exact nomatch hids

theorem Safe.record (h : w.Safe catalog) (options : Options) (hid : catalog.contains id) :
    (w.record options id).Safe catalog := by
  rw [Walk.record]
  split
  · exact h
  · refine ⟨h.missed, ?_⟩
    intro path ids hids other hother
    rw [ErrorsByPath.find?_record] at hids
    split at hids
    · rename_i hpath
      obtain rfl := Option.some.inj hids
      rw [← hpath] at hother
      rcases List.mem_append.1 hother with hold | hnew
      · cases hfind : w.errors.find? path with
        | none =>
          rw [hfind] at hold
          exact absurd hold List.not_mem_nil
        | some old =>
          rw [hfind] at hold
          exact h.registered path old hfind other hold
      · rwa [List.mem_singleton.1 hnew]
    · exact h.registered path ids hids other hother

theorem Safe.breach (h : w.Safe catalog) (options : Options) (hid : catalog.contains id) :
    (w.breach options id).Safe catalog := by
  have hrecord := h.record options hid
  exact ⟨hrecord.missed, hrecord.registered⟩

end Recording

namespace Lands

variable {catalog : Catalog} {cut : Prop} {result : Option (Walk M)}

theorem bind (h : Lands catalog cut result) {go : Walk M → Option (Walk M)}
    (hgo : ∀ w, w.Safe catalog → Lands catalog cut (go w)) :
    Lands catalog cut (result.bind go) := by
  cases h with
  | none hcut => exact .none hcut
  | some hw => exact hgo _ hw

/-- A walk that may not be missing is there. -/
theorem exists_of_not_cut (h : Lands catalog cut result) (hcut : ¬cut) :
    ∃ w, result = Option.some w ∧ w.Safe catalog := by
  cases h with
  | none h => exact absurd h hcut
  | some hw => exact ⟨_, rfl, hw⟩

end Lands

/-! ## Steps -/

/-- The visitor lands wherever there is a scope for the kind that is asked for. -/
def Careful (scopes : ScopeTable M) (catalog : Catalog) (cut : Prop) (visit : Visitor M) : Prop :=
  ∀ (approach : Approach) (id : ScopeId) (k : M.Kind) (value : Option (M.Value k)) (w : Walk M),
    scopes.kind? id = some k → w.Safe catalog →
      Lands catalog cut (visit approach id k value w)

section Steps

variable {c : Course M} {catalog : Catalog} {cut : Prop} {visit : Visitor M} {w : Walk M}
  {name : String → Prop}

theorem visitElements_lands {paths : PathTable}
    {visitOne : Option (M.Value k) → Walk M → Option (Walk M)}
    (hone : ∀ e w, w.Safe catalog → Lands catalog cut (visitOne e w))
    (elements : List (Option (M.Value k))) (index : Nat) (hw : w.Safe catalog) :
    Lands catalog cut (visitElements paths visitOne index elements w) := by
  induction elements generalizing index w with
  | nil => exact .some hw
  | cons e rest ih =>
    rw [visitElements]
    refine (hone e (w.enterIndex paths index) ⟨hw.missed, hw.registered⟩).bind ?_
    intro w' hw'
    have hback : w'.leaveIndex.goOn.Safe catalog := ⟨hw'.missed, hw'.registered⟩
    dsimp only
    split
    · exact .some hback
    · exact ih (index + 1) hback

theorem takeStep_lands (hvisit : Careful c.scopes catalog cut visit) {step : Step M k}
    (hstep : step.Names (fun error => catalog.contains error) name
      fun target kind => c.scopes.kind? target = some kind)
    (v : M.Value k) (hw : w.Safe catalog) : Lands catalog cut (takeStep c visit v w step) := by
  cases step with
  | rule error test =>
    rw [takeStep]
    split
    · exact .some hw
    · exact .some (hw.record c.options hstep)
  | member n target kind get =>
    rw [takeStep]
    refine (hvisit _ _ _ _ (w.enter c.paths n) hstep.2 ⟨hw.missed, hw.registered⟩).bind ?_
    intro w' hw'
    exact .some ⟨hw'.missed, hw'.registered⟩
  | collection target kind elements =>
    exact visitElements_lands (fun e w hw => hvisit _ _ _ e w hstep hw) (elements v) 0 hw
  | inclusion target => exact hvisit _ _ _ _ _ hstep hw
  | narrowing target kind view =>
    rw [takeStep]
    cases view v with
    | none => exact .some hw
    | some u => exact hvisit _ _ _ _ _ hstep hw

theorem takeSteps_lands (hvisit : Careful c.scopes catalog cut visit) {steps : List (Step M k)}
    (hsteps : ∀ step ∈ steps, step.Names (fun error => catalog.contains error) name
      fun target kind => c.scopes.kind? target = some kind)
    (v : M.Value k) (hw : w.Safe catalog) : Lands catalog cut (takeSteps c visit v steps w) := by
  induction steps generalizing w with
  | nil => exact .some hw
  | cons step rest ih =>
    rw [List.forall_mem_cons] at hsteps
    rw [takeSteps]
    refine (takeStep_lands hvisit hsteps.1 v hw).bind ?_
    intro w' hw'
    split
    · exact .some hw'
    · exact ih hsteps.2 hw'

theorem checkWith_lands (hvisit : Careful c.scopes catalog cut visit) {scope : Scope M k}
    (hscope : scope.Names (fun error => catalog.contains error) name
      fun target kind => c.scopes.kind? target = some kind)
    (value : Option (M.Value k)) (hw : w.Safe catalog) :
    Lands catalog cut (checkWith c visit scope value w) := by
  unfold checkWith
  split
  · rename_i error hpresence
    exact .some (hw.breach c.options (hscope.presence _ hpresence error rfl))
  · rename_i error v hpresence
    exact .some (hw.breach c.options (hscope.presence _ hpresence error rfl))
  · exact .some hw
  · exact takeSteps_lands hvisit hscope.steps _ hw

theorem guarded_lands {node : M.Node} {check : Walk M → Option (Walk M)}
    (hcheck : ∀ w, w.Safe catalog → Lands catalog cut (check w)) (hw : w.Safe catalog) :
    Lands catalog cut (guarded node check w) := by
  unfold guarded
  split
  · exact .some hw
  · refine (hcheck { w with opened := node :: w.opened } ⟨hw.missed, hw.registered⟩).bind ?_
    intro w' hw'
    exact .some ⟨hw'.missed, hw'.registered⟩

end Steps

/-! ## Visits -/

/-- Visits a scope, and hands over to `rest` what is nested deeper than that. -/
def visitTo (c : Course M) (rest : Visitor M) : Nat → Visitor M
  | 0, approach, target, k, value, w => rest approach target k value w
  | depth + 1, approach, target, k, value, w =>
    match c.scopes.typed? target k with
    | none => some { w with missed := w.missed ++ [(target, k)] }
    | some scope =>
      match approach, c.options.guardLoops, value with
      | .entering, true, some v =>
        guarded (M.nodeOf v) (checkWith c (visitTo c rest depth) scope value) w
      | _, _, _ => checkWith c (visitTo c rest depth) scope value w

/-- Passes over whatever there is to visit. -/
def passOver : Visitor M := fun _ _ _ _ w => some w

/-- Gives up. -/
def giveUp : Visitor M := fun _ _ _ _ _ => none

theorem visitTo_giveUp (c : Course M) (depth : Nat) : visitTo c giveUp depth = visit c depth := by
  induction depth with
  | zero => rfl
  | succ depth ih =>
    funext approach target k value w
    -- Both sides are one visit above what `ih` is about.
    exact congrArg (fun below => visitTo c below 1 approach target k value w) ih

theorem visitTo_lands {c : Course M} {catalog : Catalog} {cut : Prop} {rest : Visitor M}
    (hfits : c.scopes.Fits catalog) (hrest : Careful c.scopes catalog cut rest) (depth : Nat) :
    Careful c.scopes catalog cut (visitTo c rest depth) := by
  induction depth with
  | zero => exact hrest
  | succ depth ih =>
    intro approach id k value w hkind hw
    obtain ⟨scope, hscope⟩ := ScopeTable.kind?_eq_some_iff.1 hkind
    have hnames := ScopeTable.fits_iff.1 hfits id _ (ScopeTable.typed?_eq_some_iff.1 hscope)
    have hcheck (w : Walk M) (hw : w.Safe catalog) :=
      checkWith_lands ih hnames value hw
    rw [visitTo, hscope]
    dsimp only
    split
    · exact guarded_lands hcheck hw
    · exact hcheck w hw

end Walk

/-! ## Schemes -/

/-- A scheme that is built from an assembly is a compiled table. -/
theorem Assembly.compile_of_build {a : Assembly M} {root : Handle M k} {s : Scheme M k}
    (h : a.build root = .ok s) :
    Scheme.compile a.scopes k root.id a.errors.catalog = .ok s := by
  rw [build] at h
  split at h
  · exact nomatch h
  · exact h

namespace Visit

variable {scopes : ScopeTable M} {catalog : Catalog} {visit next : Visit M}

/-- A step hands on values of the kind that it says. -/
theorem kind?_of_mem_visits {step : Step M k} {error : ErrorId → Prop} {name : String → Prop}
    (hstep : step.Names error name fun target kind => scopes.kind? target = some kind)
    {v : M.Value k} {segments : List Path.Segment} (h : next ∈ step.visits v segments) :
    scopes.kind? next.id = some next.kind := by
  cases step with
  | rule error test => exact absurd h List.not_mem_nil
  | member n target kind get =>
    obtain rfl := List.mem_singleton.1 h
    exact hstep.2
  | collection target kind elements =>
    obtain ⟨i, hi, rfl⟩ := List.mem_mapIdx.1 h
    exact hstep
  | inclusion target =>
    obtain rfl := List.mem_singleton.1 h
    exact hstep
  | narrowing target kind view =>
    obtain ⟨u, _, rfl⟩ := Option.map_eq_some_iff.1 (Option.mem_toList.1 h)
    exact hstep

theorem Reaches.kind? (hfits : scopes.Fits catalog) (h : Reaches scopes visit next)
    (hvisit : scopes.kind? visit.id = some visit.kind) :
    scopes.kind? next.id = some next.kind := by
  induction h with
  | refl => exact hvisit
  | tail _ hstep ih =>
    obtain ⟨approach, hleads⟩ := hstep
    cases hleads with
    | @step id l v segments scope step next hscope hstep hnext =>
      have hnames := ScopeTable.fits_iff.1 hfits id _ (ScopeTable.typed?_eq_some_iff.1 hscope)
      exact kind?_of_mem_visits (hnames.steps step (Scope.mem_steps_of_mem_live hstep)) hnext

end Visit

namespace Scheme

variable {s : Scheme M k}

/-- The walk through a model that passes over what is nested deeper than `depth`. -/
def cut? (s : Scheme M k) (depth : Nat) (model : Option (M.Value k)) (options : Options) :
    Option (Walk M) :=
  Walk.visitTo (s.course options) Walk.passOver depth .entering s.rootId k model {}

theorem IsCompiled.kind?_root (hs : s.IsCompiled) : s.scopes.kind? s.rootId = some k :=
  ScopeTable.kind?_eq_some_iff.2 ⟨_, hs.root_typed⟩

theorem IsCompiled.safe_of_walk? (hs : s.IsCompiled) {depth : Nat} {model : Option (M.Value k)}
    {options : Options} {w : Walk M} (hw : s.walk? depth model options = some w) :
    w.Safe s.catalog := by
  have hgiveUp : Walk.Careful s.scopes s.catalog True Walk.giveUp := by
    intro approach id l value w hkind hw
    exact .none trivial
  have hlands := Walk.visitTo_lands (c := s.course options) hs.fits hgiveUp depth .entering
    s.rootId k model {} hs.kind?_root (.start _)
  rw [Walk.visitTo_giveUp] at hlands
  rw [walk?] at hw
  rw [hw] at hlands
  cases hlands with
  | some hsafe => exact hsafe

theorem IsCompiled.exists_cut? (hs : s.IsCompiled) (depth : Nat) (model : Option (M.Value k))
    (options : Options) : ∃ w, s.cut? depth model options = some w ∧ w.Safe s.catalog := by
  have hpassOver : Walk.Careful s.scopes s.catalog False Walk.passOver := by
    intro approach id l value w hkind hw
    exact .some hw
  have hlands := Walk.visitTo_lands (c := s.course options) hs.fits hpassOver depth .entering
    s.rootId k model {} hs.kind?_root (.start _)
  exact hlands.exists_of_not_cut not_false

/-- The survey notes errors of the catalog only. -/
theorem IsCompiled.contains_of_survey (hs : s.IsCompiled) {path : String} {ids : List ErrorId}
    (hids : s.survey.errors.find? path = some ids) {id : ErrorId} (hid : id ∈ ids) :
    s.catalog.contains id := by
  rw [Survey.errors_of_ofOutlines hs.surveyed] at hids
  rw [(ErrorsByPath.find?_group_eq_some_iff.1 hids).1, ErrorsByPath.mem_idsAt] at hid
  obtain ⟨⟨segments, id'⟩, hnoted, hpath⟩ := List.mem_map.1 hid
  obtain ⟨_, rfl⟩ := Prod.mk.inj hpath
  cases Survey.due_of_mem_report (Survey.mem_errorsOf.1 hnoted) with
  | @error f stack o _ hbranch ho herror =>
    obtain ⟨scope, hscope, rfl⟩ := ScopeTable.find?_outlines_eq_some_iff.1 ho
    have hnames := ScopeTable.fits_iff.1 hs.fits f.id scope hscope
    rcases herror with hpresence | hrule
    · obtain ⟨policy, hpolicy, herror⟩ := Option.bind_eq_some_iff.1 hpresence
      exact hnames.presence policy hpolicy id' herror
    · rw [Scope.live_outline] at hrule
      obtain ⟨step, hstep, houtline⟩ := List.mem_map.1 hrule
      have hstep := hnames.steps step (Scope.mem_steps_of_mem_live hstep)
      cases step with
      | rule error test =>
        obtain rfl := Outline.Step.rule.inj houtline
        exact hstep
      | member | collection | inclusion | narrowing => exact nomatch houtline

/-- Whatever a compiled scheme visits, there is a scope for the kind of value that it has; so no
walk looks up a scope in vain, whether it ends or is cut at some depth.  Whatever a walk records,
and whatever the survey notes, is in the catalog. -/
theorem compiled_is_safe
    (h : (∃ table rootId catalog, compile table k rootId catalog = .ok s) ∨
      ∃ (a : Assembly M) (root : Handle M k), a.build root = .ok s)
    (model : Option (M.Value k)) (options : Options) :
    (∀ visit, (s.rootVisit model).Reaches s.scopes visit →
      ∃ scope : Scope M visit.kind, s.scopes.typed? visit.id visit.kind = some scope) ∧
    (∀ depth w, s.walk? depth model options = some w → w.Safe s.catalog) ∧
    (∀ depth, ∃ w, s.cut? depth model options = some w ∧ w.Safe s.catalog) ∧
    ∀ path ids, s.survey.errors.find? path = some ids → ∀ id ∈ ids, s.catalog.contains id := by
  have hs : s.IsCompiled := by
    rcases h with ⟨table, rootId, catalog, h⟩ | ⟨a, root, h⟩
    · exact isCompiled_of_compile h
    · exact isCompiled_of_compile (Assembly.compile_of_build h)
  refine ⟨?_, ?_, ?_, ?_⟩
  · intro visit hreaches
    have hkind : s.scopes.kind? visit.id = some visit.kind :=
      hreaches.kind? hs.fits hs.kind?_root
    exact ScopeTable.kind?_eq_some_iff.1 hkind
  · intro depth w hw
    exact hs.safe_of_walk? hw
  · intro depth
    exact hs.exists_cut? depth model options
  · intro path ids hids id hid
    exact hs.contains_of_survey hids hid

/-- An order that contains itself, cut below the place where the order is met again. -/
theorem compiled_is_safe_knot :
    ∃ s : Scheme Orders.space .obj,
      compile (Orders.table true) .obj ⟨0⟩ Orders.catalog = .ok s ∧
      (∃ w, s.cut? 4 (some Orders.knotOrder) ⟨false, false⟩ = some w ∧ w.Safe s.catalog ∧
        w.errors.entries = [("", [⟨0⟩]), ("lines[0]", [⟨2⟩]), ("lines[1]", [⟨3⟩]),
          ("lines[1].order", [⟨0⟩])]) ∧
      ∀ visit, (s.rootVisit (some Orders.knotOrder)).Reaches s.scopes visit →
        ∃ scope : Scope Orders.space visit.kind,
          s.scopes.typed? visit.id visit.kind = some scope := by
  have h : compile (Orders.table true) .obj ⟨0⟩ Orders.catalog = .ok _ := rfl
  obtain ⟨htyped, _, hcut, _⟩ :=
    compiled_is_safe (.inl ⟨_, _, _, h⟩) (some Orders.knotOrder) ⟨false, false⟩
  obtain ⟨w, hw, hsafe⟩ := hcut 4
  refine ⟨_, h, ⟨w, hw, hsafe, ?_⟩, htyped⟩
  obtain rfl := Option.some.inj (Eq.trans rfl hw)
  rfl

end Scheme

end Rulebook
