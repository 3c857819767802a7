import Rulebook.Proofs.Coverage
import Rulebook.Proofs.Origin

/-!
# Which tables make a scheme

`Scheme.compile` goes through its checks one after the other, and some of them cannot fail any
more when their turn comes.  `Refused` lists the reasons that remain, and `refused_of_compile`
goes through the checks once; what is said here about failures is read off that list.

What a table has to be like is said of its scopes.  `Scope.Names` is whether all that a scope
names is there; the check goes through lists of references instead, and `fits_iff` says that the
two agree.  Of the scopes that can be reached, none may include itself, and
`exists_ofOutlines_iff` says that the survey finds just that.
-/

namespace Rulebook

variable {M : ModelSpace} {k : M.Kind}

/-! ## What a scope names -/

/-- Whether the error, the member name and the target of a step are as they should be.  A target
comes with the kind of value that the step hands on. -/
def Step.Names (error : ErrorId → Prop) (name : String → Prop)
    (target : ScopeId → M.Kind → Prop) :
    Step M k → Prop
  | .rule id _ => error id
  | .member n id kind _ => name n ∧ target id kind
  | .collection id kind _ => target id kind
  | .inclusion id => target id k
  | .narrowing id kind _ => target id kind

/-- Whether all that a scope names is as it should be. -/
structure Scope.Names (error : ErrorId → Prop) (name : String → Prop)
    (target : ScopeId → M.Kind → Prop) (scope : Scope M k) : Prop where
  presence : ∀ policy ∈ scope.presence, ∀ id, policy.error? = some id → error id
  steps : ∀ step ∈ scope.steps, step.Names error name target

theorem Step.Names.imp {error error' : ErrorId → Prop} {name name' : String → Prop}
    {target target' : ScopeId → M.Kind → Prop} {step : Step M k}
    (h : step.Names error name target) (herror : ∀ id, error id → error' id)
    (hname : ∀ n, name n → name' n) (htarget : ∀ id kind, target id kind → target' id kind) :
    step.Names error' name' target' := by
  cases step with
  | rule id test => exact herror id h
  | member n id kind get => exact ⟨hname n h.1, htarget id kind h.2⟩
  | collection id kind elements => exact htarget id kind h
  | inclusion id => exact htarget id k h
  | narrowing id kind view => exact htarget id kind h

/-- The scope that a step leads to is a target, for some kind. -/
theorem Step.Names.exists_kind {error : ErrorId → Prop} {name : String → Prop}
    {target : ScopeId → M.Kind → Prop} {step : Step M k} (h : step.Names error name target)
    {id : ScopeId} (hid : step.outline.target? = some id) : ∃ kind, target id kind := by
  cases step with
  | rule error test => exact nomatch hid
  | member n other kind get =>
    obtain rfl : other = id := Option.some.inj hid
    exact ⟨kind, h.2⟩
  | collection other kind elements =>
    obtain rfl : other = id := Option.some.inj hid
    exact ⟨kind, h⟩
  | inclusion other =>
    obtain rfl : other = id := Option.some.inj hid
    exact ⟨k, h⟩
  | narrowing other kind view =>
    obtain rfl : other = id := Option.some.inj hid
    exact ⟨kind, h⟩

theorem Scope.Names.imp {error error' : ErrorId → Prop} {name name' : String → Prop}
    {target target' : ScopeId → M.Kind → Prop} {scope : Scope M k}
    (h : scope.Names error name target) (herror : ∀ id, error id → error' id)
    (hname : ∀ n, name n → name' n) (htarget : ∀ id kind, target id kind → target' id kind) :
    scope.Names error' name' target' where
  presence policy hpolicy id hid := herror id (h.presence policy hpolicy id hid)
  steps step hstep := (h.steps step hstep).imp herror hname htarget

theorem Step.forall_references_iff {P : Reference M → Prop} {step : Step M k} :
    (∀ r ∈ step.references, P r) ↔
      step.Names (fun id => P (.error id)) (fun name => P (.memberName name))
        (fun id kind => P (.scope id kind)) := by
  cases step <;> simp [references, Names]

theorem Scope.forall_references_iff {P : Reference M → Prop} {scope : Scope M k} :
    (∀ r ∈ scope.references, P r) ↔
      scope.Names (fun id => P (.error id)) (fun name => P (.memberName name))
        (fun id kind => P (.scope id kind)) := by
  constructor
  · intro h
    refine ⟨?_, ?_⟩
    · intro policy hpolicy id hid
      apply h
      have hpresence : scope.presence = some policy := hpolicy
      simp [references, hpresence, hid]
    · intro step hstep
      refine Step.forall_references_iff.1 fun r hr => h r ?_
      exact List.mem_append_right _ (List.mem_flatMap.2 ⟨step, hstep, hr⟩)
  · intro h r hr
    rcases List.mem_append.1 hr with hr | hr
    · obtain ⟨id, hid, rfl⟩ := Option.map_eq_some_iff.1 (Option.mem_toList.1 hr)
      obtain ⟨policy, hpolicy, hid⟩ := Option.bind_eq_some_iff.1 hid
      exact h.presence policy hpolicy id hid
    · obtain ⟨step, hstep, hr⟩ := List.mem_flatMap.1 hr
      exact Step.forall_references_iff.2 (h.steps step hstep) r hr

theorem Step.outline_eq_inclusion {step : Step M k} {target : ScopeId}
    (h : step.outline = .inclusion target) : step = .inclusion target := by
  cases step <;> simp_all [outline]

namespace ScopeTable

variable {table : ScopeTable M} {catalog : Catalog}

/-- The check of the references is about all that the scopes name. -/
theorem fits_iff :
    table.Fits catalog ↔ ∀ id s, table.find? id = some s →
      s.scope.Names (fun error => catalog.contains error) (fun name => Path.isMemberName name)
        fun target kind => table.kind? target = some kind := by
  simp only [Fits, Scope.forall_references_iff, Reference.Holds]

theorem isEmpty_of_kind? {id : ScopeId} (h : table.kind? id = some k) :
    table.isEmpty = false := by
  obtain ⟨s, hs, _⟩ := Option.map_eq_some_iff.1 h
  have hentry := Dict.find?_eq_some_iff.1 hs
  by_contra hempty
  rw [Bool.not_eq_false, Dict.isEmpty, List.isEmpty_iff] at hempty
  rw [hempty] at hentry
  exact absurd hentry List.not_mem_nil

/-! ## The graph of the scopes -/

/-- A step of one scope leads to another; where presence is an error, no step is taken. -/
def LeadsTo (table : ScopeTable M) (a b : ScopeId) : Prop :=
  ∃ s, table.find? a = some s ∧ ∃ step ∈ s.scope.live, step.outline.target? = some b

/-- One scope includes another. -/
def Includes (table : ScopeTable M) (a b : ScopeId) : Prop :=
  ∃ s, table.find? a = some s ∧ .inclusion b ∈ s.scope.live

theorem find?_outlines_eq_some_iff {id : ScopeId} {o : Outline} :
    table.outlines.find? id = some o ↔ ∃ s, table.find? id = some s ∧ s.scope.outline = o := by
  rw [outlines, Dict.find?_map, Option.map_eq_some_iff]

theorem edge_outlines (table : ScopeTable M) : Survey.Edge table.outlines = table.LeadsTo := by
  ext a b
  constructor
  · rintro ⟨o, step, ho, hstep, htarget⟩
    obtain ⟨s, hs, rfl⟩ := find?_outlines_eq_some_iff.1 ho
    rw [Scope.live_outline, List.mem_map] at hstep
    obtain ⟨step, hstep, rfl⟩ := hstep
    exact ⟨s, hs, step, hstep, htarget⟩
  · rintro ⟨s, hs, step, hstep, htarget⟩
    refine ⟨s.scope.outline, step.outline, find?_outlines_eq_some_iff.2 ⟨s, hs, rfl⟩, ?_, htarget⟩
    rw [Scope.live_outline]
    exact List.mem_map_of_mem hstep

theorem includes_outlines (table : ScopeTable M) :
    Survey.Includes table.outlines = table.Includes := by
  ext a b
  constructor
  · rintro ⟨o, ho, hstep⟩
    obtain ⟨s, hs, rfl⟩ := find?_outlines_eq_some_iff.1 ho
    rw [Scope.live_outline, List.mem_map] at hstep
    obtain ⟨step, hstep, houtline⟩ := hstep
    rw [Step.outline_eq_inclusion houtline] at hstep
    exact ⟨s, hs, hstep⟩
  · rintro ⟨s, hs, hstep⟩
    refine ⟨s.scope.outline, find?_outlines_eq_some_iff.2 ⟨s, hs, rfl⟩, ?_⟩
    rw [Scope.live_outline]
    exact List.mem_map_of_mem hstep

/-- In a table that fits, every scope that can be reached is there. -/
theorem Fits.exists_outline {rootId id : ScopeId} (hfits : table.Fits catalog)
    (hroot : table.kind? rootId = some k)
    (hreach : Survey.Reachable table.outlines rootId id) :
    ∃ o, table.outlines.find? id = some o := by
  have hfind : ∃ kind, table.kind? id = some kind := by
    cases hreach with
    | refl => exact ⟨k, hroot⟩
    | tail _ hedge =>
      rw [edge_outlines] at hedge
      obtain ⟨s, hs, step, hstep, htarget⟩ := hedge
      have hnames := (fits_iff.1 hfits _ s hs).steps step (Scope.mem_steps_of_mem_live hstep)
      exact hnames.exists_kind htarget
  obtain ⟨kind, hkind⟩ := hfind
  obtain ⟨scope, hscope⟩ := kind?_eq_some_iff.1 hkind
  exact ⟨_, find?_outlines hscope⟩

end ScopeTable

/-! ## The graph of a run -/

namespace Visit

variable {scopes : ScopeTable M} {visit next : Visit M} {approach : Walk.Approach}

theorem Leads.leadsTo (h : Leads scopes approach visit next) :
    scopes.LeadsTo visit.id next.id := by
  obtain ⟨o, step, ho, hstep, htarget, _⟩ := h.exists_step
  rw [← ScopeTable.edge_outlines]
  exact ⟨o, step, ho, hstep, htarget⟩

theorem Reaches.leadsTo (h : Reaches scopes visit next) :
    Relation.ReflTransGen scopes.LeadsTo visit.id next.id :=
  h.lift Visit.id fun _ _ ⟨_, hleads⟩ => hleads.leadsTo

end Visit

/-! ## The table of paths -/

theorem Path.join_eq_empty {base relative : String} (h : join base relative = "") :
    base = "" ∧ relative = "" := by
  by_cases hrelative : relative = ""
  · subst hrelative
    rw [join_empty] at h
    exact ⟨h, rfl⟩
  · by_cases hbase : base = ""
    · subst hbase
      rw [empty_join] at h
      exact absurd h hrelative
    · rw [join] at h
      simp only [String.isEmpty_iff, hrelative, hbase, if_false] at h
      split at h <;> simp_all

namespace PathTable

theorem find?_of_mem_toList {t : PathTable} {base relative joined : String}
    (h : (base, relative, joined) ∈ t.toList) : t.find? base relative = some joined := by
  obtain ⟨b, hb, hmem⟩ := List.mem_flatMap.1 h
  obtain ⟨r, hr, heq⟩ := List.mem_map.1 hmem
  obtain ⟨rfl, hpair⟩ := Prod.mk.inj heq
  obtain ⟨rfl, rfl⟩ := Prod.mk.inj hpair
  have hbase : t.bases.find? b.1 = some b.2 := Dict.find?_eq_some_iff.2 hb
  have hrelative : b.2.find? r.1 = some r.2 := Dict.find?_eq_some_iff.2 hr
  rw [find?, hbase]
  exact hrelative

/-- A table of joins passes its check. -/
theorem Correct.check_eq_ok {t : PathTable} (h : t.Correct) : t.check = .ok () := by
  have hnone : (t.toList.find? fun e => e.2.2.isEmpty && !(e.1.isEmpty && e.2.1.isEmpty)) =
      none := by
    rw [List.find?_eq_none]
    rintro ⟨base, relative, joined⟩ hmem
    have hjoined := h base relative joined (find?_of_mem_toList hmem)
    by_cases hempty : joined = ""
    · rw [hempty] at hjoined
      obtain ⟨rfl, rfl⟩ := Path.join_eq_empty hjoined.symm
      simp
    · simp [hempty]
  rw [check, hnone]

end PathTable

/-! ## Why a table is refused -/

namespace Scheme

/-- Why the check of a reference of the scope `id` fails. -/
inductive Unmet (table : ScopeTable M) (catalog : Catalog) (id : ScopeId) :
    Reference M → SchemeError → Prop where
  | error {error : ErrorId} (h : catalog.contains error = false) :
    Unmet table catalog id (.error error) (.unknownError id error)
  | memberName {name : String} (h : Path.isMemberName name = false) :
    Unmet table catalog id (.memberName name) (.memberName id name)
  | noTarget {target : ScopeId} {kind : M.Kind} (h : table.kind? target = none) :
    Unmet table catalog id (.scope target kind) (.unknownTarget id target)
  | otherTarget {target : ScopeId} {kind actual : M.Kind} (h : table.kind? target = some actual)
    (hne : actual ≠ kind) :
    Unmet table catalog id (.scope target kind)
      (.targetKind id target (M.kindName kind) (M.kindName actual))

theorem Unmet.not_holds {table : ScopeTable M} {catalog : Catalog} {id : ScopeId}
    {r : Reference M} {e : SchemeError} (h : Unmet table catalog id r e) :
    ¬r.Holds table catalog := by
  cases h with
  | error h => simp [Reference.Holds, h]
  | memberName h => simp [Reference.Holds, h]
  | noTarget h => simp [Reference.Holds, h]
  | otherTarget h hne => simp [Reference.Holds, h, hne]

/-- Why a table makes no scheme for values of kind `k`. -/
inductive Refused (table : ScopeTable M) (k : M.Kind) (rootId : ScopeId) (catalog : Catalog) :
    SchemeError → Prop where
  | empty (h : table.isEmpty = true) : Refused table k rootId catalog .emptyTable
  | noRoot (h : table.kind? rootId = none) : Refused table k rootId catalog (.missingRoot rootId)
  | otherRoot {actual : M.Kind} (h : table.kind? rootId = some actual) (hne : actual ≠ k) :
    Refused table k rootId catalog (.rootKind rootId (M.kindName k) (M.kindName actual))
  | unmet {id : ScopeId} {s : AnyScope M} {r : Reference M} {e : SchemeError}
    (hroot : table.kind? rootId = some k) (hs : table.find? id = some s)
    (hr : r ∈ s.scope.references) (h : Unmet table catalog id r e) :
    Refused table k rootId catalog e
  | loop {id : ScopeId} {path : String} (hroot : table.kind? rootId = some k)
    (hfits : table.Fits catalog) (hreach : Relation.ReflTransGen table.LeadsTo rootId id)
    (hloop : Relation.TransGen table.Includes id id) :
    Refused table k rootId catalog (.inclusionCycle id path)

section Compile

variable {table : ScopeTable M} {rootId : ScopeId} {catalog : Catalog} {e : SchemeError}

theorem unmet_of_checkReference {id : ScopeId} {r : Reference M}
    (h : checkReference table catalog id r = .error e) : Unmet table catalog id r e := by
  cases r with
  | error error =>
    rw [checkReference] at h
    split at h
    · cases h
    · rename_i hcontains
      obtain rfl := Except.error.inj h
      exact .error (Bool.eq_false_iff.2 hcontains)
  | memberName name =>
    rw [checkReference] at h
    split at h
    · cases h
    · rename_i hname
      obtain rfl := Except.error.inj h
      exact .memberName (Bool.eq_false_iff.2 hname)
  | scope target kind =>
    rw [checkReference] at h
    split at h
    · rename_i hnone
      obtain rfl := Except.error.inj h
      exact .noTarget hnone
    · rename_i actual hactual
      split at h
      · cases h
      · rename_i hne
        obtain rfl := Except.error.inj h
        exact .otherTarget hactual hne

theorem unmet_of_checkReferences (h : checkReferences table catalog = .error e) :
    ∃ id s, table.find? id = some s ∧ ∃ r ∈ s.scope.references, Unmet table catalog id r e := by
  obtain ⟨⟨id, s⟩, hmem, hs⟩ := forM_eq_error h
  obtain ⟨r, hr, he⟩ := forM_eq_error hs
  exact ⟨id, s, Dict.find?_eq_some_iff.2 hmem, r, hr, unmet_of_checkReference he⟩

/-- Where the references are met, a survey fails at an inclusion only. -/
theorem loop_of_ofOutlines (hroot : table.kind? rootId = some k) (hfits : table.Fits catalog)
    (h : Survey.ofOutlines table.outlines rootId = .error e) :
    Refused table k rootId catalog e := by
  cases Survey.fault_of_ofOutlines h with
  | missing hreach hnone =>
    obtain ⟨o, ho⟩ := hfits.exists_outline hroot hreach
    rw [ho] at hnone
    exact nomatch hnone
  | loop hreach hloop =>
    rw [ScopeTable.includes_outlines] at hloop
    rw [Survey.Reachable, ScopeTable.edge_outlines] at hreach
    exact .loop hroot hfits hreach hloop

theorem refused_of_compile (h : compile table k rootId catalog = .error e) :
    Refused table k rootId catalog e := by
  rw [compile] at h
  split at h
  · rename_i hempty
    obtain rfl := Except.error.inj h
    exact .empty hempty
  cases hkind : table.kind? rootId with
  | none =>
    simp only [hkind] at h
    obtain rfl := Except.error.inj h
    exact .noRoot hkind
  | some actual =>
    simp only [hkind] at h
    split at h
    · rename_i hne
      obtain rfl := Except.error.inj h
      exact .otherRoot hkind hne
    · rename_i heq
      obtain rfl : actual = k := Decidable.not_not.1 heq
      rcases bind_eq_error h with hrefs | ⟨_, hrefs, h⟩
      · obtain ⟨id, s, hs, r, hr, he⟩ := unmet_of_checkReferences hrefs
        exact .unmet hkind hs hr he
      rcases bind_eq_error h with hsurvey | ⟨survey, hsurvey, h⟩
      · exact loop_of_ofOutlines hkind (checkReferences_eq_ok_iff.1 hrefs) hsurvey
      -- The checks that are left do not fail.
      have hpaths := (Survey.paths_of_ofOutlines hsurvey).check_eq_ok
      obtain ⟨root, hroot⟩ := ScopeTable.kind?_eq_some_iff.1 hkind
      simp only [hpaths, hroot] at h
      cases h

/-- What a table has to be like is enough. -/
theorem exists_compile (hroot : table.kind? rootId = some k) (hfits : table.Fits catalog)
    (hloops : ∀ id, Relation.ReflTransGen table.LeadsTo rootId id →
      ¬Relation.TransGen table.Includes id id) :
    ∃ s, compile table k rootId catalog = .ok s := by
  cases h : compile table k rootId catalog with
  | ok s => exact ⟨s, rfl⟩
  | error e =>
    cases refused_of_compile h with
    | empty hempty =>
      rw [ScopeTable.isEmpty_of_kind? hroot] at hempty
      exact nomatch hempty
    | noRoot hnone =>
      rw [hroot] at hnone
      exact nomatch hnone
    | otherRoot hother hne =>
      rw [hroot] at hother
      exact absurd (Option.some.inj hother).symm hne
    | unmet _ hs hr hunmet => exact absurd (hfits _ _ hs _ hr) hunmet.not_holds
    | loop _ _ hreach hloop => exact absurd hloop (hloops _ hreach)

/-- No scope that can be reached in a table that is compiled includes itself. -/
theorem not_includes_self {s : Scheme M k} (h : compile table k rootId catalog = .ok s)
    {id : ScopeId} (hreach : Relation.ReflTransGen table.LeadsTo rootId id) :
    ¬Relation.TransGen table.Includes id id := by
  obtain ⟨root, survey, _, _, _, hsurvey, _⟩ := compile_eq_ok h
  rw [← ScopeTable.edge_outlines] at hreach
  rw [← ScopeTable.includes_outlines]
  exact (Survey.exists_ofOutlines_iff.1 ⟨survey, hsurvey⟩ id hreach).2

/-- Every scope that can be reached can be the root of a scheme of its own. -/
theorem exists_compile_of_reaches {s : Scheme M k} (h : compile table k rootId catalog = .ok s)
    {id : ScopeId} (hreach : Relation.ReflTransGen table.LeadsTo rootId id) {l : M.Kind}
    (hkind : table.kind? id = some l) : ∃ alone, compile table l id catalog = .ok alone := by
  obtain ⟨_, _, _, _, hfits, _⟩ := compile_eq_ok h
  exact exists_compile hkind hfits fun _ hnext => not_includes_self h (hreach.trans hnext)

/-- A scope that is missing has been refused before the survey could meet it. -/
theorem compile_ne_undefinedScope (id : ScopeId) :
    compile table k rootId catalog ≠ .error (.undefinedScope id) := by
  intro h
  cases refused_of_compile h with
  | unmet _ _ _ hunmet => exact nomatch hunmet

/-- A table makes a scheme if and only if its root is there for the right kind, all that its
scopes name is there, and none of the scopes that can be reached includes itself.  A refusal for
an inclusion names such a scope, and the checks that come after that of the references refuse
nothing else. -/
theorem compile_accepts_exactly (table : ScopeTable M) (k : M.Kind) (rootId : ScopeId)
    (catalog : Catalog) :
    ((∃ s : Scheme M k, compile table k rootId catalog = .ok s) ↔
      table.isEmpty = false ∧ table.kind? rootId = some k ∧
      (∀ id s, table.find? id = some s →
        s.scope.Names (fun error => catalog.contains error) (fun name => Path.isMemberName name)
          fun target kind => table.kind? target = some kind) ∧
      ∀ id, Relation.ReflTransGen table.LeadsTo rootId id →
        ¬Relation.TransGen table.Includes id id) ∧
    (∀ id path, compile table k rootId catalog = .error (.inclusionCycle id path) →
      Relation.ReflTransGen table.LeadsTo rootId id ∧ Relation.TransGen table.Includes id id) ∧
    (∀ id, compile table k rootId catalog ≠ .error (.undefinedScope id)) ∧
    (∀ base relative, compile table k rootId catalog ≠ .error (.emptyPath base relative)) ∧
    (table.kind? rootId = some k → ∀ id expected actual,
      compile table k rootId catalog ≠ .error (.rootKind id expected actual)) := by
  rw [← ScopeTable.fits_iff]
  refine ⟨⟨?_, ?_⟩, ?_, ?_, ?_, ?_⟩
  · rintro ⟨s, hs⟩
    obtain ⟨root, survey, hempty, hroot, hfits, _, _⟩ := compile_eq_ok hs
    exact ⟨hempty, ScopeTable.kind?_eq_some_iff.2 ⟨root, hroot⟩, hfits,
      fun _ hreach => not_includes_self hs hreach⟩
  · rintro ⟨_, hroot, hfits, hloops⟩
    exact exists_compile hroot hfits hloops
  · intro id path h
    cases refused_of_compile h with
    | unmet _ _ _ hunmet => exact nomatch hunmet
    | loop _ _ hreach hloop => exact ⟨hreach, hloop⟩
  · exact compile_ne_undefinedScope
  · intro base relative h
    cases refused_of_compile h with
    | unmet _ _ _ hunmet => exact nomatch hunmet
  · intro hroot id expected actual h
    cases refused_of_compile h with
    | otherRoot hother hne =>
      rw [hroot] at hother
      exact absurd (Option.some.inj hother).symm hne
    | unmet _ _ _ hunmet => exact nomatch hunmet

end Compile

end Scheme

/-- Orders whose articles are checked as lines, and so include themselves. -/
def Orders.tangled : ScopeTable space :=
  (table false).insert ⟨3⟩ ⟨Document.Kind.obj, { steps := [.inclusion ⟨2⟩], presence := none }⟩

/-- Tangled orders are refused; orders that contain themselves are not. -/
theorem Scheme.compile_accepts_exactly_tangled :
    Scheme.compile Orders.tangled .obj ⟨0⟩ Orders.catalog =
      .error (.inclusionCycle ⟨2⟩ "lines[#]") ∧
    Relation.TransGen Orders.tangled.Includes ⟨2⟩ ⟨2⟩ ∧
    Orders.tangled.kind? ⟨0⟩ = some .obj ∧
    (∀ id expected actual, Scheme.compile Orders.tangled .obj ⟨0⟩ Orders.catalog ≠
      .error (.rootKind id expected actual)) ∧
    (∃ s, Scheme.compile (Orders.table true) .obj ⟨0⟩ Orders.catalog = .ok s) ∧
    ∀ id, Relation.ReflTransGen (Orders.table true).LeadsTo ⟨0⟩ id →
      ¬Relation.TransGen (Orders.table true).Includes id id := by
  have herror : Scheme.compile Orders.tangled .obj ⟨0⟩ Orders.catalog =
      .error (.inclusionCycle ⟨2⟩ "lines[#]") := rfl
  have hok : ∃ s, Scheme.compile (Orders.table true) .obj ⟨0⟩ Orders.catalog = .ok s := ⟨_, rfl⟩
  obtain ⟨_, hloop, _, _, hroot⟩ :=
    Scheme.compile_accepts_exactly Orders.tangled .obj ⟨0⟩ Orders.catalog
  obtain ⟨_, _, _, hloops⟩ :=
    (Scheme.compile_accepts_exactly (Orders.table true) .obj ⟨0⟩ Orders.catalog).1.1 hok
  exact ⟨herror, (hloop _ _ herror).2, rfl, hroot rfl, hok, hloops⟩

end Rulebook
