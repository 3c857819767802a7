import Rulebook.Proofs.Failing
import Rulebook.Proofs.Lookup
import Rulebook.Scheme.Basic

/-!
# What a compiled scheme can rely on

`Scheme.compile` checks a table once.  `ScopeTable.Fits` is what the check of the references
establishes, for every scope of the table: its errors are in the catalog, its member names can
stand in paths, and its steps lead to scopes for the values that they hand on.
`Scheme.IsCompiled` gathers this with the root and the survey, and it is all that later modules
use of a successful `compile`.
-/

namespace Rulebook

variable {M : ModelSpace} {k : M.Kind}

/-! ## Typed look-ups -/

namespace ScopeTable

theorem typed?_eq_some_iff {table : ScopeTable M} {id : ScopeId} {scope : Scope M k} :
    table.typed? id k = some scope ↔ table.find? id = some ⟨k, scope⟩ := by
  rw [typed?]
  cases h : table.find? id with
  | none => simp
  | some s =>
    obtain ⟨kind, other⟩ := s
    by_cases hkind : kind = k
    · subst hkind
      simp
    · have hne : ¬(⟨kind, other⟩ : AnyScope M) = ⟨k, scope⟩ := fun he =>
        hkind (congrArg AnyScope.kind he)
      simp [hkind, hne]

theorem kind?_eq_some_iff {table : ScopeTable M} {id : ScopeId} :
    table.kind? id = some k ↔ ∃ scope : Scope M k, table.typed? id k = some scope := by
  simp only [kind?, Option.map_eq_some_iff, typed?_eq_some_iff]
  constructor
  · rintro ⟨⟨kind, scope⟩, h, rfl⟩
    exact ⟨scope, h⟩
  · rintro ⟨scope, h⟩
    exact ⟨⟨k, scope⟩, h, rfl⟩

/-- The outline under an identifier is that of the scope there. -/
theorem find?_outlines {table : ScopeTable M} {id : ScopeId} {scope : Scope M k}
    (h : table.typed? id k = some scope) : table.outlines.find? id = some scope.outline := by
  rw [outlines, Dict.find?_map, typed?_eq_some_iff.1 h]
  rfl

@[simp] theorem size_outlines (table : ScopeTable M) : table.outlines.size = table.size :=
  Dict.size_map _ table

end ScopeTable

/-! ## The check of the references -/

/-- What a scope relies on is there. -/
def Reference.Holds (table : ScopeTable M) (catalog : Catalog) : Reference M → Prop
  | .error id => catalog.contains id
  | .memberName name => Path.isMemberName name
  | .scope target kind => table.kind? target = some kind

/-- Whatever a scope of the table relies on is there. -/
def ScopeTable.Fits (table : ScopeTable M) (catalog : Catalog) : Prop :=
  ∀ id s, table.find? id = some s → ∀ r ∈ s.scope.references, r.Holds table catalog

namespace ScopeTable.Fits

variable {table : ScopeTable M} {catalog : Catalog} {id : ScopeId} {scope : Scope M k}
  {step : Step M k}

theorem holds_of_step (h : table.Fits catalog) (hscope : table.typed? id k = some scope)
    (hstep : step ∈ scope.steps) {r : Reference M} (hr : r ∈ step.references) :
    r.Holds table catalog := by
  refine h id ⟨k, scope⟩ (typed?_eq_some_iff.1 hscope) r ?_
  exact List.mem_append_right _ (List.mem_flatMap.2 ⟨step, hstep, hr⟩)

/-- A step leads to a scope for the kind of value that it hands on. -/
theorem exists_typed? (h : table.Fits catalog) (hscope : table.typed? id k = some scope)
    (hstep : step ∈ scope.steps) {target : ScopeId} {kind : M.Kind}
    (hr : .scope target kind ∈ step.references) :
    ∃ t : Scope M kind, table.typed? target kind = some t :=
  kind?_eq_some_iff.1 (h.holds_of_step hscope hstep hr)

/-- A member has a name that can stand in a path. -/
theorem isMemberName (h : table.Fits catalog) (hscope : table.typed? id k = some scope)
    (hstep : step ∈ scope.steps) {name : String} (hr : .memberName name ∈ step.references) :
    Path.isMemberName name :=
  h.holds_of_step hscope hstep hr

end ScopeTable.Fits

namespace Scheme

theorem checkReference_eq_ok_iff {table : ScopeTable M} {catalog : Catalog} {scope : ScopeId}
    {r : Reference M} :
    checkReference table catalog scope r = .ok () ↔ r.Holds table catalog := by
  cases r with
  | error id => simp [checkReference, Reference.Holds]
  | memberName name => simp [checkReference, Reference.Holds]
  | scope target kind =>
    rw [checkReference, Reference.Holds]
    cases table.kind? target with
    | none => simp
    | some actual => simp

theorem checkReferences_eq_ok_iff {table : ScopeTable M} {catalog : Catalog} :
    checkReferences table catalog = .ok () ↔ table.Fits catalog := by
  simp only [checkReferences, forM_eq_ok_iff, checkReference_eq_ok_iff, ScopeTable.Fits,
    Dict.find?_eq_some_iff, Prod.forall]

/-- What is known of a scheme once it is compiled. -/
structure IsCompiled (s : Scheme M k) : Prop where
  /-- All that its scopes rely on is there. -/
  fits : s.scopes.Fits s.catalog
  /-- The root is a scope of the table, for the kind of the scheme. -/
  root_typed : s.scopes.typed? s.rootId k = some s.root
  /-- The survey is that of the table from the root, and has not failed. -/
  surveyed : Survey.ofOutlines s.scopes.outlines s.rootId = .ok s.survey

section Compile

variable {table : ScopeTable M} {rootId : ScopeId} {catalog : Catalog} {s : Scheme M k}

/-- What a table that is compiled has passed, and what becomes of it. -/
theorem compile_eq_ok (h : compile table k rootId catalog = .ok s) :
    ∃ root survey, table.isEmpty = false ∧ table.typed? rootId k = some root ∧
      table.Fits catalog ∧ Survey.ofOutlines table.outlines rootId = .ok survey ∧
      s = ⟨table, rootId, root, catalog, survey⟩ := by
  rw [compile] at h
  split at h
  · exact nomatch h
  rename_i hempty
  cases hkind : table.kind? rootId with
  | none =>
    simp only [hkind] at h
    exact nomatch h
  | some actual =>
    simp only [hkind] at h
    split at h
    · exact nomatch h
    obtain ⟨_, hrefs, h⟩ := bind_eq_ok h
    obtain ⟨survey, hsurvey, h⟩ := bind_eq_ok h
    obtain ⟨_, _, h⟩ := bind_eq_ok h
    cases hroot : table.typed? rootId k with
    | none =>
      simp only [hroot] at h
      exact nomatch h
    | some root =>
      simp only [hroot] at h
      refine ⟨root, survey, Bool.eq_false_iff.2 hempty, rfl, ?_, hsurvey, ?_⟩
      · exact checkReferences_eq_ok_iff.1 hrefs
      · exact (Except.ok.inj h).symm

theorem isCompiled_of_compile (h : compile table k rootId catalog = .ok s) : s.IsCompiled := by
  obtain ⟨root, survey, _, hroot, hfits, hsurvey, rfl⟩ := compile_eq_ok h
  exact ⟨hfits, hroot, hsurvey⟩

end Compile

end Scheme

end Rulebook
