import Rulebook.Proofs.Safety
import Rulebook.Proofs.Script

/-!
# The order of assembly

Two scripts may make the same calls in different orders, as long as both create each scope before
they use it.  The assemblies that they end in differ in the numbers of the scopes and of the
errors, and in nothing else.

`State.renaming` leads from the one to the other: a scope to the scope with the same label, and an
error to the one whose definition is equal.  It is one to one on scopes because it is undone by
the renaming back (`renaming_scope_inverse`), and it carries each scope over because both
assemblies have the scopes of the same definitions (`renames`).  What two schemes have in common
that differ in their identifiers only is `Scheme.Alike`.
-/

namespace Rulebook

open Catalog (Draft)

variable {M : ModelSpace} {k : M.Kind} {r : Renaming}

/-! ## Schemes that differ in their identifiers -/

/-- Two identifiers stand for equal definitions, each in its own catalog. -/
def Catalog.SameError (catalog catalog' : Catalog) (id id' : ErrorId) : Prop :=
  ∃ e e', catalog.find? id = some e ∧ catalog'.find? id' = some e' ∧ (e == e') = true

/-- There are errors at the same paths, and those of each path agree one by one. -/
structure ErrorsByPath.Agree (catalog catalog' : Catalog) (errors errors' : ErrorsByPath) :
    Prop where
  keys : errors'.keys = errors.keys
  lists : ∀ path, Option.Rel (List.Forall₂ (catalog.SameError catalog')) (errors.find? path)
    (errors'.find? path)

/-- Two schemes cannot be told apart but by their identifiers. -/
structure Scheme.Alike (s s' : Scheme M k) : Prop where
  errors : s.survey.errors.Agree s.catalog s'.catalog s'.survey.errors
  paths : s'.survey.paths = s.survey.paths
  errorPaths : s'.survey.errorPaths = s.survey.errorPaths
  maxDepth : s'.survey.maxDepth = s.survey.maxDepth
  recursive : s'.recursive = s.recursive
  walk : ∀ depth model options, Option.Rel
    (fun w w' => w.errors.Agree s.catalog s'.catalog w'.errors)
    (s.walk? depth model options) (s'.walk? depth model options)
  validate : ∀ model options, Option.Rel
    (fun errors errors' => errors.Agree s.catalog s'.catalog errors')
    (s.validate model options) (s'.validate model options)

theorem ErrorsByPath.agree_rename {catalog catalog' : Catalog} {errors : ErrorsByPath}
    (h : ∀ path ids, errors.find? path = some ids →
      ∀ id ∈ ids, catalog.SameError catalog' id (r.error id)) :
    errors.Agree catalog catalog' (errors.rename r) where
  keys := errors.keys_rename
  lists path := by
    rw [rename, Dict.find?_map]
    cases hids : errors.find? path with
    | none => exact .none
    | some ids =>
      refine .some ?_
      rw [List.forall₂_map_right_iff, List.forall₂_same]
      exact h path ids hids

/-- Where each error is renamed to an equal one, nothing but the identifiers has changed. -/
theorem Scheme.Renames.alike {s s' : Scheme M k} (h : s.Renames r s') (hs : s.IsCompiled)
    (herror : ∀ id, s.catalog.contains id → s.catalog.SameError s'.catalog id (r.error id)) :
    s.Alike s' := by
  have hwalked {depth : Nat} {model : Option (M.Value k)} {options : Options} {w : Walk M}
      (hw : s.walk? depth model options = some w) :
      w.errors.Agree s.catalog s'.catalog (w.errors.rename r) := by
    refine ErrorsByPath.agree_rename fun path ids hids id hid => herror id ?_
    exact (hs.safe_of_walk? hw).registered path ids hids id hid
  have hsurveyed : s.survey.errors.Agree s.catalog s'.catalog (s.survey.errors.rename r) := by
    refine ErrorsByPath.agree_rename fun path ids hids id hid => herror id ?_
    exact hs.contains_of_survey hids hid
  constructor
  case errors =>
    rw [h.survey]
    exact hsurveyed
  case paths =>
    rw [h.survey]
    rfl
  case errorPaths =>
    have hkeys := congrArg List.length hsurveyed.keys
    rw [Dict.length_keys, Dict.length_keys] at hkeys
    rw [h.survey]
    exact hkeys
  case maxDepth =>
    rw [h.survey]
    rfl
  case recursive =>
    rw [Scheme.recursive, h.survey]
    rfl
  case walk =>
    intro depth model options
    rw [h.walk?_eq]
    cases hw : s.walk? depth model options with
    | none => exact .none
    | some w => exact .some (hwalked hw)
  case validate =>
    intro model options
    rw [h.validate_eq]
    cases herrors : s.validate model options with
    | none => exact .none
    | some errors =>
      obtain ⟨w, hw, rfl⟩ := Option.map_eq_some_iff.1 herrors
      exact .some (hwalked hw)

/-- A scheme is built if every scope is defined and the table compiles. -/
theorem Assembly.build_eq_ok_iff {a : Assembly M} {root : Handle M k} {s : Scheme M k} :
    a.build root = .ok s ↔ (∀ i < a.declared, a.scopes.contains ⟨i⟩) ∧
      Scheme.compile a.scopes k root.id a.errors.catalog = .ok s := by
  have hpending : (List.range a.declared).find? (fun id => !a.scopes.contains ⟨id⟩) = none ↔
      ∀ i < a.declared, a.scopes.contains ⟨i⟩ := by
    simp
  rw [build, ← hpending]
  cases (List.range a.declared).find? fun id => !a.scopes.contains ⟨id⟩ <;> simp

/-! ## Definitions under other identifiers -/

section Finished

variable {ids ids' : ScopeId → ScopeId} {error error' : ErrorDef → ErrorId}

theorem DraftPresence.rename_finished {presence : DraftPresence}
    (herror : ∀ e ∈ presence.errors, r.error (error e) = error' e) :
    (presence.finished error).rename r = presence.finished error' := by
  cases presence with
  | optional => rfl
  | required e => exact congrArg PresencePolicy.required (herror _ List.mem_cons_self)
  | forbidden e => exact congrArg PresencePolicy.forbidden (herror _ List.mem_cons_self)

theorem DraftStep.rename_finished {step : DraftStep M k}
    (hnames : step.Names (fun _ => False) fun label _ => r.scope (ids label) = ids' label)
    (herror : ∀ e ∈ step.errors, r.error (error e) = error' e) :
    ((step.resolve ids).finished error).rename r = (step.resolve ids').finished error' := by
  cases step with
  | rule e test =>
    cases e with
    | defined e => exact congrArg (Step.rule · test) (herror e List.mem_cons_self)
    | registered id => exact False.elim hnames
  | step s =>
    cases s with
    | rule id test => exact False.elim hnames
    | member name target kind get => exact congrArg (Step.member name · kind get) hnames.2
    | collection target kind elements => exact congrArg (Step.collection · kind elements) hnames
    | inclusion target => exact congrArg Step.inclusion hnames
    | narrowing target kind view => exact congrArg (Step.narrowing · kind view) hnames

/-- The scope of a definition, renamed, is its scope under the new identifiers. -/
theorem Script.Definition.rename_scope {d : Definition M} {labels : List ScopeId}
    (hwithin : d.Within labels) (hids : ∀ label ∈ labels, r.scope (ids label) = ids' label)
    (herror : ∀ e ∈ d.draft.errors, r.error (error e) = error' e) :
    (d.scope ids error).rename r = d.scope ids' error' := by
  obtain ⟨label, kind, steps, presence⟩ := d
  have hsteps : ∀ step ∈ steps, ((step.resolve ids).finished error).rename r =
      (step.resolve ids').finished error' := by
    intro step hstep
    refine DraftStep.rename_finished ((hwithin step hstep).imp (fun _ h => h) ?_) ?_
    · intro label _ hlabel
      exact hids label hlabel
    · intro e he
      exact herror e (List.mem_append_right _ (List.mem_flatMap.2 ⟨step, hstep, he⟩))
  have hpresence : ∀ p ∈ presence, (p.finished error).rename r = p.finished error' := by
    intro p hp
    refine DraftPresence.rename_finished fun e he => herror e ?_
    exact List.mem_append_left _ (List.mem_flatMap.2 ⟨p, Option.mem_toList.2 hp, he⟩)
  simp only [scope, ScopeDraft.finished, ScopeDraft.resolve, Scope.rename, List.map_map,
    Option.map_map]
  congr 1
  · exact List.map_congr_left hsteps
  · exact Option.map_congr hpresence

end Finished

namespace Script

/-! ## From one assembly to the other -/

/-- Leads from the identifiers of one script in progress to those of another one with the same
labels and definitions. -/
def State.renaming (labels : List ScopeId) (st st' : State M) : Renaming where
  scope id := (labels[id.val]?.map st'.ids).getD id
  error id := (st.assembly.errors.definitions[id.val]?.map st'.assembly.errors.idOf).getD id

section Renames

variable {labels labels' : List ScopeId} {defs defs' : List (Definition M)} {st st' : State M}
  {label : ScopeId}

theorem Holds.exists_label (h : Holds labels defs st) {id : ScopeId}
    (hid : id.val < labels.length) : ∃ label ∈ labels, st.ids label = id :=
  ⟨labels[id.val], List.getElem_mem hid, h.ids id.val _ (List.getElem?_eq_getElem hid)⟩

theorem Holds.id_lt (h : Holds labels defs st) (hlabel : label ∈ labels) :
    (st.ids label).val < labels.length := by
  obtain ⟨i, hi⟩ := List.mem_iff_getElem?.1 hlabel
  rw [h.ids i label hi]
  exact (List.getElem?_eq_some_iff.1 hi).1

theorem Holds.renaming_scope (h : Holds labels defs st) (hlabel : label ∈ labels) :
    (State.renaming labels st st').scope (st.ids label) = st'.ids label := by
  obtain ⟨i, hi⟩ := List.mem_iff_getElem?.1 hlabel
  rw [h.ids i label hi, State.renaming]
  simp [hi]

theorem renaming_scope_of_le {id : ScopeId} (hid : labels.length ≤ id.val) :
    (State.renaming labels st st').scope id = id := by
  simp [State.renaming, List.getElem?_eq_none hid]

/-- Renaming back and forth changes nothing. -/
theorem renaming_scope_inverse (h : Holds labels defs st) (h' : Holds labels' defs' st')
    (hlabels : labels.Perm labels') (id : ScopeId) :
    (State.renaming labels' st' st).scope ((State.renaming labels st st').scope id) = id := by
  rcases Nat.lt_or_ge id.val labels.length with hid | hid
  · obtain ⟨label, hlabel, rfl⟩ := h.exists_label hid
    rw [h.renaming_scope hlabel, h'.renaming_scope (hlabels.mem_iff.1 hlabel)]
  · have hid' : labels'.length ≤ id.val := hlabels.length_eq ▸ hid
    rw [renaming_scope_of_le hid, renaming_scope_of_le hid']

theorem renaming_scope_bijective (h : Holds labels defs st) (h' : Holds labels' defs' st')
    (hlabels : labels.Perm labels') :
    Function.Bijective (State.renaming labels st st').scope := by
  rw [Function.bijective_iff_has_inverse]
  exact ⟨_, renaming_scope_inverse h h' hlabels, renaming_scope_inverse h' h hlabels.symm⟩

/-- An error is renamed to the one whose definition is equal. -/
theorem Holds.renaming_error (h : Holds labels defs st) {d : Definition M} (hd : d ∈ defs)
    {e : ErrorDef} (he : e ∈ d.draft.errors) :
    (State.renaming labels st st').error (st.assembly.errors.idOf e) =
      st'.assembly.errors.idOf e := by
  obtain ⟨x, hx, hequal⟩ := (h.knows hd e he).getElem?_idOf
  have hid : st'.assembly.errors.idOf x = st'.assembly.errors.idOf e := Draft.idOf_eq hequal
  simp [State.renaming, hx, hid]

theorem Holds.sameError (h : Holds labels defs st) (h' : Holds labels' defs' st')
    (hdefs : defs.Perm defs') {id : ErrorId} (hid : st.assembly.errors.catalog.contains id) :
    st.assembly.errors.catalog.SameError st'.assembly.errors.catalog id
      ((State.renaming labels st st').error id) := by
  obtain ⟨e, he⟩ := Option.isSome_iff_exists.1 hid
  have hplace : st.assembly.errors.definitions[id.val]? = some e := by
    rw [← Draft.find?_catalog]
    exact he
  obtain ⟨d, hd, hmem⟩ := h.exists_definition (List.mem_of_getElem? hplace)
  obtain ⟨e', he', hequal⟩ := (h'.knows (hdefs.mem_iff.1 hd) e hmem).getElem?_idOf
  have hrenamed : (State.renaming labels st st').error id = st'.assembly.errors.idOf e := by
    simp [State.renaming, hplace]
  refine ⟨e, e', he, ?_, BEq.symm hequal⟩
  rw [hrenamed, Draft.find?_catalog]
  exact he'

/-- The scopes of one assembly are those of the other under new identifiers. -/
theorem renames (h : Holds labels defs st) (h' : Holds labels' defs' st')
    (hlabels : labels.Perm labels') (hdefs : defs.Perm defs') :
    st.assembly.scopes.Renames (State.renaming labels st st') st'.assembly.scopes where
  bijective := renaming_scope_bijective h h' hlabels
  find?_eq id := by
    have hscope : ∀ d ∈ defs,
        (d.scope st.ids st.assembly.errors.idOf).rename (State.renaming labels st st') =
          d.scope st'.ids st'.assembly.errors.idOf := by
      intro d hd
      refine Definition.rename_scope (h.within d hd) ?_ ?_
      · intro label hlabel
        exact h.renaming_scope hlabel
      · intro e he
        exact h.renaming_error hd he
    -- On either side a scope comes from a definition, and both assemblies have the same ones.
    ext s'
    rw [h'.scopes, Option.map_eq_some_iff]
    constructor
    · rintro ⟨d, hd, hid, rfl⟩
      have hd := hdefs.mem_iff.2 hd
      rw [← h.renaming_scope (h.labelled d hd)] at hid
      obtain rfl := (renaming_scope_bijective h h' hlabels).injective hid
      refine ⟨_, (h.scopes _ _).2 ⟨d, hd, rfl, rfl⟩, ?_⟩
      rw [AnyScope.rename, hscope d hd]
    · rintro ⟨s, hs, rfl⟩
      obtain ⟨d, hd, rfl, rfl⟩ := (h.scopes id s).1 hs
      refine ⟨d, hdefs.mem_iff.1 hd, h.renaming_scope (h.labelled d hd), ?_⟩
      rw [AnyScope.rename, hscope d hd]

/-! ## Building -/

theorem Holds.all_defined_iff (h : Holds labels defs st) :
    (∀ i < st.assembly.declared, st.assembly.scopes.contains ⟨i⟩) ↔
      ∀ label ∈ labels, label ∈ defs.map (·.label) := by
  rw [h.declared]
  constructor
  · intro hall label hlabel
    rw [← h.contains_iff hlabel]
    exact hall _ (h.id_lt hlabel)
  · intro hall i hi
    have hlabelled : ∃ label ∈ labels, st.ids label = ⟨i⟩ := h.exists_label hi
    obtain ⟨label, hlabel, hid⟩ := hlabelled
    rw [← hid, h.contains_iff hlabel]
    exact hall label hlabel

/-- What one assembly builds the other one builds, under new identifiers. -/
theorem exists_build (h : Holds labels defs st) (h' : Holds labels' defs' st')
    (hlabels : labels.Perm labels') (hdefs : defs.Perm defs') {root : ScopeId}
    (hroot : root ∈ labels) {s : Scheme M k} (hs : st.build root k = .ok s) :
    ∃ s', st'.build root k = .ok s' ∧ s.Alike s' := by
  obtain ⟨hall, hcompile⟩ := Assembly.build_eq_ok_iff.1 hs
  have hall' : ∀ i < st'.assembly.declared, st'.assembly.scopes.contains ⟨i⟩ := by
    rw [h.all_defined_iff] at hall
    rw [h'.all_defined_iff]
    intro label hlabel
    rw [← (hdefs.map _).mem_iff]
    exact hall label (hlabels.mem_iff.2 hlabel)
  have hsame (id : ErrorId) (hid : st.assembly.errors.catalog.contains id) :=
    h.sameError h' hdefs hid
  have hcatalog : ∀ id, st.assembly.errors.catalog.contains id →
      st'.assembly.errors.catalog.contains ((State.renaming labels st st').error id) := by
    intro id hid
    obtain ⟨_, e', _, he', _⟩ := hsame id hid
    exact Option.isSome_iff_exists.2 ⟨e', he'⟩
  obtain ⟨s', hcompile', hrenames⟩ :=
    (renames h h' hlabels hdefs).exists_compile hcatalog hcompile
  rw [h.renaming_scope hroot] at hcompile'
  refine ⟨s', Assembly.build_eq_ok_iff.2 ⟨hall', hcompile'⟩, ?_⟩
  have hcompiled := Scheme.isCompiled_of_compile hcompile
  obtain ⟨_, _, _, _, _, _, rfl⟩ := Scheme.compile_eq_ok hcompile
  obtain ⟨_, _, _, _, _, _, rfl⟩ := Scheme.compile_eq_ok hcompile'
  exact hrenames.alike hcompiled hsame

end Renames

/-- Where a script succeeds, the same calls succeed in every order in which each scope is created
before it is used.  The assemblies build a scheme from the same roots, and what they build cannot
be told apart but by identifiers. -/
theorem assembled_in_any_order {calls calls' : List (Call M)} (hperm : calls.Perm calls')
    (horderly : Orderly [] calls) (horderly' : Orderly [] calls') {st : State M}
    (hrun : run calls = .ok st) {root : ScopeId} (hroot : root ∈ created calls) (k : M.Kind) :
    ∃ st', run calls' = .ok st' ∧
      ((∃ s, st.build root k = .ok s) ↔ ∃ s', st'.build root k = .ok s') ∧
      ∀ s s', st.build root k = .ok s → st'.build root k = .ok s' → s.Alike s' := by
  have hlabels : (created calls).Perm (created calls') := hperm.filterMap _
  have hdefs : (definitions calls).Perm (definitions calls') := hperm.filterMap _
  have h : Holds (created calls) (definitions calls) st := holds_run .start horderly hrun
  have hfeasible := h.feasible.perm hlabels hdefs
  obtain ⟨st', hrun'⟩ : ∃ st', run calls' = .ok st' := exists_run .start horderly' hfeasible
  have h' : Holds (created calls') (definitions calls') st' := holds_run .start horderly' hrun'
  refine ⟨st', hrun', ⟨?_, ?_⟩, ?_⟩
  · rintro ⟨s, hs⟩
    obtain ⟨s', hs', _⟩ := exists_build h h' hlabels hdefs hroot hs
    exact ⟨s', hs'⟩
  · rintro ⟨s', hs'⟩
    have hroot' := hlabels.mem_iff.1 hroot
    obtain ⟨s, hs, _⟩ := exists_build h' h hlabels.symm hdefs.symm hroot' hs'
    exact ⟨s, hs⟩
  · intro s s' hs hs'
    obtain ⟨s'', hs'', halike⟩ := exists_build h h' hlabels hdefs hroot hs
    rw [hs'] at hs''
    rwa [Except.ok.inj hs'']

end Script

namespace Orders

open Document

/-- Each order has an article. -/
def articleDefinition : Script.Definition space where
  label := ⟨2⟩
  kind := Kind.obj
  draft := ({} : ScopeDraft space Kind.obj).rule { codes := ["NO_ARTICLE"] } fun v =>
    (Test.contains "article").holds (k := .obj) v

/-- The lines have to be there, and are orders. -/
def linesDefinition : Script.Definition space where
  label := ⟨1⟩
  kind := Kind.list
  draft := (({} : ScopeDraft space Kind.list).withPresence (.required none)).collection
    (⟨⟨0⟩⟩ : Handle space Kind.obj) fun v => View.children (k := .list) v .obj

/-- An order has an article, and lines. -/
def orderDefinition : Script.Definition space where
  label := ⟨0⟩
  kind := Kind.obj
  draft := (({} : ScopeDraft space Kind.obj).inclusion ⟨⟨2⟩⟩).member "lines"
    (⟨⟨1⟩⟩ : Handle space Kind.list) fun v => View.field? (k := .obj) v "lines" .list

/-- A script for orders whose lines are orders. -/
def script : List (Script.Call space) :=
  [.declare ⟨0⟩ Kind.obj, .add linesDefinition, .add articleDefinition, .define orderDefinition]

/-- The same calls, the articles first. -/
def rearranged : List (Script.Call space) :=
  [.add articleDefinition, .declare ⟨0⟩ Kind.obj, .add linesDefinition, .define orderDefinition]

theorem articleDefinition_within (labels : List ScopeId) : articleDefinition.Within labels := by
  intro step hstep
  obtain rfl := List.mem_singleton.1 hstep
  trivial

theorem linesDefinition_within {labels : List ScopeId} (h : ⟨0⟩ ∈ labels) :
    linesDefinition.Within labels := by
  intro step hstep
  obtain rfl := List.mem_singleton.1 hstep
  exact h

theorem orderDefinition_within {labels : List ScopeId} (harticle : ⟨2⟩ ∈ labels)
    (hlines : ⟨1⟩ ∈ labels) : orderDefinition.Within labels := by
  intro step hstep
  cases hstep with
  | head => exact harticle
  | tail _ hstep =>
    obtain rfl := List.mem_singleton.1 hstep
    exact ⟨trivial, hlines⟩

/-- What is recorded at each path, or `none` for a run without end. -/
abbrev Recorded := Option (List (String × List ErrorId))

/-- The number of the root, and what is found in an order whose only line is an order without
lines. -/
def answer (calls : List (Script.Call space)) : Except SchemeError (ScopeId × Recorded) := do
  let st ← Script.run calls
  let s ← st.build ⟨0⟩ Kind.obj
  return (st.ids ⟨0⟩, (s.validate (some towerOrder) ⟨false, true⟩).map (·.entries))

theorem exists_of_answer {calls : List (Script.Call space)} {id : ScopeId} {found : Recorded}
    (h : answer calls = .ok (id, found)) :
    ∃ st, Script.run calls = .ok st ∧ st.ids ⟨0⟩ = id ∧
      ∃ s, st.build ⟨0⟩ Kind.obj = .ok s ∧
        (s.validate (some towerOrder) ⟨false, true⟩).map (·.entries) = found := by
  obtain ⟨st, hst, h⟩ := bind_eq_ok h
  obtain ⟨s, hs, h⟩ := bind_eq_ok h
  obtain ⟨hid, hfound⟩ := Prod.mk.inj (Except.ok.inj h)
  exact ⟨st, hst, hid, s, hs, hfound⟩

end Orders

/-- Scopes and errors of the two scripts have different numbers, and the same is found. -/
theorem Script.assembled_in_any_order_orders :
    ∃ st st' : State Orders.space, run Orders.script = .ok st ∧ run Orders.rearranged = .ok st' ∧
      st.ids ⟨0⟩ = ⟨0⟩ ∧ st'.ids ⟨0⟩ = ⟨1⟩ ∧
      ∃ s s' : Scheme Orders.space .obj,
        st.build ⟨0⟩ .obj = .ok s ∧ st'.build ⟨0⟩ .obj = .ok s' ∧ s.Alike s' ∧
        (s.validate (some Orders.towerOrder) ⟨false, true⟩).map (·.entries) =
          some [("", [⟨1⟩]), ("lines[0]", [⟨1⟩]), ("lines[0].lines", [⟨0⟩])] ∧
        (s'.validate (some Orders.towerOrder) ⟨false, true⟩).map (·.entries) =
          some [("", [⟨0⟩]), ("lines[0]", [⟨0⟩]), ("lines[0].lines", [⟨1⟩])] := by
  have hperm : Orders.script.Perm Orders.rearranged :=
    .trans (.cons _ (.swap _ _ _)) (.swap _ _ _)
  have horderly : Orderly [] Orders.script :=
    ⟨List.not_mem_nil, ⟨by decide, Orders.linesDefinition_within (by decide)⟩,
      ⟨by decide, Orders.articleDefinition_within _⟩,
      ⟨by decide, Orders.orderDefinition_within (by decide) (by decide)⟩, trivial⟩
  have horderly' : Orderly [] Orders.rearranged :=
    ⟨⟨by decide, Orders.articleDefinition_within _⟩,
      show (⟨0⟩ : ScopeId) ∉ [⟨2⟩] by decide,
      ⟨by decide, Orders.linesDefinition_within (by decide)⟩,
      ⟨by decide, Orders.orderDefinition_within (by decide) (by decide)⟩, trivial⟩
  have hroot : ⟨0⟩ ∈ created Orders.script := by decide
  have hanswer : Orders.answer Orders.script =
      .ok (⟨0⟩, some [("", [⟨1⟩]), ("lines[0]", [⟨1⟩]), ("lines[0].lines", [⟨0⟩])]) := by
    decide +kernel
  have hanswer' : Orders.answer Orders.rearranged =
      .ok (⟨1⟩, some [("", [⟨0⟩]), ("lines[0]", [⟨0⟩]), ("lines[0].lines", [⟨1⟩])]) := by
    decide +kernel
  obtain ⟨st, hrun, hid, s, hs, hfound⟩ := Orders.exists_of_answer hanswer
  obtain ⟨st', hrun', hid', s', hs', hfound'⟩ := Orders.exists_of_answer hanswer'
  obtain ⟨st'', hagain, _, halike⟩ :=
    assembled_in_any_order hperm horderly horderly' hrun hroot Document.Kind.obj
  rw [hrun'] at hagain
  obtain rfl := Except.ok.inj hagain
  exact ⟨st, st', hrun, hrun', hid, hid', s, s', hs, hs', halike s s' hs hs', hfound, hfound'⟩

end Rulebook
