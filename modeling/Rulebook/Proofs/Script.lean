import Rulebook.Proofs.Registering
import Rulebook.Proofs.Renaming

/-!
# Scripts

A script is a list of calls that put a scheme together: scopes are declared, defined, or both at
once.  Which identifier a scope gets depends on the calls before, so a script names its scopes by
labels, and performing it puts the identifiers given out in the place of the labels.

`Holds` is what is known of an assembly from the labels and the definitions so far, and it says
all of it but for the numbers of the errors.  `holds_perform` keeps it for one call and
`holds_run` for a script.  There is no case of a call that fails here: `Feasible` says what a
script needs for all of its calls to succeed, and it does not depend on the order of the calls
(`exists_run`).
-/

namespace Rulebook

open Assembling
open Catalog (Draft)

variable {M : ModelSpace} {k : M.Kind}

/-- A step of a draft with the identifiers of the scopes in the place of their labels. -/
def DraftStep.resolve (ids : ScopeId → ScopeId) : DraftStep M k → DraftStep M k
  | .rule error test => .rule error test
  | .step s => .step (s.rename ⟨ids, id⟩)

/-- A draft with the identifiers of the scopes in the place of their labels. -/
def ScopeDraft.resolve (ids : ScopeId → ScopeId) (draft : ScopeDraft M k) : ScopeDraft M k :=
  { draft with steps := draft.steps.map (DraftStep.resolve ids) }

theorem DraftStep.resolve_congr {step : DraftStep M k} {ids ids' : ScopeId → ScopeId}
    (hnames : step.Names (fun _ => False) fun label _ => ids label = ids' label) :
    step.resolve ids = step.resolve ids' := by
  cases step with
  | rule e test => rfl
  | step s =>
    refine congrArg DraftStep.step ?_
    cases s with
    | rule id test => rfl
    | member name target kind get => exact congrArg (Step.member name · kind get) hnames.2
    | collection target kind elements => exact congrArg (Step.collection · kind elements) hnames
    | inclusion target => exact congrArg Step.inclusion hnames
    | narrowing target kind view => exact congrArg (Step.narrowing · kind view) hnames

theorem ScopeDraft.errors_resolve (ids : ScopeId → ScopeId) (draft : ScopeDraft M k) :
    (draft.resolve ids).errors = draft.errors := by
  have hsteps : DraftStep.errors ∘ DraftStep.resolve ids = DraftStep.errors (k := k) := by
    funext step
    cases step <;> rfl
  rw [errors, resolve, errors, List.flatMap_map]
  exact congrArg (draft.presence.toList.flatMap DraftPresence.errors ++ draft.steps.flatMap ·)
    hsteps

namespace Script

/-- The draft of a scope, with its label and its kind. -/
structure Definition (M : ModelSpace) where
  label : ScopeId
  kind : M.Kind
  draft : ScopeDraft M kind

/-- A call of a script. -/
inductive Call (M : ModelSpace) where
  | declare (label : ScopeId) (kind : M.Kind)
  | define (d : Definition M)
  | add (d : Definition M)

/-- The label of the scope that a call creates. -/
def Call.creates? : Call M → Option ScopeId
  | declare label _ => some label
  | define _ => none
  | add d => some d.label

/-- What a call defines. -/
def Call.definition? : Call M → Option (Definition M)
  | declare _ _ => none
  | define d => some d
  | add d => some d

/-- The labels of the scopes that are created, in order. -/
def created (calls : List (Call M)) : List ScopeId := calls.filterMap Call.creates?

/-- All that is defined, in order. -/
def definitions (calls : List (Call M)) : List (Definition M) := calls.filterMap Call.definition?

/-- A script in progress. -/
structure State (M : ModelSpace) where
  assembly : Assembly M := {}
  /-- The identifiers that were given out for the labels. -/
  ids : ScopeId → ScopeId := id

/-- Performs a call. -/
def State.perform (st : State M) : Call M → Except SchemeError (State M)
  | .declare label kind =>
    match on (Assembly.declare kind) st.assembly with
    | (.ok handle, a) => .ok ⟨a, Function.update st.ids label handle.id⟩
    | (.error e, _) => .error e
  | .define d =>
    match on (Assembly.define ⟨st.ids d.label⟩ (d.draft.resolve st.ids)) st.assembly with
    | (.ok _, a) => .ok ⟨a, st.ids⟩
    | (.error e, _) => .error e
  | .add d =>
    match on (Assembly.add (d.draft.resolve st.ids)) st.assembly with
    | (.ok handle, a) => .ok ⟨a, Function.update st.ids d.label handle.id⟩
    | (.error e, _) => .error e

/-- Performs the calls of a script one after the other, as long as they succeed. -/
def run (calls : List (Call M)) : Except SchemeError (State M) := calls.foldlM State.perform {}

/-- Builds the scheme with the scope of a label at its root. -/
def State.build (st : State M) (root : ScopeId) (k : M.Kind) : Except SchemeError (Scheme M k) :=
  st.assembly.build ⟨st.ids root⟩

/-! ## Order -/

/-- The definition leads to scopes with these labels only, and names no error that is
registered. -/
def Definition.Within (labels : List ScopeId) (d : Definition M) : Prop :=
  ∀ step ∈ d.draft.steps, step.Names (fun _ => False) fun label _ => label ∈ labels

/-- Whether a call may be made where the scopes with these labels have been created. -/
def Call.Allowed (labels : List ScopeId) : Call M → Prop
  | declare label _ => label ∉ labels
  | define d => d.label ∈ labels ∧ d.Within labels
  | add d => d.label ∉ labels ∧ d.Within labels

/-- Whether each call may be made where it stands: scopes are created once, and before they are
used. -/
def Orderly : List ScopeId → List (Call M) → Prop
  | _, [] => True
  | labels, call :: rest => call.Allowed labels ∧ Orderly (labels ++ call.creates?.toList) rest

theorem created_cons (call : Call M) (rest : List (Call M)) :
    created (call :: rest) = call.creates?.toList ++ created rest := by
  cases call <;> rfl

theorem definitions_cons (call : Call M) (rest : List (Call M)) :
    definitions (call :: rest) = call.definition?.toList ++ definitions rest := by
  cases call <;> rfl

/-! ## Definitions -/

namespace Definition

variable {d : Definition M} {labels : List ScopeId}

/-- The scope of a definition. -/
def scope (ids : ScopeId → ScopeId) (error : ErrorDef → ErrorId) (d : Definition M) :
    Scope M d.kind := (d.draft.resolve ids).finished error

theorem Within.mono {more : List ScopeId} (h : d.Within labels) (hsub : labels ⊆ more) :
    d.Within more := by
  intro step hstep
  exact (h step hstep).imp (fun _ h => h) fun _ _ hlabel => hsub hlabel

theorem resolve_congr {ids ids' : ScopeId → ScopeId} (hwithin : d.Within labels)
    (hids : ∀ label ∈ labels, ids label = ids' label) :
    d.draft.resolve ids = d.draft.resolve ids' := by
  have hsteps : d.draft.steps.map (DraftStep.resolve ids) =
      d.draft.steps.map (DraftStep.resolve ids') := by
    refine List.map_congr_left fun step hstep => ?_
    refine DraftStep.resolve_congr ((hwithin step hstep).imp (fun _ h => h) ?_)
    intro label _ hlabel
    exact hids label hlabel
  rw [ScopeDraft.resolve, hsteps, ScopeDraft.resolve]

theorem scope_congr {ids ids' : ScopeId → ScopeId} {error error' : ErrorDef → ErrorId}
    (hwithin : d.Within labels) (hids : ∀ label ∈ labels, ids label = ids' label)
    (herror : ∀ e ∈ d.draft.errors, error e = error' e) :
    d.scope ids error = d.scope ids' error' := by
  rw [← d.draft.errors_resolve ids'] at herror
  rw [scope, resolve_congr hwithin hids]
  exact (Assembly.enters_finish (d.draft.resolve ids')).congr error error' herror

end Definition

/-! ## What is known of a script in progress -/

/-- The assembly has the scopes of these definitions, under the identifiers of their labels, and
their errors. -/
structure Holds (labels : List ScopeId) (defs : List (Definition M)) (st : State M) : Prop where
  declared : st.assembly.declared = labels.length
  room : labels.length < idLimit
  fresh : labels.Nodup
  ids : ∀ i label, labels[i]? = some label → st.ids label = ⟨i⟩
  errors : Draft.Grows {} (defs.flatMap (·.draft.errors)) st.assembly.errors
  labelled : ∀ d ∈ defs, d.label ∈ labels
  within : ∀ d ∈ defs, d.Within labels
  once : (defs.map (·.label)).Nodup
  scopes : ∀ id s, st.assembly.scopes.find? id = some s ↔
    ∃ d ∈ defs, id = st.ids d.label ∧ s = ⟨d.kind, d.scope st.ids st.assembly.errors.idOf⟩

/-- What a script needs: identifiers for its scopes and, where `whole` knows all that it
registers, for its errors, and no scope that is defined twice. -/
structure Feasible (labels : List ScopeId) (defs : List (Definition M))
    (whole : Draft) : Prop where
  room : labels.length < idLimit
  once : (defs.map (·.label)).Nodup
  sound : whole.Sound
  limit : whole.size ≤ idLimit
  knows : ∀ d ∈ defs, ∀ e ∈ d.draft.errors, whole.Knows e

theorem Feasible.left {labels more : List ScopeId} {defs others : List (Definition M)}
    {whole : Draft} (h : Feasible (labels ++ more) (defs ++ others) whole) :
    Feasible labels defs whole where
  room := by
    have hroom := h.room
    rw [List.length_append] at hroom
    omega
  once := by
    have honce := h.once
    rw [List.map_append] at honce
    exact honce.of_append_left
  sound := h.sound
  limit := h.limit
  knows d hd := h.knows d (List.mem_append_left _ hd)

theorem Feasible.perm {labels labels' : List ScopeId} {defs defs' : List (Definition M)}
    {whole : Draft} (h : Feasible labels defs whole) (hlabels : labels.Perm labels')
    (hdefs : defs.Perm defs') : Feasible labels' defs' whole where
  room := hlabels.length_eq ▸ h.room
  once := (hdefs.map _).nodup h.once
  sound := h.sound
  limit := h.limit
  knows d hd := h.knows d (hdefs.mem_iff.2 hd)

namespace Holds

variable {labels : List ScopeId} {defs : List (Definition M)} {st : State M} {label : ScopeId}
  {d : Definition M}

theorem start : Holds (M := M) [] [] {} where
  declared := rfl
  room := by decide
  fresh := .nil
  ids _ _ h := nomatch h
  errors := .refl .start
  labelled := List.forall_mem_nil _
  within := List.forall_mem_nil _
  once := .nil
  scopes id s := by
    constructor
    · exact nofun
    · rintro ⟨d, hd, _⟩
      exact absurd hd List.not_mem_nil

theorem knows (h : Holds labels defs st) (hd : d ∈ defs) :
    ∀ e ∈ d.draft.errors, st.assembly.errors.Knows e := by
  intro e he
  exact h.errors.known e (List.mem_flatMap.2 ⟨d, hd, he⟩)

/-- Every error that is registered comes from a definition. -/
theorem exists_definition (h : Holds labels defs st) {e : ErrorDef}
    (he : e ∈ st.assembly.errors.definitions) : ∃ d ∈ defs, e ∈ d.draft.errors := by
  rcases h.errors.source e he with hnone | he
  · exact absurd hnone List.not_mem_nil
  · exact List.mem_flatMap.1 he

theorem feasible (h : Holds labels defs st) : Feasible labels defs st.assembly.errors where
  room := h.room
  once := h.once
  sound := h.errors.sound
  limit := h.errors.limit (Nat.zero_le _)
  knows _ hd := h.knows hd

/-- A label stands for one scope. -/
theorem label_unique (h : Holds labels defs st) {other : ScopeId} (hlabel : label ∈ labels)
    (hother : other ∈ labels) (hids : st.ids label = st.ids other) : label = other := by
  obtain ⟨i, hi⟩ := List.mem_iff_getElem?.1 hlabel
  obtain ⟨j, hj⟩ := List.mem_iff_getElem?.1 hother
  rw [h.ids i label hi, h.ids j other hj] at hids
  obtain rfl := ScopeId.mk.inj hids
  exact Option.some.inj (hi.symm.trans hj)

theorem contains_iff (h : Holds labels defs st) (hlabel : label ∈ labels) :
    st.assembly.scopes.contains (st.ids label) ↔ label ∈ defs.map (·.label) := by
  rw [Dict.contains, Option.isSome_iff_exists, List.mem_map]
  constructor
  · rintro ⟨s, hs⟩
    obtain ⟨d, hd, hid, _⟩ := (h.scopes _ s).1 hs
    exact ⟨d, hd, (h.label_unique hlabel (h.labelled d hd) hid).symm⟩
  · rintro ⟨d, hd, rfl⟩
    exact ⟨_, (h.scopes _ _).2 ⟨d, hd, rfl, rfl⟩⟩

/-! ## Calls that succeed -/

theorem declare (h : Holds labels defs st) (hnew : label ∉ labels)
    (hroom : labels.length + 1 < idLimit) :
    Holds (labels ++ [label]) defs
      ⟨{ st.assembly with declared := st.assembly.declared + 1 },
        Function.update st.ids label ⟨st.assembly.declared⟩⟩ := by
  have hkept : ∀ other ∈ labels,
      st.ids other = Function.update st.ids label ⟨st.assembly.declared⟩ other := by
    intro other hother
    have hne : other ≠ label := fun heq => hnew (heq ▸ hother)
    rw [Function.update_of_ne hne]
  constructor
  case declared => simp [h.declared]
  case room => simpa using hroom
  case fresh =>
    have hsingle := List.nodup_singleton label
    exact h.fresh.append hsingle (List.disjoint_singleton.2 hnew)
  case ids =>
    intro i other hother
    rcases Nat.lt_trichotomy i labels.length with hlt | rfl | hgt
    · rw [List.getElem?_append_left hlt] at hother
      dsimp only
      rw [← hkept other (List.mem_of_getElem? hother), h.ids i other hother]
    · rw [List.getElem?_concat_length] at hother
      obtain rfl := Option.some.inj hother
      dsimp only
      rw [Function.update_self, h.declared]
    · have hlength : (labels ++ [label]).length ≤ i := by
        rw [List.length_append, List.length_singleton]
        exact hgt
      rw [List.getElem?_eq_none hlength] at hother
      exact nomatch hother
  case errors => exact h.errors
  case labelled => exact fun d hd => List.mem_append_left _ (h.labelled d hd)
  case within => exact fun d hd => (h.within d hd).mono (List.subset_append_left _ _)
  case once => exact h.once
  case scopes =>
    intro id s
    dsimp only
    rw [h.scopes]
    constructor
    · rintro ⟨d, hd, rfl, rfl⟩
      refine ⟨d, hd, hkept _ (h.labelled d hd), ?_⟩
      rw [Definition.scope_congr (h.within d hd) hkept fun _ _ => rfl]
    · rintro ⟨d, hd, rfl, rfl⟩
      refine ⟨d, hd, (hkept _ (h.labelled d hd)).symm, ?_⟩
      rw [Definition.scope_congr (h.within d hd) hkept fun _ _ => rfl]

theorem define (h : Holds labels defs st) (hlabel : d.label ∈ labels) (hwithin : d.Within labels)
    (hfree : d.label ∉ defs.map (·.label)) {errors : Draft}
    (hgrows : st.assembly.errors.Grows d.draft.errors errors) :
    Holds labels (defs ++ [d])
      ⟨{ st.assembly with
          errors
          scopes := st.assembly.scopes.insert (st.ids d.label)
            ⟨d.kind, d.scope st.ids errors.idOf⟩ }, st.ids⟩ := by
  -- Errors are only ever put at the end, so the scopes that are there keep theirs.
  have hkept : ∀ other ∈ defs,
      other.scope st.ids st.assembly.errors.idOf = other.scope st.ids errors.idOf := by
    intro other hother
    refine Definition.scope_congr (h.within other hother) (fun _ _ => rfl) ?_
    intro e he
    exact (Draft.idOf_of_keeps (h.knows hother e he) hgrows.keeps).symm
  constructor
  case declared => exact h.declared
  case room => exact h.room
  case fresh => exact h.fresh
  case ids => exact h.ids
  case errors =>
    rw [List.flatMap_append, List.flatMap_singleton]
    exact h.errors.trans hgrows
  case labelled =>
    rw [List.forall_mem_append]
    exact ⟨h.labelled, by simpa using hlabel⟩
  case within =>
    rw [List.forall_mem_append]
    exact ⟨h.within, by simpa using hwithin⟩
  case once =>
    rw [List.map_append]
    exact h.once.append (List.nodup_singleton _) (List.disjoint_singleton.2 hfree)
  case scopes =>
    intro id s
    dsimp only
    rw [Dict.find?_insert]
    split
    · rename_i heq
      subst heq
      constructor
      · intro hs
        exact ⟨d, by simp, rfl, (Option.some.inj hs).symm⟩
      · rintro ⟨other, hother, hid, rfl⟩
        rcases List.mem_append.1 hother with hother | hother
        · have hsame := h.label_unique hlabel (h.labelled other hother) hid
          exact absurd (List.mem_map.2 ⟨other, hother, hsame.symm⟩) hfree
        · rw [List.mem_singleton.1 hother]
    · rename_i hne
      rw [h.scopes]
      constructor
      · rintro ⟨other, hother, rfl, rfl⟩
        exact ⟨other, List.mem_append_left _ hother, rfl, by rw [hkept other hother]⟩
      · rintro ⟨other, hother, rfl, rfl⟩
        rcases List.mem_append.1 hother with hother | hother
        · exact ⟨other, hother, rfl, by rw [hkept other hother]⟩
        · rw [List.mem_singleton.1 hother] at hne
          exact absurd rfl hne

theorem perform_declare (h : Holds labels defs st) (hnew : label ∉ labels) {kind : M.Kind}
    {st' : State M} (hrun : st.perform (.declare label kind) = .ok st') :
    Holds (labels ++ [label]) defs st' := by
  rw [State.perform, on_declare] at hrun
  by_cases hroom : st.assembly.declared + 1 < idLimit
  · rw [if_pos hroom] at hrun
    obtain rfl := Except.ok.inj hrun
    rw [h.declared] at hroom
    exact h.declare hnew hroom
  · rw [if_neg hroom] at hrun
    exact nomatch hrun

theorem exists_declare (h : Holds labels defs st) (hroom : labels.length + 1 < idLimit)
    (label : ScopeId) (kind : M.Kind) : ∃ st', st.perform (.declare label kind) = .ok st' := by
  rw [← h.declared] at hroom
  rw [State.perform, on_declare, if_pos hroom]
  exact ⟨_, rfl⟩

theorem perform_define (h : Holds labels defs st) (hlabel : d.label ∈ labels)
    (hwithin : d.Within labels) {st' : State M} (hrun : st.perform (.define d) = .ok st') :
    Holds labels (defs ++ [d]) st' := by
  rw [State.perform] at hrun
  split at hrun
  · rename_i a hon
    obtain ⟨hfree, errors, hgrows, rfl⟩ := Assembly.define_ends h.errors.sound hon
    obtain rfl := Except.ok.inj hrun
    rw [ScopeDraft.errors_resolve] at hgrows
    have hundefined : d.label ∉ defs.map (·.label) := by
      rw [← h.contains_iff hlabel]
      exact Bool.eq_false_iff.1 hfree
    exact h.define hlabel hwithin hundefined hgrows
  · exact nomatch hrun

theorem exists_define (h : Holds labels defs st) (hlabel : d.label ∈ labels) {whole : Draft}
    (hfeasible : Feasible labels (defs ++ [d]) whole) :
    ∃ st', st.perform (.define d) = .ok st' := by
  have hfree : st.assembly.scopes.contains (st.ids d.label) = false := by
    have honce := hfeasible.once
    rw [List.map_append, List.nodup_append] at honce
    rw [Bool.eq_false_iff, Ne, h.contains_iff hlabel]
    intro hdefined
    exact honce.2.2 _ hdefined _ (by simp) rfl
  have hroom : st.assembly.errors.Room (d.draft.resolve st.ids).errors whole := by
    refine ⟨hfeasible.sound, hfeasible.limit, ?_, ?_⟩
    · intro e he
      obtain ⟨other, hother, hmem⟩ := h.exists_definition he
      exact hfeasible.knows other (List.mem_append_left _ hother) e hmem
    · rw [ScopeDraft.errors_resolve]
      exact hfeasible.knows d (by simp)
  have hdefine : ∃ a, on (Assembly.define ⟨st.ids d.label⟩ (d.draft.resolve st.ids)) st.assembly =
      (.ok (), a) := Assembly.exists_define h.errors.sound hfree hroom
  obtain ⟨a, hon⟩ := hdefine
  rw [State.perform, hon]
  exact ⟨_, rfl⟩

end Holds

/-- Adding a scope is declaring and defining it. -/
theorem perform_add {labels : List ScopeId} {d : Definition M} (hnew : d.label ∉ labels)
    (hwithin : d.Within labels) (st : State M) :
    st.perform (.add d) =
      (do let st ← st.perform (.declare d.label d.kind); st.perform (.define d)) := by
  by_cases hroom : st.assembly.declared + 1 < idLimit
  · have hdeclare : st.perform (.declare d.label d.kind) =
        .ok ⟨{ st.assembly with declared := st.assembly.declared + 1 },
          Function.update st.ids d.label ⟨st.assembly.declared⟩⟩ := by
      rw [State.perform, on_declare, if_pos hroom]
    -- The draft was written before its own scope was created, and does not lead there.
    have hdraft : d.draft.resolve (Function.update st.ids d.label ⟨st.assembly.declared⟩) =
        d.draft.resolve st.ids := by
      refine Definition.resolve_congr hwithin fun other hother => ?_
      have hne : other ≠ d.label := fun heq => hnew (heq ▸ hother)
      rw [Function.update_of_ne hne]
    rw [hdeclare, State.perform, on_add, on_declare, if_pos hroom]
    dsimp only [bind, Except.bind, State.perform]
    rw [hdraft, Function.update_self]
    rcases on (Assembly.define _ (d.draft.resolve st.ids)) _ with ⟨result, a⟩
    cases result <;> rfl
  · have hdeclare : st.perform (.declare d.label d.kind) = .error (.idsExhausted "scope") := by
      rw [State.perform, on_declare, if_neg hroom]
    rw [hdeclare, State.perform, on_add, on_declare, if_neg hroom]
    rfl

/-! ## Runs -/

section Runs

variable {labels : List ScopeId} {defs : List (Definition M)} {st st' : State M} {call : Call M}
  {rest : List (Call M)} {whole : Draft}

/-- A call that succeeds adds its label and its definition. -/
theorem holds_perform (h : Holds labels defs st) (hallowed : call.Allowed labels)
    (hrun : st.perform call = .ok st') :
    Holds (labels ++ call.creates?.toList) (defs ++ call.definition?.toList) st' := by
  cases call with
  | declare label kind =>
    have hdeclared := h.perform_declare hallowed hrun
    rwa [← List.append_nil defs] at hdeclared
  | define d =>
    have hdefined := h.perform_define hallowed.1 hallowed.2 hrun
    rwa [← List.append_nil labels] at hdefined
  | add d =>
    rw [perform_add hallowed.1 hallowed.2] at hrun
    obtain ⟨st₁, hdeclare, hdefine⟩ := bind_eq_ok hrun
    have hwithin := hallowed.2.mono (List.subset_append_left labels [d.label])
    exact (h.perform_declare hallowed.1 hdeclare).perform_define (by simp) hwithin hdefine

/-- A call of a feasible script succeeds. -/
theorem exists_perform (h : Holds labels defs st) (hallowed : call.Allowed labels)
    (hfeasible : Feasible (labels ++ call.creates?.toList) (defs ++ call.definition?.toList)
      whole) :
    ∃ st', st.perform call = .ok st' := by
  have hroom := hfeasible.room
  cases call with
  | declare label kind =>
    rw [List.length_append] at hroom
    exact h.exists_declare hroom label kind
  | define d =>
    rw [Call.creates?, Option.toList_none, List.append_nil] at hfeasible
    exact h.exists_define hallowed.1 hfeasible
  | add d =>
    rw [List.length_append] at hroom
    obtain ⟨st₁, hdeclare⟩ := h.exists_declare hroom d.label d.kind
    have hdeclared := h.perform_declare hallowed.1 hdeclare
    obtain ⟨st', hdefine⟩ := hdeclared.exists_define (by simp) hfeasible
    rw [perform_add hallowed.1 hallowed.2, hdeclare]
    exact ⟨st', hdefine⟩

theorem holds_run (h : Holds labels defs st) (horderly : Orderly labels rest)
    (hrun : rest.foldlM State.perform st = .ok st') :
    Holds (labels ++ created rest) (defs ++ definitions rest) st' := by
  induction rest generalizing labels defs st with
  | nil =>
    obtain rfl := Except.ok.inj hrun
    simpa [created, definitions] using h
  | cons call rest ih =>
    rw [List.foldlM_cons] at hrun
    obtain ⟨st₁, hcall, hrest⟩ := bind_eq_ok hrun
    have hholds := ih (holds_perform h horderly.1 hcall) horderly.2 hrest
    rwa [List.append_assoc, List.append_assoc, ← created_cons, ← definitions_cons] at hholds

/-- A feasible script succeeds. -/
theorem exists_run (h : Holds labels defs st) (horderly : Orderly labels rest)
    (hfeasible : Feasible (labels ++ created rest) (defs ++ definitions rest) whole) :
    ∃ st', rest.foldlM State.perform st = .ok st' := by
  induction rest generalizing labels defs st with
  | nil => exact ⟨st, rfl⟩
  | cons call rest ih =>
    rw [created_cons, definitions_cons, ← List.append_assoc, ← List.append_assoc] at hfeasible
    obtain ⟨st₁, hcall⟩ := exists_perform h horderly.1 hfeasible.left
    obtain ⟨st', hrest⟩ := ih (holds_perform h horderly.1 hcall) horderly.2 hfeasible
    refine ⟨st', ?_⟩
    rw [List.foldlM_cons, hcall]
    exact hrest

end Runs

end Script

end Rulebook
