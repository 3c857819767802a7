import Rulebook.Proofs.Assembling
import Rulebook.Proofs.Validation

/-!
# Sessions with an assembly

A session is a sequence of calls to one assembly, of which some fail.  It keeps what a caller has
been given: the handles with their kinds and the errors that were registered, and which handles
have been defined.  `Allows` is what a caller can do who uses nothing else.

`Sound` is the invariant.  The scopes that are defined are those in the table, each for the kind
of its handle, and all that they name has been given out before.  `sound_perform` is the step and
`Reached.sound` the run.  Where every scope is defined, all that the scopes name is there, so what
is left to go wrong is a member name or an inclusion.
-/

namespace Rulebook

variable {M : ModelSpace} {k : M.Kind}

open Assembling

/-- A call to an assembly. -/
inductive Call (M : ModelSpace) where
  | declare (k : M.Kind)
  | error (e : ErrorDef)
  | define {k : M.Kind} (handle : Handle M k) (draft : ScopeDraft M k)
  | add {k : M.Kind} (draft : ScopeDraft M k)

/-- An assembly with what has come of the calls to it. -/
structure Session (M : ModelSpace) where
  assembly : Assembly M := {}
  /-- The handles that were returned, with their kinds. -/
  handles : List (ScopeId × M.Kind) := []
  /-- The errors that were returned. -/
  errors : List ErrorId := []
  /-- The scopes whose definition has succeeded. -/
  defined : List ScopeId := []

namespace Session

/-- The session after a call, whether it fails or not. -/
def perform (s : Session M) : Call M → Session M
  | .declare k =>
    match on (Assembly.declare k) s.assembly with
    | (.ok handle, a) => { s with assembly := a, handles := (handle.id, k) :: s.handles }
    | (.error _, a) => { s with assembly := a }
  | .error e =>
    match on (Assembly.error e) s.assembly with
    | (.ok id, a) => { s with assembly := a, errors := id :: s.errors }
    | (.error _, a) => { s with assembly := a }
  | .define handle draft =>
    match on (Assembly.define handle draft) s.assembly with
    | (.ok _, a) => { s with assembly := a, defined := handle.id :: s.defined }
    | (.error _, a) => { s with assembly := a }
  | .add (k := k) draft =>
    match on (Assembly.add draft) s.assembly with
    | (.ok handle, a) =>
      { s with
        assembly := a
        handles := (handle.id, k) :: s.handles
        defined := handle.id :: s.defined }
    | (.error _, a) => { s with assembly := a }

/-- Whether a draft uses only what the session has given out. -/
def AllowsDraft (s : Session M) (draft : ScopeDraft M k) : Prop :=
  ∀ step ∈ draft.steps, step.Names (· ∈ s.errors) fun id kind => (id, kind) ∈ s.handles

/-- Whether a call uses only what the session has given out, each handle for its kind. -/
def Allows (s : Session M) : Call M → Prop
  | .declare _ => True
  | .error _ => True
  | .define (k := k) handle draft => (handle.id, k) ∈ s.handles ∧ s.AllowsDraft draft
  | .add draft => s.AllowsDraft draft

/-- The session comes from calls that use only what was given out before. -/
inductive Reached : Session M → Prop where
  | start : Reached {}
  | call {s : Session M} (h : Reached s) (call : Call M) (hcall : s.Allows call) :
    Reached (s.perform call)

/-- The scope is declared and has not been defined. -/
def Pending (s : Session M) (id : ScopeId) : Prop :=
  id.val < s.assembly.declared ∧ id ∉ s.defined

/-! ## The invariant -/

/-- What was given out and the state of the assembly fit together. -/
structure Sound (s : Session M) : Prop where
  declared : ∀ id kind, (id, kind) ∈ s.handles → id.val < s.assembly.declared
  functional : ∀ id kind kind', (id, kind) ∈ s.handles → (id, kind') ∈ s.handles → kind = kind'
  registered : ∀ id ∈ s.errors, id.val < s.assembly.errors.size
  defined : ∀ id, s.assembly.scopes.contains id ↔ id ∈ s.defined
  scopes : ∀ id scope, s.assembly.scopes.find? id = some scope → (id, scope.kind) ∈ s.handles ∧
    scope.scope.Names (fun id => id.val < s.assembly.errors.size) (fun _ => True)
      fun id kind => (id, kind) ∈ s.handles

theorem Sound.start : Sound ({} : Session M) where
  declared _ _ h := absurd h List.not_mem_nil
  functional _ _ _ h := absurd h List.not_mem_nil
  registered _ h := absurd h List.not_mem_nil
  defined id := by
    have hempty : (({} : Session M).assembly.scopes.contains id) = false := rfl
    rw [hempty]
    simp
  scopes _ _ h := nomatch h

/-- Work that does not succeed leaves the invariant as it is. -/
theorem Sound.keep {s : Session M} (h : s.Sound) {a : Assembly M}
    (hscopes : a.scopes = s.assembly.scopes) (hdeclared : s.assembly.declared ≤ a.declared)
    (hgrows : s.assembly.errors.size ≤ a.errors.size) : Sound { s with assembly := a } where
  declared id kind hmem := Nat.lt_of_lt_of_le (h.declared id kind hmem) hdeclared
  functional := h.functional
  registered id hmem := Nat.lt_of_lt_of_le (h.registered id hmem) hgrows
  defined id := by
    rw [← h.defined, hscopes]
  scopes id scope hfind := by
    rw [hscopes] at hfind
    obtain ⟨hmem, hnames⟩ := h.scopes id scope hfind
    refine ⟨hmem, hnames.imp ?_ (fun _ h => h) fun _ _ h => h⟩
    intro error herror
    exact Nat.lt_of_lt_of_le herror hgrows

/-- A handle that is given out has not been given out before. -/
theorem Sound.declare {s : Session M} (h : s.Sound) (k : M.Kind) :
    Sound { s with
      assembly := { s.assembly with declared := s.assembly.declared + 1 }
      handles := (⟨s.assembly.declared⟩, k) :: s.handles } where
  declared id kind hmem := by
    rcases List.mem_cons.1 hmem with hnew | hold
    · obtain ⟨rfl, rfl⟩ := Prod.mk.inj hnew
      exact Nat.lt_succ_self _
    · exact Nat.lt_succ_of_lt (h.declared id kind hold)
  functional id kind kind' hmem hmem' := by
    have hfresh (kind : M.Kind) : (⟨s.assembly.declared⟩, kind) ∉ s.handles := fun hold =>
      Nat.lt_irrefl _ (h.declared _ kind hold)
    rcases List.mem_cons.1 hmem with hnew | hold
    · obtain ⟨rfl, rfl⟩ := Prod.mk.inj hnew
      rcases List.mem_cons.1 hmem' with hnew' | hold'
      · exact (Prod.mk.inj hnew').2.symm
      · exact absurd hold' (hfresh kind')
    · rcases List.mem_cons.1 hmem' with hnew' | hold'
      · obtain ⟨rfl, rfl⟩ := Prod.mk.inj hnew'
        exact absurd hold (hfresh kind)
      · exact h.functional id kind kind' hold hold'
  registered := h.registered
  defined := h.defined
  scopes id scope hfind := by
    obtain ⟨hmem, hnames⟩ := h.scopes id scope hfind
    refine ⟨List.mem_cons_of_mem _ hmem, hnames.imp (fun _ h => h) (fun _ h => h) ?_⟩
    intro target kind htarget
    exact List.mem_cons_of_mem _ htarget

theorem Sound.error {s : Session M} (h : s.Sound) {id : ErrorId}
    (hid : id.val < s.assembly.errors.size) : Sound { s with errors := id :: s.errors } where
  declared := h.declared
  functional := h.functional
  registered other hmem := by
    rcases List.mem_cons.1 hmem with rfl | hold
    · exact hid
    · exact h.registered other hold
  defined := h.defined
  scopes := h.scopes

theorem Sound.store {s : Session M} (h : s.Sound) {id : ScopeId} (hid : (id, k) ∈ s.handles)
    {scope : Scope M k}
    (hnames : scope.Names (fun id => id.val < s.assembly.errors.size) (fun _ => True)
      fun id kind => (id, kind) ∈ s.handles) :
    Sound { s with
      assembly := { s.assembly with scopes := s.assembly.scopes.insert id ⟨k, scope⟩ }
      defined := id :: s.defined } where
  declared := h.declared
  functional := h.functional
  registered := h.registered
  defined other := by
    rw [Dict.contains_insert, h.defined, List.mem_cons]
  scopes other any hfind := by
    rw [Dict.find?_insert] at hfind
    split at hfind
    · rename_i heq
      subst heq
      obtain rfl := Option.some.inj hfind
      exact ⟨hid, hnames⟩
    · exact h.scopes other any hfind

theorem Sound.defines {s : Session M} (h : s.Sound) (handle : Handle M k) {draft : ScopeDraft M k}
    (hdraft : s.AllowsDraft draft) :
    Assembly.Defines s.assembly handle (fun id kind => (id, kind) ∈ s.handles)
      (on (Assembly.define handle draft) s.assembly) := by
  refine Assembly.define_defines ?_
  intro step hstep
  exact (hdraft step hstep).imp h.registered fun _ _ h => h

/-- A definition that succeeds keeps the invariant. -/
theorem Sound.of_defines {s : Session M} (h : s.Sound) {handle : Handle M k}
    (hhandle : (handle.id, k) ∈ s.handles) {a : Assembly M}
    (ha : Assembly.Defines s.assembly handle
      (fun id kind => (id, kind) ∈ s.handles) (.ok (), a)) :
    Sound { s with assembly := a, defined := handle.id :: s.defined } := by
  cases ha with
  | defines hscopes hdeclared hgrows hnames =>
    obtain ⟨errors, scopes, declared⟩ := a
    dsimp only at hscopes hdeclared hgrows hnames
    subst hscopes hdeclared
    have hkept : Sound { s with assembly := { s.assembly with errors } } :=
      h.keep rfl (Nat.le_refl _) hgrows
    exact hkept.store hhandle hnames

/-! ## Calls -/

theorem Sound.perform_declare {s : Session M} (h : s.Sound) (k : M.Kind) :
    (s.perform (.declare k)).Sound := by
  rw [perform, on_declare]
  split
  · rename_i hon
    split at hon
    · obtain ⟨hhandle, rfl⟩ := Prod.mk.inj hon
      obtain rfl := Except.ok.inj hhandle
      exact h.declare k
    · exact nomatch hon
  · rename_i hon
    split at hon
    · exact nomatch hon
    · obtain ⟨_, rfl⟩ := Prod.mk.inj hon
      exact h

theorem Sound.perform_error {s : Session M} (h : s.Sound) (e : ErrorDef) :
    (s.perform (.error e)).Sound := by
  obtain ⟨hscopes, hdeclared, hgrows, hresult⟩ := Registers.error e s.assembly
  rw [perform]
  split
  · rename_i id a hon
    rw [hon] at hscopes hdeclared hgrows hresult
    have hkept : Sound { s with assembly := a } :=
      h.keep hscopes (Nat.le_of_eq hdeclared.symm) hgrows
    exact hkept.error (hresult id rfl)
  · rename_i hon
    rw [hon] at hscopes hdeclared hgrows
    exact h.keep hscopes (Nat.le_of_eq hdeclared.symm) hgrows

theorem Sound.perform_define {s : Session M} (h : s.Sound) {handle : Handle M k}
    (hhandle : (handle.id, k) ∈ s.handles) {draft : ScopeDraft M k}
    (hdraft : s.AllowsDraft draft) : (s.perform (.define handle draft)).Sound := by
  have hdefines := h.defines handle hdraft
  rw [perform]
  split
  · rename_i a hon
    rw [hon] at hdefines
    exact h.of_defines hhandle hdefines
  · rename_i hon
    rw [hon] at hdefines
    cases hdefines with
    | fails hscopes hdeclared hgrows =>
      exact h.keep hscopes (Nat.le_of_eq hdeclared.symm) hgrows

/-- A scope that is declared and not defined stays behind where `add` fails. -/
theorem Sound.perform_add {s : Session M} (h : s.Sound) {draft : ScopeDraft M k}
    (hdraft : s.AllowsDraft draft) : (s.perform (.add draft)).Sound := by
  rw [perform, on_add, on_declare]
  by_cases hroom : s.assembly.declared + 1 < idLimit
  · simp only [if_pos hroom]
    have hdeclare := h.declare k
    have hdraft' : AllowsDraft { s with
        assembly := { s.assembly with declared := s.assembly.declared + 1 }
        handles := (⟨s.assembly.declared⟩, k) :: s.handles } draft := by
      intro step hstep
      exact (hdraft step hstep).imp (fun _ h => h) fun _ _ h => List.mem_cons_of_mem _ h
    have hdefines := hdeclare.defines ⟨⟨s.assembly.declared⟩⟩ hdraft'
    dsimp only at hdefines
    rcases hon : on (Assembly.define (⟨⟨s.assembly.declared⟩⟩ : Handle M k) draft)
      { s.assembly with declared := s.assembly.declared + 1 } with ⟨r, a⟩
    rw [hon] at hdefines
    cases r with
    | ok _ => exact hdeclare.of_defines List.mem_cons_self hdefines
    | error e =>
      cases hdefines with
      | fails hscopes hdeclared hgrows =>
        refine h.keep hscopes ?_ hgrows
        rw [hdeclared]
        exact Nat.le_succ _
  · simp only [if_neg hroom]
    exact h

/-- A call that uses only what was given out keeps the invariant, whether it fails or not. -/
theorem sound_perform {s : Session M} (h : s.Sound) {call : Call M} (hcall : s.Allows call) :
    (s.perform call).Sound := by
  cases call with
  | declare k => exact h.perform_declare k
  | error e => exact h.perform_error e
  | define handle draft => exact h.perform_define hcall.1 hcall.2
  | add draft => exact h.perform_add hcall

theorem Reached.sound {s : Session M} (h : Reached s) : s.Sound := by
  induction h with
  | start => exact .start
  | call _ call hcall ih => exact sound_perform ih hcall

/-! ## Building -/

theorem Sound.pending_iff {s : Session M} (h : s.Sound) {id : ScopeId} :
    s.Pending id ↔ id.val < s.assembly.declared ∧ s.assembly.scopes.contains id = false := by
  rw [Pending, ← h.defined, Bool.not_eq_true]

/-- Where scopes are pending the least of them is named; otherwise the table is compiled. -/
theorem Sound.build_eq {s : Session M} (h : s.Sound) (root : Handle M k) :
    (∃ id, s.Pending id ∧ (∀ other, s.Pending other → id.val ≤ other.val) ∧
      s.assembly.build root = .error (.undefinedScope id)) ∨
    (∀ id, ¬s.Pending id) ∧ s.assembly.build root =
      Scheme.compile s.assembly.scopes k root.id s.assembly.errors.catalog := by
  rw [Assembly.build]
  cases hfind : (List.range s.assembly.declared).find?
    fun id => !s.assembly.scopes.contains ⟨id⟩ with
  | some n =>
    rw [List.find?_range_eq_some] at hfind
    obtain ⟨hfree, hlt, hleast⟩ := hfind
    rw [List.mem_range] at hlt
    refine .inl ⟨⟨n⟩, h.pending_iff.2 ⟨hlt, by simpa using hfree⟩, ?_, rfl⟩
    intro other hother
    by_contra hbelow
    have htaken := hleast other.val (Nat.lt_of_not_le hbelow)
    have hcontains : s.assembly.scopes.contains other = false := (h.pending_iff.1 hother).2
    simp [hcontains] at htaken
  | none =>
    rw [List.find?_range_eq_none] at hfind
    refine .inr ⟨?_, rfl⟩
    intro id hpending
    obtain ⟨hlt, hcontains⟩ := h.pending_iff.1 hpending
    have htaken := hfind id.val hlt
    simp [hcontains] at htaken

section Complete

variable {s : Session M} {root : Handle M k}

/-- Where nothing is pending, every handle leads to a scope for its kind. -/
theorem Sound.kind? (h : s.Sound) (hcomplete : ∀ id, ¬s.Pending id) {id : ScopeId}
    {kind : M.Kind} (hmem : (id, kind) ∈ s.handles) : s.assembly.scopes.kind? id = some kind := by
  have hcontains : s.assembly.scopes.contains id = true := by
    by_contra hfree
    rw [Bool.not_eq_true] at hfree
    exact hcomplete id (h.pending_iff.2 ⟨h.declared id kind hmem, hfree⟩)
  obtain ⟨scope, hfind⟩ := Option.isSome_iff_exists.1 hcontains
  have hkind := h.functional id _ _ (h.scopes id scope hfind).1 hmem
  rw [ScopeTable.kind?, hfind, Option.map_some, hkind]

/-- Of the references only a member name can be unmet. -/
theorem Sound.memberName_of_unmet (h : s.Sound) (hcomplete : ∀ id, ¬s.Pending id) {id : ScopeId}
    {scope : AnyScope M} (hfind : s.assembly.scopes.find? id = some scope) :
    ∀ r ∈ scope.scope.references, ∀ e,
      Scheme.Unmet s.assembly.scopes s.assembly.errors.catalog id r e →
        ∃ name, e = .memberName id name := by
  refine Scope.forall_references_iff.2 ((h.scopes id scope hfind).2.imp ?_ ?_ ?_)
  · rintro error herror e ⟨hunknown⟩
    rw [Catalog.Draft.contains_catalog.2 herror] at hunknown
    exact nomatch hunknown
  · rintro name _ e ⟨⟩
    exact ⟨name, rfl⟩
  · intro target kind hmem e hunmet
    have hkind := h.kind? hcomplete hmem
    cases hunmet with
    | noTarget hnone =>
      rw [hkind] at hnone
      exact nomatch hnone
    | otherTarget hother hne =>
      rw [hkind] at hother
      exact absurd (Option.some.inj hother).symm hne

/-- Where nothing is pending, only a member name or an inclusion can be refused. -/
theorem Sound.refused (h : s.Sound) (hcomplete : ∀ id, ¬s.Pending id)
    (hroot : (root.id, k) ∈ s.handles) {e : SchemeError}
    (he : Scheme.Refused s.assembly.scopes k root.id s.assembly.errors.catalog e) :
    (∃ id name, e = .memberName id name) ∨ ∃ id path, e = .inclusionCycle id path := by
  have hkind := h.kind? hcomplete hroot
  cases he with
  | empty hempty =>
    rw [ScopeTable.isEmpty_of_kind? hkind] at hempty
    exact nomatch hempty
  | noRoot hnone =>
    rw [hkind] at hnone
    exact nomatch hnone
  | otherRoot hother hne =>
    rw [hkind] at hother
    exact absurd (Option.some.inj hother).symm hne
  | unmet _ hs hr hunmet =>
    exact .inl ⟨_, h.memberName_of_unmet hcomplete hs _ hr _ hunmet⟩
  | loop _ _ _ _ => exact .inr ⟨_, _, rfl⟩

end Complete

/-- A session that uses only what was given out leaves three ways for `build` to fail.  A scope
that is declared and not defined is one of them, and then the least of these is named. -/
theorem build_fails_in_three_ways {s : Session M} (hs : s.Reached) (root : Handle M k)
    (hroot : (root.id, k) ∈ s.handles) :
    ((∃ scheme, s.assembly.build root = .ok scheme) ∨
      (∃ id, s.assembly.build root = .error (.undefinedScope id)) ∨
      (∃ id name, s.assembly.build root = .error (.memberName id name)) ∨
      ∃ id path, s.assembly.build root = .error (.inclusionCycle id path)) ∧
    ((∃ id, s.assembly.build root = .error (.undefinedScope id)) ↔ ∃ id, s.Pending id) ∧
    ∀ id, s.assembly.build root = .error (.undefinedScope id) →
      s.Pending id ∧ ∀ other, s.Pending other → id.val ≤ other.val := by
  have h := hs.sound
  rcases h.build_eq root with ⟨id, hpending, hleast, hbuild⟩ | ⟨hcomplete, hbuild⟩
  · rw [hbuild]
    refine ⟨.inr (.inl ⟨id, rfl⟩), ⟨fun _ => ⟨id, hpending⟩, fun _ => ⟨id, rfl⟩⟩, ?_⟩
    rintro _ ⟨⟩
    exact ⟨hpending, hleast⟩
  · rw [hbuild]
    refine ⟨?_, ⟨?_, ?_⟩, ?_⟩
    · cases hcompile : Scheme.compile s.assembly.scopes k root.id s.assembly.errors.catalog with
      | ok scheme => exact .inl ⟨scheme, rfl⟩
      | error e =>
        rcases h.refused hcomplete hroot (Scheme.refused_of_compile hcompile) with
          ⟨id, name, rfl⟩ | ⟨id, path, rfl⟩
        · exact .inr (.inr (.inl ⟨id, name, rfl⟩))
        · exact .inr (.inr (.inr ⟨id, path, rfl⟩))
    · rintro ⟨id, hid⟩
      exact absurd hid (Scheme.compile_ne_undefinedScope id)
    · rintro ⟨id, hid⟩
      exact absurd hid (hcomplete id)
    · intro id hid
      exact absurd hid (Scheme.compile_ne_undefinedScope id)

end Session

namespace Orders

open Document

/-- A draft of an order, with the first error that is registered and the second scope for its
lines. -/
def orderDraft : ScopeDraft space Kind.obj :=
  (({} : ScopeDraft space Kind.obj).ruleId ⟨0⟩ fun v =>
    (Test.contains "customer").holds (k := .obj) v).member "lines"
      (⟨⟨1⟩⟩ : Handle space Kind.list)
      fun v => View.field? (k := .obj) v "lines" .list

/-- A session in which the order is defined, but not its lines. -/
def session : Session space :=
  [.declare Kind.obj, .declare Kind.list, .error {}, .define ⟨⟨0⟩⟩ orderDraft,
    .define ⟨⟨0⟩⟩ orderDraft].foldl Session.perform {}

theorem allowsDraft_orderDraft {s : Session space} (herror : ⟨0⟩ ∈ s.errors)
    (hlines : (⟨1⟩, Kind.list) ∈ s.handles) : s.AllowsDraft orderDraft := by
  intro step hstep
  have hsteps : step ∈ orderDraft.steps := hstep
  simp only [orderDraft, ScopeDraft.ruleId, ScopeDraft.member, List.nil_append, List.mem_append,
    List.mem_singleton] at hsteps
  rcases hsteps with rfl | rfl
  · exact herror
  · exact ⟨trivial, hlines⟩

theorem session_reached : session.Reached := by
  have hempty := Session.Reached.start (M := space)
  have horder := hempty.call (.declare Kind.obj) trivial
  have hlines := horder.call (.declare Kind.list) trivial
  have herror := hlines.call (.error {}) trivial
  have hdefined := herror.call (.define ⟨⟨0⟩⟩ orderDraft)
    ⟨.tail _ (.head _), allowsDraft_orderDraft (.head _) (.head _)⟩
  exact hdefined.call (.define ⟨⟨0⟩⟩ orderDraft)
    ⟨.tail _ (.head _), allowsDraft_orderDraft (.head _) (.head _)⟩

end Orders

/-- The lines of an order that are declared only, in a session whose last call has failed. -/
theorem Session.build_fails_in_three_ways_orders :
    Orders.session.Reached ∧ (⟨0⟩, Document.Kind.obj) ∈ Orders.session.handles ∧
    Orders.session.Pending ⟨1⟩ ∧
    (∃ id, Orders.session.assembly.build (⟨⟨0⟩⟩ : Handle Orders.space .obj) =
      .error (.undefinedScope id)) ∧
    ∀ other, Orders.session.Pending other → 1 ≤ other.val := by
  have hroot : (⟨0⟩, Document.Kind.obj) ∈ Orders.session.handles := .tail _ (.head _)
  obtain ⟨_, hundefined, hleast⟩ := Session.build_fails_in_three_ways Orders.session_reached
    (⟨⟨0⟩⟩ : Handle Orders.space .obj) hroot
  have hpending : Orders.session.Pending ⟨1⟩ := ⟨by decide, by decide⟩
  exact ⟨Orders.session_reached, hroot, hpending, hundefined.2 ⟨_, hpending⟩,
    (hleast ⟨1⟩ rfl).2⟩

end Rulebook
