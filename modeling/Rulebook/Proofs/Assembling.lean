import Rulebook.Proofs.Acceptance
import Rulebook.Scheme.Assembly

/-!
# What work on an assembly does

Work on an assembly can fail half way, and what was done before that stays done.  `on` is the
outcome of a piece of work together with the assembly after it, so both can be spoken of.

* `Registers` is work that does no more than to register errors, whether it fails or not.  It is
  kept by `bind` and by `mapM`, and says of a result what is known of it for good: that the errors
  it names are registered.
* `define_defines` goes through the definition of a scope once.  It either fails, and has
  registered some errors, or puts one scope where there was none.
-/

namespace Rulebook

variable {M : ModelSpace} {k : M.Kind}

/-! ## Catalogs in the making -/

namespace Catalog.Draft

variable {d d' : Draft} {e : ErrorDef} {id : ErrorId}

/-- The finished catalog holds the errors that were registered. -/
theorem contains_catalog : d.catalog.contains id ↔ id.val < d.size := by
  rw [catalog, Dict.contains_ofList, size]
  constructor
  · rintro ⟨p, hp, rfl⟩
    obtain ⟨⟨definition, i⟩, hi, rfl⟩ := List.mem_map.1 hp
    exact (List.mem_zipIdx' hi).1
  · intro h
    have hmem : (d.definitions[id.val], id.val) ∈ d.definitions.zipIdx :=
      List.mk_mem_zipIdx_iff_getElem?.2 (List.getElem?_eq_getElem h)
    exact ⟨(id, d.definitions[id.val]), List.mem_map.2 ⟨_, hmem, rfl⟩, rfl⟩

theorem register_eq_ok (h : d.register e = .ok (id, d')) :
    id.val < d'.size ∧ d.size ≤ d'.size := by
  rw [register] at h
  split at h
  · rename_i old hold
    obtain ⟨rfl, rfl⟩ := Prod.mk.inj (Except.ok.inj h)
    refine ⟨?_, Nat.le_refl _⟩
    by_contra hlt
    have hnone : d.definitions[old.val]? = none := List.getElem?_eq_none (Nat.le_of_not_lt hlt)
    have hequal := List.find?_some hold
    rw [hnone] at hequal
    exact absurd hequal Bool.false_ne_true
  · dsimp only at h
    split at h
    · obtain ⟨rfl, rfl⟩ := Prod.mk.inj (Except.ok.inj h)
      simp [size]
    · exact nomatch h

end Catalog.Draft

/-! ## Outcomes of work -/

namespace Assembling

variable {α β : Type} {a : Assembly M}

/-- The outcome of work on an assembly, and the assembly after it. -/
def on (x : Assembling M α) (a : Assembly M) : Except SchemeError α × Assembly M := x.run a

theorem on_bind_of_ok {x : Assembling M α} {a' : Assembly M} {v : α} (h : on x a = (.ok v, a'))
    (f : α → Assembling M β) : on (x >>= f) a = on (f v) a' :=
  run_bind_of_ok h f

theorem on_bind_of_error {x : Assembling M α} {a' : Assembly M} {e : SchemeError}
    (h : on x a = (.error e, a')) (f : α → Assembling M β) : on (x >>= f) a = (.error e, a') :=
  run_bind_of_error h f

theorem on_get_bind (f : Assembly M → Assembling M β) (a : Assembly M) :
    on (get >>= f) a = on (f a) a := rfl

theorem on_declare (k : M.Kind) (a : Assembly M) :
    on (Assembly.declare k) a =
      if a.declared + 1 < idLimit then
        (.ok ⟨⟨a.declared⟩⟩, { a with declared := a.declared + 1 })
      else (.error (.idsExhausted "scope"), a) := by
  rw [Assembly.declare, on_get_bind]
  dsimp only
  split
  · rfl
  · rfl

theorem on_error (e : ErrorDef) (a : Assembly M) :
    on (Assembly.error e) a =
      match a.errors.register e with
      | .ok (id, errors) => (.ok id, { a with errors })
      | .error failure => (.error failure, a) := by
  rw [Assembly.error, on_get_bind]
  cases h : a.errors.register e with
  | ok r => rfl
  | error failure => rfl

theorem on_add (draft : ScopeDraft M k) (a : Assembly M) :
    on (Assembly.add draft) a =
      match on (Assembly.declare k) a with
      | (.ok handle, a') =>
        match on (Assembly.define handle draft) a' with
        | (.ok _, a'') => (.ok handle, a'')
        | (.error e, a'') => (.error e, a'')
      | (.error e, a') => (.error e, a') := by
  rw [Assembly.add]
  rcases hdeclare : on (Assembly.declare k) a with ⟨r, a'⟩
  cases r with
  | error e => exact on_bind_of_error hdeclare _
  | ok handle =>
    rw [on_bind_of_ok hdeclare]
    dsimp only
    rcases hdefine : on (Assembly.define handle draft) a' with ⟨r, a''⟩
    cases r with
    | error e => exact on_bind_of_error hdefine _
    | ok _ => exact on_bind_of_ok hdefine _

end Assembling

/-! ## Work that registers errors -/

open Assembling

/-- The work registers errors and changes nothing else.  `Q` is what is known of a result where
that many errors are registered. -/
structure Registers {α : Type} (a : Assembly M) (Q : Nat → α → Prop) (x : Assembling M α) :
    Prop where
  scopes : (on x a).2.scopes = a.scopes
  declared : (on x a).2.declared = a.declared
  grows : a.errors.size ≤ (on x a).2.errors.size
  result : ∀ v, (on x a).1 = .ok v → Q (on x a).2.errors.size v

namespace Registers

variable {α β : Type} {a : Assembly M} {Q : Nat → α → Prop} {R : Nat → β → Prop}

theorem pure {v : α} (h : Q a.errors.size v) : Registers a Q (Pure.pure v) := by
  refine ⟨rfl, rfl, Nat.le_refl _, ?_⟩
  intro w hw
  obtain rfl := Except.ok.inj hw
  exact h

theorem bind {x : Assembling M α} {f : α → Assembling M β} (h : Registers a Q x)
    (hf : ∀ v a', a.errors.size ≤ a'.errors.size → Q a'.errors.size v → Registers a' R (f v)) :
    Registers a R (x >>= f) := by
  obtain ⟨hscopes, hdeclared, hgrows, hresult⟩ := h
  rcases hx : on x a with ⟨r, a'⟩
  rw [hx] at hscopes hdeclared hgrows hresult
  cases r with
  | error e =>
    have hbind := on_bind_of_error hx f
    refine ⟨?_, ?_, ?_, ?_⟩
    · rwa [hbind]
    · rwa [hbind]
    · rwa [hbind]
    · intro v hv
      rw [hbind] at hv
      exact nomatch hv
  | ok v =>
    have hbind := on_bind_of_ok hx f
    have hrest := hf v a' hgrows (hresult v rfl)
    refine ⟨?_, ?_, ?_, ?_⟩
    · rw [hbind]
      exact hrest.scopes.trans hscopes
    · rw [hbind]
      exact hrest.declared.trans hdeclared
    · rw [hbind]
      exact Nat.le_trans hgrows hrest.grows
    · rw [hbind]
      exact hrest.result

theorem error (e : ErrorDef) (a : Assembly M) :
    Registers a (fun n id => id.val < n) (Assembly.error e) := by
  have hon := on_error e a
  cases hregister : a.errors.register e with
  | error failure =>
    rw [hregister] at hon
    constructor <;> simp [hon]
  | ok r =>
    obtain ⟨id, errors⟩ := r
    rw [hregister] at hon
    obtain ⟨hlt, hle⟩ := Catalog.Draft.register_eq_ok hregister
    constructor <;> simp [hon, hlt, hle]

/-- What is known of each result stays known while the work goes on. -/
theorem mapM {f : β → Assembling M α} {l : List β}
    (hmono : ∀ n m v, n ≤ m → Q n v → Q m v)
    (hf : ∀ x ∈ l, ∀ a', a.errors.size ≤ a'.errors.size → Registers a' Q (f x)) :
    Registers a (fun n vs => ∀ v ∈ vs, Q n v) (l.mapM f) := by
  induction l generalizing a with
  | nil =>
    rw [List.mapM_nil]
    exact .pure nofun
  | cons x rest ih =>
    rw [List.forall_mem_cons] at hf
    rw [List.mapM_cons]
    refine (hf.1 a (Nat.le_refl _)).bind ?_
    intro v a₁ hle₁ hv
    refine (ih fun y hy a' hle => hf.2 y hy a' (Nat.le_trans hle₁ hle)).bind ?_
    intro vs a₂ hle₂ hvs
    refine .pure ?_
    rw [List.forall_mem_cons]
    exact ⟨hmono _ _ v hle₂ hv, hvs⟩

end Registers

/-! ## Drafts -/

/-- Whether the errors and the targets that a step of a draft names are as they should be.  An
error that is yet to be registered is. -/
def DraftStep.Names (error : ErrorId → Prop) (target : ScopeId → M.Kind → Prop) :
    DraftStep M k → Prop
  | .rule (.defined _) _ => True
  | .rule (.registered id) _ => error id
  | .step s => s.Names error (fun _ => True) target

theorem DraftStep.Names.imp {error error' : ErrorId → Prop}
    {target target' : ScopeId → M.Kind → Prop} {step : DraftStep M k}
    (h : step.Names error target)
    (herror : ∀ id, error id → error' id)
    (htarget : ∀ id kind, target id kind → target' id kind) :
    step.Names error' target' := by
  cases step with
  | rule e test =>
    cases e with
    | defined e => trivial
    | registered id => exact herror id h
  | step s => exact Step.Names.imp h herror (fun _ h => h) htarget

namespace Assembly

variable {a : Assembly M} {target : ScopeId → M.Kind → Prop}

theorem registers_policy (presence : DraftPresence) (a : Assembly M) :
    Registers a
      (fun n policy => ∀ id, policy.error? = some id → id.val < n) (policy presence) := by
  have herror (build : ErrorId → PresencePolicy) (hbuild : ∀ id, (build id).error? = some id)
      (e : ErrorDef) : Registers a (fun n policy => ∀ id, policy.error? = some id → id.val < n)
        (do return build (← error e)) := by
    refine (Registers.error e a).bind ?_
    intro id a' _ hid
    refine .pure ?_
    intro other hother
    rw [hbuild] at hother
    obtain rfl := Option.some.inj hother
    exact hid
  cases presence with
  | optional => exact .pure nofun
  | required e => exact herror .required (fun _ => rfl) _
  | forbidden e => exact herror .forbidden (fun _ => rfl) _

theorem registers_finishStep {step : DraftStep M k}
    (hstep : step.Names (fun id => id.val < a.errors.size) target) :
    Registers a (fun n step => step.Names (fun id => id.val < n) (fun _ => True) target)
      (finishStep step) := by
  cases step with
  | rule e test =>
    cases e with
    | defined e =>
      refine (Registers.error e a).bind ?_
      intro id a' _ hid
      exact .pure hid
    | registered id => exact .pure hstep
  | step s => exact .pure hstep

/-- What the definition of a scope does to an assembly. -/
inductive Defines (a : Assembly M) (handle : Handle M k) (target : ScopeId → M.Kind → Prop) :
    Except SchemeError Unit × Assembly M → Prop where
  | fails {e : SchemeError} {a' : Assembly M} (hscopes : a'.scopes = a.scopes)
    (hdeclared : a'.declared = a.declared) (hgrows : a.errors.size ≤ a'.errors.size) :
    Defines a handle target (.error e, a')
  | defines {scope : Scope M k} {a' : Assembly M}
    (hscopes : a'.scopes = a.scopes.insert handle.id ⟨k, scope⟩)
    (hdeclared : a'.declared = a.declared) (hgrows : a.errors.size ≤ a'.errors.size)
    (hnames : scope.Names (fun id => id.val < a'.errors.size) (fun _ => True) target) :
    Defines a handle target (.ok (), a')

theorem registers_presence (presence : Option DraftPresence) (a : Assembly M) :
    Registers a (fun n p => ∀ policy ∈ p, ∀ id, policy.error? = some id → id.val < n)
      (presence.mapM policy) := by
  cases presence with
  | none => exact .pure nofun
  | some presence =>
    refine (registers_policy presence a).bind ?_
    intro policy a' _ hpolicy
    refine .pure ?_
    rintro _ ⟨⟩
    exact hpolicy

theorem registers_finishSteps {steps : List (DraftStep M k)}
    (hsteps : ∀ step ∈ steps, step.Names (fun id => id.val < a.errors.size) target) :
    Registers a
      (fun n steps => ∀ step ∈ steps, step.Names (fun id => id.val < n) (fun _ => True) target)
      (steps.mapM finishStep) := by
  refine .mapM ?_ ?_
  · intro n m step hle hstep
    exact hstep.imp (fun id hid => Nat.lt_of_lt_of_le hid hle) (fun _ h => h) fun _ _ h => h
  · intro step hmem a' hle
    refine registers_finishStep ((hsteps step hmem).imp ?_ fun _ _ h => h)
    intro id hid
    exact Nat.lt_of_lt_of_le hid hle

/-- The scope of a draft, with its errors registered. -/
def finish (draft : ScopeDraft M k) : Assembling M (Scope M k) := do
  let presence ← draft.presence.mapM policy
  let steps ← draft.steps.mapM finishStep
  return { steps, presence }

theorem registers_finish {draft : ScopeDraft M k}
    (hdraft : ∀ step ∈ draft.steps, step.Names (fun id => id.val < a.errors.size) target) :
    Registers a (fun n scope => scope.Names (fun id => id.val < n) (fun _ => True) target)
      (finish draft) := by
  refine (registers_presence draft.presence a).bind ?_
  intro presence a₁ hle₁ hpresence
  have hsteps : ∀ step ∈ draft.steps, step.Names (fun id => id.val < a₁.errors.size) target := by
    intro step hmem
    exact (hdraft step hmem).imp (fun id hid => Nat.lt_of_lt_of_le hid hle₁) fun _ _ h => h
  refine (registers_finishSteps hsteps).bind ?_
  intro steps a₂ hle₂ hsteps
  refine .pure ⟨?_, hsteps⟩
  intro policy hpolicy id hid
  exact Nat.lt_of_lt_of_le (hpresence policy hpolicy id hid) hle₂

/-- Puts a scope into the table. -/
def store (handle : Handle M k) (scope : Scope M k) : Assembling M Unit := do
  let scopes ← (← get).scopes.add handle.id scope
  modify fun a => { a with scopes }

theorem define_eq (handle : Handle M k) (draft : ScopeDraft M k) :
    define handle draft = (do
      if (← get).scopes.contains handle.id then throw (.alreadyDefined handle.id)
      let scope ← finish draft
      store handle scope) := by
  simp [define, finish, store]

theorem on_store {handle : Handle M k} {scope : Scope M k}
    (hfree : a.scopes.contains handle.id = false) :
    on (store handle scope) a =
      (.ok (), { a with scopes := a.scopes.insert handle.id ⟨k, scope⟩ }) := by
  have hadd : a.scopes.add handle.id scope = .ok (a.scopes.insert handle.id ⟨k, scope⟩) := by
    rw [ScopeTable.add, hfree]
    rfl
  rw [store, on_get_bind, hadd]
  rfl

theorem define_defines {handle : Handle M k} {draft : ScopeDraft M k}
    (hdraft : ∀ step ∈ draft.steps, step.Names (fun id => id.val < a.errors.size) target) :
    Defines a handle target (on (define handle draft) a) := by
  rw [define_eq, on_get_bind]
  cases hfree : a.scopes.contains handle.id with
  | true => exact .fails rfl rfl (Nat.le_refl _)
  | false =>
    have hfinish := registers_finish hdraft
    obtain ⟨hscopes, hdeclared, hgrows, hresult⟩ := hfinish
    rcases hon : on (finish draft) a with ⟨r, a'⟩
    rw [hon] at hscopes hdeclared hgrows hresult
    simp only [Bool.false_eq_true, if_false]
    cases r with
    | error e =>
      rw [on_bind_of_error hon]
      exact .fails hscopes hdeclared hgrows
    | ok scope =>
      have hfree' : a'.scopes.contains handle.id = false := by rwa [hscopes]
      rw [on_bind_of_ok hon, on_store hfree']
      refine .defines ?_ hdeclared hgrows (hresult scope rfl)
      rw [hscopes]

end Assembly

end Rulebook
