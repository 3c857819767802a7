import Rulebook.Proofs.Assembling
import Rulebook.Proofs.Equality

/-!
# Registering errors

A draft of a catalog keeps definitions of which no two are equal, and registering one that is
equal to an earlier one gives the identifier of that one.  `idOf` says which identifier a
definition has, with no look at the groups that the draft searches in.  `Sound` is what a draft
keeps to for that.

* `register_of_knows` and `register_of_not_knows` say what registering does; `Grows` says what
  registering a list of definitions comes to.
* An identifier stays what it is while the draft grows (`idOf_of_keeps`).
* Definitions of which no two are equal have different identifiers, so a draft that knows them all
  is no smaller than they are many (`length_le_of_knows`).  This is how it is known that there are
  identifiers left.

`Enters` is work on an assembly that registers definitions and does nothing else, and whose result
is known from the identifiers.  Drafts of scopes are finished by such work (`enters_finish`).
-/

namespace Rulebook

namespace Catalog.Draft

variable {d d' d'' whole : Draft} {e : ErrorDef} {id : ErrorId} {es es' : List ErrorDef}

/-- A definition that is equal to `e` is registered. -/
def Knows (d : Draft) (e : ErrorDef) : Prop := ∃ x ∈ d.definitions, (x == e) = true

/-- The identifier of a definition: the place of the first one that is equal. -/
def idOf (d : Draft) (e : ErrorDef) : ErrorId := ⟨d.definitions.findIdx (· == e)⟩

/-- The members of a group. -/
def membersOf (groups : List ((List String × Option String) × List ErrorId))
    (key : List String × Option String) : List ErrorId :=
  ((groups.find? (·.1 = key)).map (·.2)).getD []

/-- No two definitions are equal, and each is in its group and in no other. -/
structure Sound (d : Draft) : Prop where
  distinct : d.definitions.Pairwise fun x y => (x == y) = false
  grouped : ∀ key id, id ∈ membersOf d.groups key ↔
    ∃ x, d.definitions[id.val]? = some x ∧ groupOf x = key

theorem Sound.start : Sound {} where
  distinct := .nil
  grouped key id := by simp [membersOf]

/-! ## Identifiers -/

theorem groupOf_eq {x y : ErrorDef} (h : (x == y) = true) : groupOf x = groupOf y := by
  have hcanonical := ErrorDef.beq_iff.1 h
  obtain ⟨hcodes, hparts⟩ := Prod.mk.inj hcanonical
  exact Prod.ext hcodes (Prod.mk.inj hparts).1

theorem Knows.getElem?_idOf (h : d.Knows e) :
    ∃ x, d.definitions[(d.idOf e).val]? = some x ∧ (x == e) = true := by
  obtain ⟨x, hx, hequal⟩ := h
  have hlt : d.definitions.findIdx (· == e) < d.definitions.length :=
    List.findIdx_lt_length_of_exists ⟨x, hx, hequal⟩
  exact ⟨_, List.getElem?_eq_getElem hlt, List.findIdx_getElem (w := hlt)⟩

/-- Equal definitions stand at one place. -/
theorem Sound.place_unique (h : d.Sound) {i j : Nat} {x y : ErrorDef}
    (hx : d.definitions[i]? = some x) (hy : d.definitions[j]? = some y)
    (hxy : (x == y) = true) : i = j := by
  obtain ⟨hi, rfl⟩ := List.getElem?_eq_some_iff.1 hx
  obtain ⟨hj, rfl⟩ := List.getElem?_eq_some_iff.1 hy
  have hdistinct := List.pairwise_iff_getElem.1 h.distinct
  rcases Nat.lt_trichotomy i j with hlt | rfl | hlt
  · rw [hdistinct i j hi hj hlt] at hxy
    exact absurd hxy Bool.false_ne_true
  · rfl
  · rw [BEq.comm, hdistinct j i hj hi hlt] at hxy
    exact absurd hxy Bool.false_ne_true

/-- Definitions that are equal have one identifier. -/
theorem idOf_eq {x : ErrorDef} (h : (x == e) = true) : d.idOf x = d.idOf e := by
  have hsame : (fun y => y == x) = fun y => y == e := by
    funext y
    exact BEq.congr_right h
  rw [idOf, idOf, hsame]

/-- Definitions that have one identifier are equal. -/
theorem Knows.beq_of_idOf {x : ErrorDef} (hx : d.Knows x) (he : d.Knows e)
    (h : d.idOf x = d.idOf e) : (x == e) = true := by
  obtain ⟨y, hy, hyx⟩ := hx.getElem?_idOf
  obtain ⟨z, hz, hze⟩ := he.getElem?_idOf
  rw [h, hz] at hy
  obtain rfl := Option.some.inj hy
  exact BEq.trans (BEq.symm hyx) hze

/-- A draft that knows definitions of which no two are equal has as many. -/
theorem length_le_of_knows (hdistinct : es.Pairwise fun x y => (x == y) = false)
    (hknown : ∀ x ∈ es, whole.Knows x) : es.length ≤ whole.size := by
  have hnodup : (es.map fun x => (whole.idOf x).val).Nodup := by
    rw [List.nodup_iff_pairwise_ne, List.pairwise_map]
    refine hdistinct.imp_of_mem ?_
    intro x y hx hy hxy hid
    have hequal := (hknown x hx).beq_of_idOf (hknown y hy) (congrArg ErrorId.mk hid)
    rw [hxy] at hequal
    exact Bool.false_ne_true hequal
  have hsub : (es.map fun x => (whole.idOf x).val) ⊆ List.range whole.size := by
    intro i hi
    obtain ⟨x, hx, rfl⟩ := List.mem_map.1 hi
    obtain ⟨y, hy, _⟩ := (hknown x hx).getElem?_idOf
    exact List.mem_range.2 (List.getElem?_eq_some_iff.1 hy).1
  have hle := (hnodup.subperm hsub).length_le
  rwa [List.length_map, List.length_range] at hle

/-- The finished catalog has each definition under its place. -/
theorem find?_catalog (d : Draft) (id : ErrorId) :
    d.catalog.find? id = d.definitions[id.val]? := by
  have hkeys :
      ((d.definitions.zipIdx.map fun p => ((⟨p.2⟩ : ErrorId), p.1)).map Prod.fst).Nodup := by
    have hplaces : (d.definitions.zipIdx.map fun p => ((⟨p.2⟩ : ErrorId), p.1)).map Prod.fst =
        (List.range' 0 d.definitions.length).map ErrorId.mk := by
      rw [← List.zipIdx_map_snd, List.map_map, List.map_map]
      rfl
    rw [hplaces]
    exact List.Nodup.map (fun _ _ h => ErrorId.mk.inj h) List.nodup_range'
  ext x
  rw [catalog, Dict.find?_ofList hkeys, List.mem_map]
  constructor
  · rintro ⟨⟨y, i⟩, hmem, heq⟩
    obtain ⟨rfl, rfl⟩ := Prod.mk.inj heq
    exact List.mk_mem_zipIdx_iff_getElem?.1 hmem
  · intro hx
    exact ⟨(x, id.val), List.mk_mem_zipIdx_iff_getElem?.2 hx, rfl⟩

/-! ## Registering one definition -/

/-- The draft with one more definition. -/
def push (d : Draft) (e : ErrorDef) : Draft :=
  ⟨d.definitions ++ [e], addToGroup (groupOf e) ⟨d.definitions.length⟩ d.groups⟩

theorem mem_membersOf_addToGroup {groups : List ((List String × Option String) × List ErrorId)}
    {key other : List String × Option String} {new : ErrorId} :
    id ∈ membersOf (addToGroup key new groups) other ↔
      id ∈ membersOf groups other ∨ key = other ∧ id = new := by
  induction groups with
  | nil =>
    by_cases hkey : key = other
    · simp [addToGroup, membersOf, hkey]
    · simp [addToGroup, membersOf, hkey]
  | cons g rest ih =>
    obtain ⟨k, ids⟩ := g
    simp only [membersOf] at ih
    rw [addToGroup]
    by_cases hk : k = key
    · rw [if_pos hk]
      by_cases hkey : key = other
      · simp [membersOf, hk, hkey]
      · have hother : k ≠ other := fun h => hkey (hk ▸ h)
        simp [membersOf, hother, hkey]
    · rw [if_neg hk]
      by_cases hother : k = other
      · have hkey : key ≠ other := fun h => hk (hother.trans h.symm)
        simp [membersOf, hother, hkey]
      · simp [membersOf, hother, ih]

theorem register_of_knows (h : d.Sound) (he : d.Knows e) : d.register e = .ok (d.idOf e, d) := by
  obtain ⟨x, hx, hequal⟩ := he.getElem?_idOf
  have hmem : d.idOf e ∈ d.candidates e := (h.grouped _ _).2 ⟨x, hx, groupOf_eq hequal⟩
  have hfind : (d.candidates e).find? (fun id => d.definitions[id.val]? == some e) =
      some (d.idOf e) := by
    cases hfound : (d.candidates e).find? fun id => d.definitions[id.val]? == some e with
    | none =>
      have hnone := List.find?_eq_none.1 hfound _ hmem
      simp [hx, hequal] at hnone
    | some id =>
      have hid := List.find?_some hfound
      cases hy : d.definitions[id.val]? with
      | none => simp [hy] at hid
      | some y =>
        have hye : (y == e) = true := by simpa [hy] using hid
        have hplace := h.place_unique hy hx (BEq.trans hye (BEq.symm hequal))
        rw [show id = d.idOf e from congrArg ErrorId.mk hplace]
  rw [register, hfind]

theorem register_of_not_knows (he : ¬d.Knows e) :
    d.register e = if d.size < idLimit then .ok (⟨d.size⟩, d.push e)
      else .error (.idsExhausted "error") := by
  have hfind : (d.candidates e).find? (fun id => d.definitions[id.val]? == some e) = none := by
    rw [List.find?_eq_none]
    intro id _ hid
    cases hy : d.definitions[id.val]? with
    | none => simp [hy] at hid
    | some y =>
      have hye : (y == e) = true := by simpa [hy] using hid
      exact he ⟨y, List.mem_of_getElem? hy, hye⟩
  rw [register, hfind]
  rfl

theorem Sound.push (h : d.Sound) (he : ¬d.Knows e) : (d.push e).Sound where
  distinct := by
    rw [Draft.push, List.pairwise_append]
    refine ⟨h.distinct, List.pairwise_singleton _ _, ?_⟩
    intro x hx y hy
    obtain rfl := List.mem_singleton.1 hy
    exact Bool.eq_false_iff.2 fun hequal => he ⟨x, hx, hequal⟩
  grouped key id := by
    rw [Draft.push, mem_membersOf_addToGroup, h.grouped]
    dsimp only
    rcases Nat.lt_trichotomy id.val d.definitions.length with hlt | heq | hgt
    · have hne : id ≠ ⟨d.definitions.length⟩ := fun h => Nat.ne_of_lt hlt (congrArg ErrorId.val h)
      simp [List.getElem?_append_left hlt, hne]
    · obtain rfl : id = ⟨d.definitions.length⟩ := congrArg ErrorId.mk heq
      simp
    · have hne : id ≠ ⟨d.definitions.length⟩ := fun h => Nat.ne_of_gt hgt (congrArg ErrorId.val h)
      have hnone : (d.definitions ++ [e])[id.val]? = none := by
        rw [List.getElem?_eq_none_iff, List.length_append, List.length_singleton]
        omega
      simp [hnone, hne, List.getElem?_eq_none (Nat.le_of_lt hgt)]

/-! ## Registering several -/

/-- `d'` is what becomes of `d` where the definitions `es` are registered. -/
structure Grows (d : Draft) (es : List ErrorDef) (d' : Draft) : Prop where
  sound : d'.Sound
  keeps : d.definitions <+: d'.definitions
  known : ∀ e ∈ es, d'.Knows e
  source : ∀ e ∈ d'.definitions, e ∈ d.definitions ∨ e ∈ es
  limit : d.size ≤ idLimit → d'.size ≤ idLimit

theorem Knows.of_keeps (h : d.Knows e) (hkeeps : d.definitions <+: d'.definitions) :
    d'.Knows e := by
  obtain ⟨x, hx, hequal⟩ := h
  exact ⟨x, hkeeps.subset hx, hequal⟩

/-- The identifier of a definition stays what it is. -/
theorem idOf_of_keeps (h : d.Knows e) (hkeeps : d.definitions <+: d'.definitions) :
    d'.idOf e = d.idOf e := by
  obtain ⟨rest, hrest⟩ := hkeeps
  obtain ⟨x, hx, hequal⟩ := h
  have hlt : d.definitions.findIdx (· == e) < d.definitions.length :=
    List.findIdx_lt_length_of_exists ⟨x, hx, hequal⟩
  rw [idOf, idOf, ← hrest, List.findIdx_append, if_pos hlt]

theorem Grows.refl (h : d.Sound) : d.Grows [] d :=
  ⟨h, List.prefix_rfl, nofun, fun _ => .inl, id⟩

theorem Grows.trans (h : d.Grows es d') (h' : d'.Grows es' d'') : d.Grows (es ++ es') d'' where
  sound := h'.sound
  keeps := h.keeps.trans h'.keeps
  known := by
    rw [List.forall_mem_append]
    exact ⟨fun e he => (h.known e he).of_keeps h'.keeps, h'.known⟩
  source e he := by
    rw [List.mem_append]
    rcases h'.source e he with he | he
    · exact (h.source e he).imp_right .inl
    · exact .inr (.inr he)
  limit hlimit := h'.limit (h.limit hlimit)

theorem grows_register (h : d.Sound) (hregister : d.register e = .ok (id, d')) :
    d.Grows [e] d' ∧ id = d'.idOf e := by
  by_cases he : d.Knows e
  · rw [register_of_knows h he] at hregister
    obtain ⟨rfl, rfl⟩ := Prod.mk.inj (Except.ok.inj hregister)
    refine ⟨⟨h, List.prefix_rfl, ?_, fun _ => .inl, fun hlimit => hlimit⟩, rfl⟩
    simpa using he
  · rw [register_of_not_knows he] at hregister
    split at hregister
    · rename_i hroom
      obtain ⟨rfl, rfl⟩ := Prod.mk.inj (Except.ok.inj hregister)
      refine ⟨⟨h.push he, List.prefix_append _ _, ?_, ?_, ?_⟩, ?_⟩
      · simp [Knows, push]
      · simp [push]
      · intro _
        rw [push, size, List.length_append]
        exact hroom
      · have hnew : d.definitions.findIdx (· == e) = d.definitions.length :=
          List.findIdx_eq_length.2 fun x hx =>
            Bool.eq_false_iff.2 fun hequal => he ⟨x, hx, hequal⟩
        rw [idOf, push, List.findIdx_append, if_neg (by omega)]
        simp [size]
    · cases hregister

/-- There are identifiers for the definitions `es`: some draft within the limit knows these and
all that are registered already. -/
structure Room (d : Draft) (es : List ErrorDef) (whole : Draft) : Prop where
  sound : whole.Sound
  limit : whole.size ≤ idLimit
  knows : ∀ e ∈ d.definitions, whole.Knows e
  covers : ∀ e ∈ es, whole.Knows e

theorem Room.left (h : d.Room (es ++ es') whole) : d.Room es whole :=
  ⟨h.sound, h.limit, h.knows, fun e he => h.covers e (List.mem_append_left _ he)⟩

/-- Once the first definitions are registered there is room for the others. -/
theorem Room.right (h : d.Room (es ++ es') whole) (hgrows : d.Grows es d') :
    d'.Room es' whole where
  sound := h.sound
  limit := h.limit
  knows e he := by
    rcases hgrows.source e he with he | he
    · exact h.knows e he
    · exact h.covers e (List.mem_append_left _ he)
  covers e he := h.covers e (List.mem_append_right _ he)

theorem exists_register (h : d.Sound) (hroom : d.Room [e] whole) : ∃ r, d.register e = .ok r := by
  by_cases he : d.Knows e
  · exact ⟨_, register_of_knows h he⟩
  · have hpush := h.push he
    have hle : (d.push e).size ≤ whole.size := by
      refine length_le_of_knows hpush.distinct ?_
      rw [push, List.forall_mem_append]
      exact ⟨hroom.knows, hroom.covers⟩
    have hlimit := hroom.limit
    rw [push, size, List.length_append, List.length_singleton] at hle
    have hlt : d.size < idLimit := by
      rw [size]
      omega
    rw [register_of_not_knows he, if_pos hlt]
    exact ⟨_, rfl⟩

end Catalog.Draft

/-! ## Work that registers definitions -/

open Assembling
open Catalog (Draft)

variable {M : ModelSpace} {k : M.Kind} {α β : Type}

/-- The work registers the definitions `es` and does nothing else; its result is known from their
identifiers. -/
structure Enters (es : List ErrorDef) (result : (ErrorDef → ErrorId) → α) (x : Assembling M α) :
    Prop where
  congr : ∀ error error', (∀ e ∈ es, error e = error' e) → result error = result error'
  ends : ∀ a v a', a.errors.Sound → on x a = (.ok v, a') →
    ∃ d, a' = { a with errors := d } ∧ a.errors.Grows es d ∧ v = result d.idOf
  succeeds : ∀ a whole, a.errors.Sound → a.errors.Room es whole → ∃ v a', on x a = (.ok v, a')

namespace Enters

variable {es es' : List ErrorDef} {r : (ErrorDef → ErrorId) → α} {x : Assembling M α}

theorem pure (v : α) : Enters [] (fun _ => v) (Pure.pure v : Assembling M α) where
  congr _ _ _ := rfl
  ends a w a' ha hon := by
    obtain ⟨hw, rfl⟩ := Prod.mk.inj hon
    exact ⟨a.errors, rfl, .refl ha, (Except.ok.inj hw).symm⟩
  succeeds a _ _ _ := ⟨v, a, rfl⟩

theorem error (e : ErrorDef) :
    Enters [e] (fun error => error e) (Assembly.error e : Assembling M ErrorId) where
  congr _ _ h := h e List.mem_cons_self
  ends a id a' ha hon := by
    rw [on_error] at hon
    cases hregister : a.errors.register e with
    | error failure =>
      rw [hregister] at hon
      exact nomatch hon
    | ok out =>
      obtain ⟨new, d⟩ := out
      rw [hregister] at hon
      obtain ⟨hid, rfl⟩ := Prod.mk.inj hon
      obtain rfl := Except.ok.inj hid
      obtain ⟨hgrows, hnew⟩ := Draft.grows_register ha hregister
      exact ⟨d, rfl, hgrows, hnew⟩
  succeeds a whole ha hroom := by
    obtain ⟨⟨id, d⟩, hregister⟩ := Draft.exists_register ha hroom
    exact ⟨id, { a with errors := d }, by rw [on_error, hregister]⟩

theorem bind {f : α → Assembling M β} {r' : α → (ErrorDef → ErrorId) → β} (hx : Enters es r x)
    (hf : ∀ v, Enters es' (r' v) (f v)) :
    Enters (es ++ es') (fun error => r' (r error) error) (x >>= f) where
  congr error error' h := by
    rw [List.forall_mem_append] at h
    have hfirst := hx.congr error error' h.1
    rw [hfirst]
    exact (hf _).congr error error' h.2
  ends a v a' ha hon := by
    rcases hrun : on x a with ⟨out, a₁⟩
    cases out with
    | error e =>
      rw [on_bind_of_error hrun] at hon
      exact nomatch hon
    | ok u =>
      rw [on_bind_of_ok hrun] at hon
      obtain ⟨d, rfl, hgrows, rfl⟩ := hx.ends a u a₁ ha hrun
      obtain ⟨d', rfl, hgrows', rfl⟩ := (hf _).ends _ v a' hgrows.sound hon
      refine ⟨d', rfl, hgrows.trans hgrows', ?_⟩
      have hfirst : r d'.idOf = r d.idOf := hx.congr _ _ fun e he =>
        Draft.idOf_of_keeps (hgrows.known e he) hgrows'.keeps
      rw [hfirst]
  succeeds a whole ha hroom := by
    obtain ⟨u, a₁, hrun⟩ := hx.succeeds a whole ha hroom.left
    obtain ⟨d, rfl, hgrows, rfl⟩ := hx.ends a u a₁ ha hrun
    obtain ⟨v, a', hon⟩ := (hf (r d.idOf)).succeeds { a with errors := d } whole hgrows.sound
      (hroom.right hgrows)
    exact ⟨v, a', by rw [on_bind_of_ok hrun, hon]⟩

theorem mapM {f : β → Assembling M α} {errors : β → List ErrorDef}
    {r : β → (ErrorDef → ErrorId) → α} (hf : ∀ b, Enters (errors b) (r b) (f b)) (l : List β) :
    Enters (l.flatMap errors) (fun error => l.map fun b => r b error) (l.mapM f) := by
  induction l with
  | nil =>
    rw [List.mapM_nil]
    exact .pure []
  | cons b rest ih =>
    rw [List.mapM_cons]
    have hrest (v : α) : Enters (rest.flatMap errors)
        (fun error => v :: rest.map fun b => r b error)
        (do let vs ← rest.mapM f; return v :: vs) := by
      have hbind := ih.bind fun vs => .pure (M := M) (v :: vs)
      rwa [List.append_nil] at hbind
    exact (hf b).bind hrest

end Enters

/-! ## Drafts of scopes -/

/-- The definition that a presence registers. -/
def DraftPresence.errors : DraftPresence → List ErrorDef
  | optional => []
  | required e => [e.getD requiredError]
  | forbidden e => [e.getD forbiddenError]

/-- The policy of a presence, where definitions have these identifiers. -/
def DraftPresence.finished (error : ErrorDef → ErrorId) : DraftPresence → PresencePolicy
  | optional => .optional
  | required e => .required (error (e.getD requiredError))
  | forbidden e => .forbidden (error (e.getD forbiddenError))

/-- The definition that a step registers. -/
def DraftStep.errors : DraftStep M k → List ErrorDef
  | .rule (.defined e) _ => [e]
  | _ => []

/-- The step of a draft, where definitions have these identifiers. -/
def DraftStep.finished (error : ErrorDef → ErrorId) : DraftStep M k → Step M k
  | .rule (.defined e) test => .rule (error e) test
  | .rule (.registered id) test => .rule id test
  | .step s => s

/-- The definitions that a draft registers, the presence first. -/
def ScopeDraft.errors (draft : ScopeDraft M k) : List ErrorDef :=
  draft.presence.toList.flatMap DraftPresence.errors ++ draft.steps.flatMap DraftStep.errors

/-- The scope of a draft, where definitions have these identifiers. -/
def ScopeDraft.finished (error : ErrorDef → ErrorId) (draft : ScopeDraft M k) : Scope M k where
  steps := draft.steps.map (DraftStep.finished error)
  presence := draft.presence.map (DraftPresence.finished error)

namespace Assembly

theorem enters_policy (presence : DraftPresence) :
    Enters presence.errors (fun error => presence.finished error)
      (policy presence : Assembling M PresencePolicy) := by
  cases presence with
  | optional => exact .pure _
  | required e => exact (Enters.error _).bind fun id => .pure (PresencePolicy.required id)
  | forbidden e => exact (Enters.error _).bind fun id => .pure (PresencePolicy.forbidden id)

theorem enters_presence (presence : Option DraftPresence) :
    Enters (presence.toList.flatMap DraftPresence.errors)
      (fun error => presence.map (DraftPresence.finished error))
      (presence.mapM policy : Assembling M (Option PresencePolicy)) := by
  cases presence with
  | none => exact .pure none
  | some presence =>
    have hbind := (enters_policy (M := M) presence).bind fun p => .pure (some p)
    rw [List.append_nil] at hbind
    simpa using hbind

theorem enters_finishStep (step : DraftStep M k) :
    Enters step.errors (fun error => step.finished error) (finishStep step) := by
  cases step with
  | rule e test =>
    cases e with
    | defined e => exact (Enters.error e).bind fun id => .pure (Step.rule id test)
    | registered id => exact .pure _
  | step s => exact .pure s

/-- Finishing a draft registers its definitions, and the scope has their identifiers. -/
theorem enters_finish (draft : ScopeDraft M k) :
    Enters draft.errors (fun error => draft.finished error) (finish draft) := by
  have hsteps (presence : Option PresencePolicy) :
      Enters (draft.steps.flatMap DraftStep.errors)
        (fun error => (⟨draft.steps.map (DraftStep.finished error), presence⟩ : Scope M k))
        (do let steps ← draft.steps.mapM finishStep; return { steps, presence }) := by
    have hbind := (Enters.mapM enters_finishStep draft.steps).bind
      fun steps => .pure (M := M) (⟨steps, presence⟩ : Scope M k)
    rwa [List.append_nil] at hbind
  exact (enters_presence draft.presence).bind hsteps

section Define

variable {a a' : Assembly M} {handle : Handle M k} {draft : ScopeDraft M k}

/-- A definition that succeeds was the first one of its scope. -/
theorem define_ends (ha : a.errors.Sound) (hon : on (define handle draft) a = (.ok (), a')) :
    a.scopes.contains handle.id = false ∧ ∃ d, a.errors.Grows draft.errors d ∧
      a' = { a with
        errors := d
        scopes := a.scopes.insert handle.id ⟨k, draft.finished d.idOf⟩ } := by
  rw [define_eq, on_get_bind] at hon
  cases hfree : a.scopes.contains handle.id with
  | true =>
    rw [hfree] at hon
    exact nomatch hon
  | false =>
    simp only [hfree, Bool.false_eq_true, if_false] at hon
    rcases hfinish : on (finish draft) a with ⟨out, a₁⟩
    cases out with
    | error e =>
      rw [on_bind_of_error hfinish] at hon
      exact nomatch hon
    | ok scope =>
      obtain ⟨d, rfl, hgrows, rfl⟩ := (enters_finish draft).ends a scope a₁ ha hfinish
      have hfree' : { a with errors := d }.scopes.contains handle.id = false := hfree
      rw [on_bind_of_ok hfinish, on_store hfree'] at hon
      exact ⟨rfl, d, hgrows, (Prod.mk.inj hon).2.symm⟩

/-- The first definition of a scope succeeds if there are identifiers for its errors. -/
theorem exists_define {whole : Draft} (ha : a.errors.Sound)
    (hfree : a.scopes.contains handle.id = false) (hroom : a.errors.Room draft.errors whole) :
    ∃ a', on (define handle draft) a = (.ok (), a') := by
  rw [define_eq, on_get_bind]
  simp only [hfree, Bool.false_eq_true, if_false]
  obtain ⟨scope, a₁, hfinish⟩ := (enters_finish draft).succeeds a whole ha hroom
  obtain ⟨d, rfl, _, _⟩ := (enters_finish draft).ends a scope a₁ ha hfinish
  have hfree' : { a with errors := d }.scopes.contains handle.id = false := hfree
  rw [on_bind_of_ok hfinish, on_store hfree']
  exact ⟨_, rfl⟩

end Define

end Assembly

end Rulebook
