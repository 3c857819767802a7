import Rulebook.Proofs.Distinct
import Rulebook.Proofs.Registering

/-!
# Numbering definitions

What a draft of a catalog gives out when definitions are registered one after the other, equal
ones among them.

There are three groups.

* Registering without groups.  `scan` compares a definition with every earlier one, and
  `register_eq_scan` says that the groups of a draft never change the answer.
* Runs.  `inTurn` takes definitions one after the other.  What a run keeps is that the definitions
  of the draft are those registered so far without the repeated ones (`definitions_of_inTurn`),
  and that every identifier given out is the place of its definition there (`grows_inTurn`).
* The numbering.  `Numbered` lists what is promised about identifiers.  As all of them are places
  among the definitions without repetitions, each promise is a fact about those places.

A draft keeps only one of equal definitions, so a catalog gives back a definition that is equal to
the one registered, which need not be the same one.
-/

namespace Rulebook.Catalog.Draft

open Distinct

variable {d d' : Draft} {e : ErrorDef} {es before after : List ErrorDef} {id : ErrorId}
  {ids : List ErrorId} {σ : Type}

/-! ## Registering without groups -/

/-- Registers a definition by comparing it with every earlier one. -/
def scan (known : List ErrorDef) (e : ErrorDef) : Except SchemeError (ErrorId × List ErrorDef) :=
  match known.findIdx? (· == e) with
  | some i => .ok (⟨i⟩, known)
  | none =>
    if known.length < idLimit then .ok (⟨known.length⟩, known ++ [e])
    else .error (.idsExhausted "error")

theorem knows_iff_any : d.Knows e ↔ d.definitions.any (· == e) = true :=
  List.any_eq_true.symm

/-- The groups of a draft never change what registering comes to. -/
theorem register_eq_scan (h : d.Sound) (e : ErrorDef) :
    (d.register e).map (fun r => (r.1, r.2.definitions)) = scan d.definitions e := by
  unfold scan
  by_cases he : d.Knows e
  · have hfind : d.definitions.findIdx? (· == e) = some (d.idOf e).val := by
      obtain ⟨x, hx, hequal⟩ := he
      rw [List.findIdx?_eq_some_iff_findIdx_eq]
      exact ⟨List.findIdx_lt_length_of_exists ⟨x, hx, hequal⟩, rfl⟩
    rw [register_of_knows h he, hfind]
    rfl
  · have hfind : d.definitions.findIdx? (· == e) = none := by
      rw [List.findIdx?_eq_none_iff]
      intro x hx
      exact Bool.eq_false_iff.2 fun hequal => he ⟨x, hx, hequal⟩
    rw [register_of_not_knows he, hfind]
    unfold size
    split <;> rfl

/-! ## Runs -/

/-- Takes definitions one after the other; `step` says which identifier the next one has. -/
def inTurn (step : σ → ErrorDef → Except SchemeError (ErrorId × σ)) (s : σ) :
    List ErrorDef → Except SchemeError (List ErrorId × σ)
  | [] => .ok ([], s)
  | e :: es => do
    let (id, s) ← step s e
    let (ids, s) ← inTurn step s es
    return (id :: ids, s)

section Step

variable {step : σ → ErrorDef → Except SchemeError (ErrorId × σ)} {s s' s'' : σ}

theorem inTurn_cons_of_ok (h : step s e = .ok (id, s'))
    (h' : inTurn step s' es = .ok (ids, s'')) :
    inTurn step s (e :: es) = .ok (id :: ids, s'') := by
  rw [inTurn, h]
  change (inTurn step s' es >>= _) = _
  rw [h']
  rfl

/-- A run that ends well has taken the first definition and then the others. -/
theorem ok_of_inTurn_cons (h : inTurn step s (e :: es) = .ok (ids, s'')) :
    ∃ id s' rest, step s e = .ok (id, s') ∧ inTurn step s' es = .ok (rest, s'') ∧
      ids = id :: rest := by
  rw [inTurn] at h
  obtain ⟨⟨id, s'⟩, hstep, h⟩ := bind_eq_ok h
  obtain ⟨⟨rest, t⟩, hrest, h⟩ := bind_eq_ok h
  obtain ⟨rfl, rfl⟩ := Prod.mk.inj (Except.ok.inj h)
  exact ⟨id, s', rest, hstep, hrest, rfl⟩

/-- A run that ends well can be stopped after its first definitions and taken up again. -/
theorem ok_of_inTurn_append (h : inTurn step s (before ++ after) = .ok (ids, s'')) :
    ∃ first s' rest, inTurn step s before = .ok (first, s') ∧
      inTurn step s' after = .ok (rest, s'') ∧ ids = first ++ rest := by
  induction before generalizing s ids with
  | nil => exact ⟨[], s, ids, rfl, h, rfl⟩
  | cons e before ih =>
    obtain ⟨id, s₁, others, hstep, hothers, rfl⟩ := ok_of_inTurn_cons h
    obtain ⟨first, s', rest, hfirst, hrest, rfl⟩ := ih hothers
    exact ⟨id :: first, s', rest, inTurn_cons_of_ok hstep hfirst, hrest, rfl⟩

end Step

/-- Identifiers given out are places among the definitions that are registered in the end. -/
theorem grows_inTurn (h : d.Sound) (hrun : inTurn register d es = .ok (ids, d')) :
    d.Grows es d' ∧ ids = es.map d'.idOf := by
  induction es generalizing d ids with
  | nil =>
    obtain ⟨rfl, rfl⟩ := Prod.mk.inj (Except.ok.inj hrun)
    exact ⟨.refl h, rfl⟩
  | cons e es ih =>
    obtain ⟨id, d₁, rest, hstep, hrest, rfl⟩ := ok_of_inTurn_cons hrun
    obtain ⟨hgrows, rfl⟩ := grows_register h hstep
    obtain ⟨hgrows', rfl⟩ := ih hgrows.sound hrest
    have hid := idOf_of_keeps (hgrows.known e List.mem_cons_self) hgrows'.keeps
    exact ⟨hgrows.trans hgrows', by rw [List.map_cons, hid]⟩

/-- As long as there are identifiers left, every definition gets one. -/
theorem exists_inTurn (h : d.Sound) (hroom : d.size + es.length ≤ idLimit) :
    ∃ r, inTurn register d es = .ok r := by
  induction es generalizing d with
  | nil => exact ⟨_, rfl⟩
  | cons e es ih =>
    rw [List.length_cons] at hroom
    by_cases he : d.Knows e
    · obtain ⟨r, hr⟩ := ih h (by omega)
      exact ⟨_, inTurn_cons_of_ok (register_of_knows h he) hr⟩
    · have hstep := register_of_not_knows he
      rw [if_pos (by omega)] at hstep
      have hsize : (d.push e).size = d.size + 1 := by simp [push, size]
      obtain ⟨r, hr⟩ := ih (h.push he) (by omega)
      exact ⟨_, inTurn_cons_of_ok hstep hr⟩

/-- A definition is put behind those of the draft, unless an equal one is there. -/
theorem definitions_of_register (h : d.Sound) (hstep : d.register e = .ok (id, d')) :
    d'.definitions =
      if d.definitions.any (· == e) then d.definitions else d.definitions ++ [e] := by
  by_cases he : d.Knows e
  · rw [register_of_knows h he] at hstep
    obtain ⟨_, rfl⟩ := Prod.mk.inj (Except.ok.inj hstep)
    rw [if_pos (knows_iff_any.1 he)]
  · rw [register_of_not_knows he] at hstep
    split at hstep
    · obtain ⟨_, rfl⟩ := Prod.mk.inj (Except.ok.inj hstep)
      rw [if_neg (mt knows_iff_any.2 he)]
      rfl
    · exact nomatch hstep

/-- The definitions of a draft are those registered so far, without the repeated ones. -/
theorem definitions_of_inTurn (h : d.Sound) (hd : d.definitions = before.eraseDups)
    (hrun : inTurn register d es = .ok (ids, d')) :
    d'.definitions = (before ++ es).eraseDups := by
  induction es generalizing d before ids with
  | nil =>
    obtain ⟨_, rfl⟩ := Prod.mk.inj (Except.ok.inj hrun)
    rw [List.append_nil, hd]
  | cons e es ih =>
    obtain ⟨id, d₁, rest, hstep, hrest, rfl⟩ := ok_of_inTurn_cons hrun
    have hd₁ : d₁.definitions = (before ++ [e]).eraseDups := by
      rw [definitions_of_register h hstep, hd, any_eraseDups, eraseDups_concat]
    rw [List.append_cons]
    exact ih (grows_register h hstep).1.sound hd₁ hrest

/-- A run that compares with every earlier definition comes to the same. -/
theorem inTurn_register_eq_scan (h : d.Sound) (es : List ErrorDef) :
    (inTurn register d es).map (fun r => (r.1, r.2.definitions)) =
      inTurn scan d.definitions es := by
  induction es generalizing d with
  | nil => rfl
  | cons e es ih =>
    have hscan := register_eq_scan h e
    rw [inTurn, inTurn, ← hscan]
    rcases hstep : d.register e with failure | ⟨id, d₁⟩
    · rfl
    · have hrest := ih (grows_register h hstep).1.sound
      change Except.map _ (inTurn register d₁ es >>= _) = (inTurn scan d₁.definitions es >>= _)
      rw [← hrest]
      rcases inTurn register d₁ es with failure | ⟨rest, d₂⟩ <;> rfl

/-! ## The numbering -/

/-- What is promised of the identifiers that a fresh draft gives to definitions, where `d` is the
draft in the end. -/
structure Numbered (es : List ErrorDef) (ids : List ErrorId) (d : Draft) : Prop where
  /-- Each registration is answered. -/
  length : ids.length = es.length
  /-- Definitions have one identifier if and only if they are equal. -/
  same : ∀ p ∈ es.zip ids, ∀ q ∈ es.zip ids, p.2 = q.2 ↔ (p.1 == q.1) = true
  /-- A definition that is new has the number of distinct definitions before it. -/
  fresh : ∀ before e after, es = before ++ e :: after → before.any (· == e) = false →
    ids[before.length]? = some ⟨before.eraseDups.length⟩
  /-- The draft is as large as there are distinct definitions. -/
  size : d.size = es.eraseDups.length
  /-- What was given out at any time stays, and so does what it stands for. -/
  stays : ∀ before after, es = before ++ after → ∃ first rest d₁, ids = first ++ rest ∧
    inTurn register {} before = .ok (first, d₁) ∧
    ∀ id ∈ first, d.catalog.find? id = d₁.catalog.find? id
  /-- The catalog has the identifiers below its size and no others. -/
  dense : d.catalog.size = d.size ∧ ∀ id, d.catalog.contains id = true ↔ id.val < d.size
  /-- An identifier stands for a definition that is equal to the one registered. -/
  found : ∀ p ∈ es.zip ids, ∃ x, d.catalog.find? p.2 = some x ∧ (x == p.1) = true
  /-- Comparing each definition with every earlier one gives the same identifiers. -/
  scanned : inTurn scan [] es = .ok (ids, d.definitions)

/-- The catalog has as many identifiers as there are definitions. -/
theorem size_catalog (d : Draft) : d.catalog.size = d.size := by
  have hplaces : ((List.range d.size).map ErrorId.mk).Nodup :=
    List.nodup_range.map fun _ _ h => ErrorId.mk.inj h
  have hperm : d.catalog.keys.Perm ((List.range d.size).map ErrorId.mk) := by
    rw [List.perm_ext_iff_of_nodup d.catalog.nodup_keys hplaces]
    intro id
    rw [Dict.mem_keys_iff, ← Option.isSome_iff_exists, List.mem_map]
    refine contains_catalog.trans ⟨fun h => ⟨id.val, List.mem_range.2 h, rfl⟩, ?_⟩
    rintro ⟨i, hi, rfl⟩
    exact List.mem_range.1 hi
  rw [← Dict.length_keys, hperm.length_eq, List.length_map, List.length_range]

/-- A definition of a draft stays under its identifier while the draft grows. -/
theorem find?_catalog_of_keeps (hkeeps : d.definitions <+: d'.definitions)
    (hid : id.val < d.size) : d'.catalog.find? id = d.catalog.find? id := by
  obtain ⟨rest, hrest⟩ := hkeeps
  rw [find?_catalog, find?_catalog, ← hrest, List.getElem?_append_left hid]

/-- Definitions that a draft knows have identifiers below its size. -/
theorem Knows.idOf_lt (h : d.Knows e) : (d.idOf e).val < d.size := by
  obtain ⟨x, hx, _⟩ := h.getElem?_idOf
  exact (List.getElem?_eq_some_iff.1 hx).1

section Run

variable (hrun : inTurn register {} es = .ok (ids, d))

include hrun

theorem definitions_of_run : d.definitions = es.eraseDups := by
  have hdefinitions : d.definitions = ([] ++ es).eraseDups :=
    definitions_of_inTurn .start rfl hrun
  exact hdefinitions

/-- A registration was given the identifier of its definition. -/
theorem idOf_of_mem_zip {p : ErrorDef × ErrorId} (hp : p ∈ es.zip ids) :
    d.Knows p.1 ∧ p.2 = d.idOf p.1 := by
  obtain ⟨hgrows, hids⟩ := grows_inTurn .start hrun
  have hpairs : es.zip (es.map d.idOf) = es.map fun x => (x, d.idOf x) := by
    simpa using List.zip_map' (f := id) (g := d.idOf) (l := es)
  rw [hids, hpairs, List.mem_map] at hp
  obtain ⟨x, hx, rfl⟩ := hp
  exact ⟨hgrows.known x hx, rfl⟩

/-- A definition that is new is given the number of distinct definitions before it. -/
theorem getElem?_of_fresh (hes : es = before ++ e :: after) (hnew : before.any (· == e) = false) :
    ids[before.length]? = some ⟨before.eraseDups.length⟩ := by
  subst hes
  obtain ⟨first, d₁, rest, hfirst, hrest, rfl⟩ := ok_of_inTurn_append hrun
  obtain ⟨id, d₂, others, hstep, _, rfl⟩ := ok_of_inTurn_cons hrest
  have hdefinitions := definitions_of_run hfirst
  have hunknown : ¬d₁.Knows e := by
    rw [knows_iff_any, hdefinitions, any_eraseDups, hnew]
    exact Bool.false_ne_true
  have hid : id = ⟨d₁.size⟩ := by
    rw [register_of_not_knows hunknown] at hstep
    split at hstep
    · exact (Prod.mk.inj (Except.ok.inj hstep)).1.symm
    · exact nomatch hstep
  have hlength : before.length = first.length := by
    rw [(grows_inTurn .start hfirst).2, List.length_map]
  rw [hlength, List.getElem?_append_right (Nat.le_refl _), Nat.sub_self, List.getElem?_cons_zero,
    hid, size, hdefinitions]

/-- What was given out before the run was over stays, and so does what it stands for. -/
theorem exists_earlier (hes : es = before ++ after) :
    ∃ first rest d₁, ids = first ++ rest ∧ inTurn register {} before = .ok (first, d₁) ∧
      ∀ id ∈ first, d.catalog.find? id = d₁.catalog.find? id := by
  subst hes
  obtain ⟨first, d₁, rest, hfirst, hrest, rfl⟩ := ok_of_inTurn_append hrun
  obtain ⟨hgrows, hids⟩ := grows_inTurn .start hfirst
  obtain ⟨hgrows', _⟩ := grows_inTurn hgrows.sound hrest
  refine ⟨first, rest, d₁, rfl, hfirst, fun id hid => ?_⟩
  rw [hids] at hid
  obtain ⟨x, hx, rfl⟩ := List.mem_map.1 hid
  exact find?_catalog_of_keeps hgrows'.keeps (hgrows.known x hx).idOf_lt

theorem numbered_of_run : Numbered es ids d where
  length := by rw [(grows_inTurn .start hrun).2, List.length_map]
  same p hp q hq := by
    obtain ⟨hpknown, hpid⟩ := idOf_of_mem_zip hrun hp
    obtain ⟨hqknown, hqid⟩ := idOf_of_mem_zip hrun hq
    rw [hpid, hqid]
    exact ⟨hpknown.beq_of_idOf hqknown, idOf_eq⟩
  fresh _ _ _ hes hnew := getElem?_of_fresh hrun hes hnew
  size := by rw [size, definitions_of_run hrun]
  stays _ _ hes := exists_earlier hrun hes
  dense := ⟨size_catalog d, fun _ => contains_catalog⟩
  found p hp := by
    obtain ⟨hknown, hid⟩ := idOf_of_mem_zip hrun hp
    rw [hid, find?_catalog]
    exact hknown.getElem?_idOf
  scanned := by
    have hscan := inTurn_register_eq_scan .start es
    rw [hrun] at hscan
    exact hscan.symm

end Run

/-- As many definitions as there are identifiers can be registered with a fresh draft, and it
numbers them in the order in which they first come. -/
theorem definitions_are_numbered (h : es.length ≤ idLimit) :
    ∃ ids d, inTurn register {} es = .ok (ids, d) ∧ Numbered es ids d := by
  obtain ⟨⟨ids, d⟩, hrun⟩ := exists_inTurn (d := {}) .start (by simpa [size] using h)
  exact ⟨ids, d, hrun, numbered_of_run hrun⟩

/-- Definitions that agree in codes and message.  The first and the third are equal, since the two
zeros are; the last one is the second again. -/
def leastWeights : List ErrorDef :=
  [{ message := some "Least", args := [⟨"least", .number (.double (.zero false))⟩] },
    { message := some "Least", args := [⟨"least", .number (.whole 0)⟩] },
    { message := some "Least", args := [⟨"least", .number (.double (.zero true))⟩] },
    { message := some "Least" },
    { message := some "Least", args := [⟨"least", .number (.whole 0)⟩] }]

theorem definitions_are_numbered_leastWeights :
    leastWeights.length ≤ idLimit ∧
    ∃ ids d, inTurn register {} leastWeights = .ok (ids, d) ∧ Numbered leastWeights ids d ∧
      ids = [⟨0⟩, ⟨1⟩, ⟨0⟩, ⟨2⟩, ⟨1⟩] ∧ d.size = 3 := by
  have hlimit : leastWeights.length ≤ idLimit := by decide
  obtain ⟨ids, d, hrun, hnumbered⟩ := definitions_are_numbered hlimit
  have hanswer : inTurn register {} leastWeights =
      .ok ([⟨0⟩, ⟨1⟩, ⟨0⟩, ⟨2⟩, ⟨1⟩], _) := rfl
  obtain ⟨rfl, rfl⟩ := Prod.mk.inj (Except.ok.inj (hrun.symm.trans hanswer))
  exact ⟨hlimit, _, _, hrun, hnumbered, rfl, rfl⟩

end Rulebook.Catalog.Draft
