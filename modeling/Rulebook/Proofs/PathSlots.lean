import Mathlib.Algebra.Order.BigOperators.Group.List
import Mathlib.Algebra.Order.Group.Nat
import Rulebook.Proofs.Rendering

/-!
# Where a message depends on the path

`usesPath` looks for the two slots of the path as mere text.  The renderer fills such a slot only
where a slot can begin: if the text in front of it leaves a brace open, then the slot began at
that brace, has a longer name, and stands for no path.

So each of the two has a rule of its own, and they differ by one condition
(`path_matters_outside_braces`).  A reading of a text is put together from readings of its parts,
and as a text has one reading only (`decomposes_iff`), this says which pieces there are around a
slot.
-/

namespace Rulebook.Template

/-- There are two paths at which the template reads differently, without any arguments. -/
def PathMatters (template : String) : Prop :=
  ∃ p q : String, render template [] (some p) ≠ render template [] (some q)

/-- The text opens a brace that it does not close. -/
def LeavesOpen (text : String) : Prop :=
  ∃ before name : String, text = before ++ "\x7b" ++ name ∧ '}' ∉ name.toList

/-- A slot of the path, as it is written, stands between the two parts of the template. -/
structure Occurs (name template before after : String) : Prop where
  isPathSlot : name = "_path" ∨ name = "_name"
  split : template = before ++ "\x7b" ++ name ++ "\x7d" ++ after

variable {name template before after : String}

theorem Occurs.eq_braced (h : Occurs name template before after) :
    template = before ++ braced name ++ after := by
  simp only [h.split, braced, String.append_assoc]

theorem Occurs.closing_not_mem (h : Occurs name template before after) : '}' ∉ name.toList := by
  rcases h.isPathSlot with rfl | rfl <;> decide

theorem occurs_iff :
    Occurs name template before after ↔
      (name = "_path" ∨ name = "_name") ∧ template = before ++ braced name ++ after := by
  refine ⟨fun h => ⟨h.isPathSlot, h.eq_braced⟩, fun ⟨hname, htext⟩ => ⟨hname, ?_⟩⟩
  simp only [htext, braced, String.append_assoc]

/-! ## Readings of the parts of a text -/

variable {ps qs : List Piece} {q : Piece} {a b : String}

theorem Decomposes.append (hps : Decomposes ps a) (hqs : Decomposes qs b)
    (hseam : ∀ p ∈ ps.getLast?, ∀ q ∈ qs.head?, p.Precedes q) :
    Decomposes (ps ++ qs) (a ++ b) where
  proper := List.forall_mem_append.2 ⟨hps.proper, hqs.proper⟩
  chain := List.isChain_append.2 ⟨hps.chain, hqs.chain, hseam⟩
  source := by rw [List.map_append, String.join_append, hps.source, hqs.source]

/-- A piece with a brace can stand behind all pieces that do not leave one open. -/
theorem Decomposes.concat (hps : Decomposes ps a) (hclosed : ∀ s, .tail s ∉ ps) (hq : q.Proper)
    (hbrace : ∀ s, q ≠ .text s) : Decomposes (ps ++ [q]) (a ++ q.source) := by
  have hlast : Decomposes [q] q.source :=
    ⟨by simpa using hq, List.isChain_singleton q, by simp⟩
  refine hps.append hlast fun p hp r hr => ?_
  obtain rfl : q = r := Option.some.inj hr
  cases p with
  | tail s => exact absurd (List.mem_of_getLast? hp) (hclosed s)
  | text s =>
    cases q with
    | text t => exact absurd rfl (hbrace t)
    | slot name => trivial
    | tail t => trivial
  | slot name => cases q <;> trivial

theorem Decomposes.of_append (h : Decomposes (ps ++ qs) template) :
    ∃ a b, template = a ++ b ∧ Decomposes ps a ∧ Decomposes qs b := by
  have hproper := List.forall_mem_append.1 h.proper
  obtain ⟨hps, hqs, -⟩ := List.isChain_append.1 h.chain
  refine ⟨_, _, ?_, ⟨hproper.1, hps, rfl⟩, ⟨hproper.2, hqs, rfl⟩⟩
  rw [← String.join_append, ← List.map_append, h.source]

theorem tail_not_mem_of_append (h : Decomposes (ps ++ q :: qs) a)
    (s : String) : .tail s ∉ ps := by
  intro hs
  obtain ⟨init, rest, rfl⟩ := List.append_of_mem hs
  have hchain := h.chain
  rw [List.append_assoc, List.cons_append] at hchain
  have hnext := (List.isChain_append.1 hchain).2.1
  cases rest with
  | nil => exact (List.isChain_cons_cons.1 hnext).1.elim
  | cons r rest => exact (List.isChain_cons_cons.1 hnext).1.elim

/-- What is left open is the last piece, and another piece with a brace can stand in its place. -/
theorem eq_concat_tail (h : Decomposes ps a) {s : String} (hs : .tail s ∈ ps) :
    ∃ init before, ps = init ++ [.tail s] ∧ a = before ++ "\x7b" ++ s ∧ '}' ∉ s.toList ∧
      ∀ q : Piece, q.Proper → (∀ t, q ≠ .text t) →
        Decomposes (init ++ [q]) (before ++ q.source) := by
  obtain ⟨init, rest, rfl⟩ := List.append_of_mem hs
  cases rest with
  | nil =>
    obtain ⟨before, last, rfl, hbefore, hlast⟩ := h.of_append
    have hsource : "\x7b" ++ s = last := by simpa [Piece.source] using hlast.source
    refine ⟨init, before, rfl, ?_, hlast.proper _ (List.mem_singleton_self _),
      fun q => hbefore.concat (tail_not_mem_of_append h)⟩
    rw [← hsource, String.append_assoc]
  | cons r rest =>
    have hagain : Decomposes ((init ++ [.tail s]) ++ r :: rest) a := by
      rw [List.append_assoc]
      exact h
    exact absurd (by simp) (tail_not_mem_of_append hagain s)

/-! ## Texts that leave a brace open -/

theorem leavesOpen_iff (h : Decomposes ps a) : LeavesOpen a ↔ ∃ s, .tail s ∈ ps := by
  constructor
  · rintro ⟨before, name, rfl, hname⟩
    by_cases hopen : ∃ s, .tail s ∈ pieces before
    · obtain ⟨s, hmem⟩ := hopen
      obtain ⟨init, start, -, hbefore, hs, hinstead⟩ :=
        eq_concat_tail (decomposes_pieces before) hmem
      have hproper : (Piece.tail (s ++ "\x7b" ++ name)).Proper := by
        simp [Piece.Proper, hs, hname]
      have hreading := hinstead _ hproper (by simp)
      have htext : start ++ (Piece.tail (s ++ "\x7b" ++ name)).source =
          before ++ "\x7b" ++ name := by
        simp only [Piece.source, hbefore, String.append_assoc]
      rw [htext] at hreading
      rw [decomposes_iff.1 h, ← decomposes_iff.1 hreading]
      exact ⟨_, List.mem_append_right _ (List.mem_singleton_self _)⟩
    · rw [not_exists] at hopen
      have hproper : (Piece.tail name).Proper := hname
      have hreading := (decomposes_pieces before).concat hopen hproper (by simp)
      rw [Piece.source, ← String.append_assoc] at hreading
      rw [decomposes_iff.1 h, ← decomposes_iff.1 hreading]
      exact ⟨name, by simp⟩
  · rintro ⟨s, hs⟩
    obtain ⟨-, before, -, ha, hclose, -⟩ := eq_concat_tail h hs
    exact ⟨before, s, ha, hclose⟩

/-! ## A slot between two texts -/

/-- Whatever comes behind a slot is read for itself. -/
theorem Decomposes.append_slot (hslot : Decomposes (ps ++ [.slot name]) a) (b : String) :
    Decomposes (ps ++ .slot name :: pieces b) (a ++ b) := by
  have hreading := hslot.append (decomposes_pieces b) fun p hp q _ => by
    rw [List.getLast?_concat] at hp
    obtain rfl : _ = p := Option.some.inj hp
    cases q <;> trivial
  rwa [List.append_assoc, List.singleton_append] at hreading

/-- Behind a text that leaves no brace open a slot is a piece of its own. -/
theorem pieces_of_closed (hclosed : ¬LeavesOpen a) (hname : '}' ∉ name.toList) (b : String) :
    pieces (a ++ braced name ++ b) = pieces a ++ .slot name :: pieces b := by
  have htails : ∀ s, .tail s ∉ pieces a := by
    simpa [leavesOpen_iff (decomposes_pieces a)] using hclosed
  have hslot := (decomposes_pieces a).concat (q := .slot name) htails hname (by simp)
  exact (decomposes_iff.1 (hslot.append_slot b)).symm

/-- Behind an open brace, the brace of a slot and its name belong to a longer name. -/
theorem pieces_of_open (hopen : LeavesOpen a) (hname : '}' ∉ name.toList) (b : String) :
    ∃ init s, pieces a = init ++ [.tail s] ∧
      pieces (a ++ braced name ++ b) = init ++ .slot (s ++ "\x7b" ++ name) :: pieces b := by
  obtain ⟨s, hmem⟩ := (leavesOpen_iff (decomposes_pieces a)).1 hopen
  obtain ⟨init, start, hinit, hstart, hs, hinstead⟩ := eq_concat_tail (decomposes_pieces a) hmem
  have hproper : (Piece.slot (s ++ "\x7b" ++ name)).Proper := by simp [Piece.Proper, hs, hname]
  have hslot := hinstead _ hproper (by simp)
  have htext : start ++ (Piece.slot (s ++ "\x7b" ++ name)).source = a ++ braced name := by
    simp only [Piece.source, braced, hstart, String.append_assoc]
  rw [htext] at hslot
  exact ⟨init, s, hinit, (decomposes_iff.1 (hslot.append_slot b)).symm⟩

theorem render_of_closed (hclosed : ¬LeavesOpen a) (hname : '}' ∉ name.toList) (b : String)
    (args : List Argument) (path : Option String) :
    render (a ++ braced name ++ b) args path =
      render a args path ++ (Piece.slot name).rendered args path ++ render b args path := by
  rw [render, pieces_of_closed hclosed hname, List.map_append, List.map_cons, String.join_append,
    String.join_cons, ← String.append_assoc]
  rfl

theorem rendered_slot_of_brace (hbrace : '{' ∈ name.toList) (path : Option String) :
    (Piece.slot name).rendered [] path = braced name := by
  have hleft : LeftToArguments path name := by
    refine .inr ⟨?_, ?_⟩ <;>
      · rintro rfl
        revert hbrace
        decide
  rw [Piece.rendered, filling?_of_left hleft]
  rfl

theorem render_of_open (hopen : LeavesOpen a) (hname : '}' ∉ name.toList) (b : String)
    (path : Option String) :
    render (a ++ braced name ++ b) [] path =
      render a [] path ++ braced name ++ render b [] path := by
  obtain ⟨init, s, ha, hall⟩ := pieces_of_open hopen hname b
  have hlonger : (Piece.slot (s ++ "\x7b" ++ name)).rendered [] path =
      braced (s ++ "\x7b" ++ name) := rendered_slot_of_brace (by simp) path
  rw [render, hall, List.map_append, List.map_cons, String.join_append, String.join_cons, hlonger,
    render, ha, List.map_append, String.join_append, ← render]
  simp [Piece.rendered, Piece.source, braced, String.append_assoc]

/-! ## Templates that read differently at two paths -/

theorem rendered_length_le (p : Piece) :
    (p.rendered [] (some "")).length ≤ (p.rendered [] (some "x")).length := by
  cases p with
  | text s => exact Nat.le_refl _
  | tail s => exact Nat.le_refl _
  | slot name =>
    by_cases hpath : name = pathSlot
    · subst hpath; decide
    · by_cases hlast : name = nameSlot
      · subst hlast; decide
      · rw [Piece.rendered, Piece.rendered, filling?_some_of_ne hpath hlast,
          filling?_some_of_ne hpath hlast]

/-- A longer path does not make a message shorter. -/
theorem render_length_le (template : String) :
    (render template [] (some "")).length ≤ (render template [] (some "x")).length := by
  simp only [render, String.length_join, List.map_map]
  exact List.sum_le_sum fun p _ => rendered_length_le p

/-- Where a slot of the path can begin, a longer path gives a longer message. -/
theorem Occurs.pathMatters (h : Occurs name template before after)
    (hclosed : ¬LeavesOpen before) : PathMatters template := by
  refine ⟨"", "x", fun heq => ?_⟩
  have hslot : ((Piece.slot name).rendered [] (some "")).length <
      ((Piece.slot name).rendered [] (some "x")).length := by
    rcases h.isPathSlot with rfl | rfl <;> decide
  rw [h.eq_braced, render_of_closed hclosed h.closing_not_mem,
    render_of_closed hclosed h.closing_not_mem] at heq
  have hlengths := congrArg String.length heq
  have hbefore := render_length_le before
  have hafter := render_length_le after
  simp only [String.length_append] at hlengths
  omega

/-- Where two paths give two texts, one of the pieces is a slot of the path. -/
theorem PathMatters.exists_slot (h : PathMatters template) :
    ∃ name, .slot name ∈ pieces template ∧ (name = "_path" ∨ name = "_name") := by
  by_contra hnone
  obtain ⟨p, q, hne⟩ := h
  refine hne (congrArg String.join (List.map_congr_left fun piece hpiece => ?_))
  cases piece with
  | text s => rfl
  | tail s => rfl
  | slot name =>
    have hpath : name ≠ pathSlot := fun h => hnone ⟨name, hpiece, .inl h⟩
    have hlast : name ≠ nameSlot := fun h => hnone ⟨name, hpiece, .inr h⟩
    rw [Piece.rendered, Piece.rendered, filling?_some_of_ne hpath hlast,
      filling?_some_of_ne hpath hlast]

/-- A slot among the pieces stands in the template, behind a text that leaves no brace open. -/
theorem exists_split_of_mem (h : .slot name ∈ pieces template) :
    ∃ before after, template = before ++ braced name ++ after ∧ ¬LeavesOpen before := by
  obtain ⟨ps, qs, hpieces⟩ := List.append_of_mem h
  have hreading := decomposes_pieces template
  rw [hpieces] at hreading
  obtain ⟨before, rest, hbefore, hps, hrest⟩ := hreading.of_append
  have hopen : ¬LeavesOpen before := by
    rw [leavesOpen_iff hps, not_exists]
    exact tail_not_mem_of_append hreading
  have hboth : Decomposes ([.slot name] ++ qs) rest := hrest
  obtain ⟨slot, after, hslot, hone, -⟩ := hboth.of_append
  have hsource : braced name = slot := by simpa [Piece.source] using hone.source
  exact ⟨before, after, by rw [hbefore, hslot, hsource, String.append_assoc], hopen⟩

theorem pathMatters_iff :
    PathMatters template ↔
      ∃ name before after, Occurs name template before after ∧ ¬LeavesOpen before := by
  constructor
  · intro h
    obtain ⟨name, hmem, hname⟩ := h.exists_slot
    obtain ⟨before, after, htext, hclosed⟩ := exists_split_of_mem hmem
    exact ⟨name, before, after, occurs_iff.2 ⟨hname, htext⟩, hclosed⟩
  · rintro ⟨name, before, after, hoccurs, hclosed⟩
    exact hoccurs.pathMatters hclosed

theorem usesPath_iff :
    usesPath template = true ↔ ∃ name before after, Occurs name template before after := by
  have hinfix (name : String) : (braced name).toList <:+: template.toList ↔
      ∃ before after, template = before ++ braced name ++ after := by
    constructor
    · rintro ⟨before, after, h⟩
      refine ⟨String.ofList before, String.ofList after, ?_⟩
      rw [← String.toList_inj, ← h]
      simp
    · rintro ⟨before, after, rfl⟩
      exact ⟨before.toList, after.toList, by simp⟩
  simp only [usesPath, Bool.or_eq_true, Text.occursIn_iff, hinfix, occurs_iff, pathSlot, nameSlot,
    exists_and_left, or_and_right, exists_or, exists_eq_left]

/-- The search finds a slot of the path wherever one is written.  The message depends on the path
if one of them stands behind a text that leaves no brace open; so the two agree unless there are
slots of the path but each of them stands behind an open brace.  By the same condition an
occurrence is filled in, or else stays as it is. -/
theorem path_matters_outside_braces (template : String) :
    (usesPath template = true ↔ ∃ name before after, Occurs name template before after) ∧
    (PathMatters template ↔
      ∃ name before after, Occurs name template before after ∧ ¬LeavesOpen before) ∧
    ((usesPath template = true ↔ PathMatters template) ↔
      ((∃ name before after, Occurs name template before after) →
        ∃ name before after, Occurs name template before after ∧ ¬LeavesOpen before)) ∧
    (∀ name before after, Occurs name template before after → ∀ path,
      (¬LeavesOpen before → ∀ args value, Filled args (some path) (.slot name) value →
        render template args (some path) =
          render before args (some path) ++ value ++ render after args (some path)) ∧
      (LeavesOpen before →
        render template [] (some path) =
          render before [] (some path) ++ "\x7b" ++ name ++ "\x7d" ++
            render after [] (some path))) := by
  refine ⟨usesPath_iff, pathMatters_iff, ?_, fun name before after h path => ⟨?_, ?_⟩⟩
  · rw [usesPath_iff, pathMatters_iff]
    constructor
    · exact Iff.mp
    · intro h
      refine ⟨h, ?_⟩
      rintro ⟨name, before, after, hoccurs, -⟩
      exact ⟨name, before, after, hoccurs⟩
  · intro hclosed args value hvalue
    rw [h.eq_braced, render_of_closed hclosed h.closing_not_mem, filled_iff.1 hvalue]
  · intro hopen
    rw [h.eq_braced, render_of_open hopen h.closing_not_mem]
    simp only [braced, String.append_assoc]

/-- A second brace in front of a slot takes the slot in: the search finds it, but no path is
filled in. -/
theorem slot_in_brace_stays :
    ¬(usesPath "\x7b\x7b_path\x7d" = true ↔ PathMatters "\x7b\x7b_path\x7d") ∧
      ∀ path, render "\x7b\x7b_path\x7d" [] (some path) = "\x7b\x7b_path\x7d" := by
  have hstays (path : String) :
      render "\x7b\x7b_path\x7d" [] (some path) = "\x7b\x7b_path\x7d" := rfl
  refine ⟨fun hiff => ?_, hstays⟩
  obtain ⟨p, q, hne⟩ := hiff.1 (by decide)
  rw [hstays, hstays] at hne
  exact hne rfl

end Rulebook.Template
