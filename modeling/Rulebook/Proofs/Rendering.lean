import Mathlib.Data.List.Chain
import Mathlib.Data.List.Forall2
import Mathlib.Data.List.TakeWhile
import Rulebook.Proofs.Pieces

/-!
# Rendering in a single pass

A text can be read as a template in one way only.  `Decomposes` says what a reading is, with no
look at how a template is cut, and `pieces` finds the reading (`decomposes_iff`).

`Filled` has the rules by which a piece becomes a part of the message.  They do not mention the
text around the piece, nor what became of the pieces before it.  So a message is its pieces filled
in one by one, and a brace that comes in with a value is never taken for one of the template.

`Loop` writes the message from the front, without pieces: it copies up to a brace, fills one slot,
and goes on with what is left.  That comes to the same message (`loop_iff`).
-/

namespace Rulebook

/-! ## Last segments -/

/-- The text is what stands behind the last point of a path, or the whole path. -/
def Path.IsLastSegment (path s : String) : Prop :=
  '.' ∉ s.toList ∧ (path = s ∨ ∃ before, path = before ++ "." ++ s)

theorem Path.isLastSegment_iff {path s : String} :
    IsLastSegment path s ↔ lastSegment path = s := by
  unfold IsLastSegment lastSegment
  constructor
  · rintro ⟨hpoint, rfl | ⟨before, rfl⟩⟩
    · have htake : path.toList.reverse.takeWhile (· ≠ '.') = path.toList.reverse := by
        rw [List.takeWhile_eq_self_iff]
        intro c hc
        have hne : c ≠ '.' := fun h => hpoint (h ▸ List.mem_reverse.1 hc)
        simpa using hne
      rw [htake, List.reverse_reverse, String.ofList_toList]
    · have hlast : ∀ c ∈ s.toList.reverse, (c ≠ '.' : Bool) = true := by
        intro c hc
        have hne : c ≠ '.' := fun h => hpoint (h ▸ List.mem_reverse.1 hc)
        simpa using hne
      have hchars : (before ++ "." ++ s).toList.reverse =
          s.toList.reverse ++ '.' :: before.toList.reverse := by simp
      rw [hchars, List.takeWhile_append_of_pos hlast, List.takeWhile_cons_of_neg (by decide),
        List.append_nil, List.reverse_reverse, String.ofList_toList]
  · rintro rfl
    refine ⟨fun h => ?_, ?_⟩
    · rw [String.toList_ofList, List.mem_reverse] at h
      simpa using List.mem_takeWhile_imp h
    · have hsplit := List.takeWhile_append_dropWhile (p := (· ≠ '.')) (l := path.toList.reverse)
      cases hrest : path.toList.reverse.dropWhile (· ≠ '.') with
      | nil =>
        rw [hrest, List.append_nil] at hsplit
        left
        rw [hsplit, List.reverse_reverse, String.ofList_toList]
      | cons c before =>
        have hpoint := List.head?_dropWhile_not (fun c : Char => c ≠ '.') path.toList.reverse
        rw [hrest, List.head?_cons] at hpoint
        obtain rfl : c = '.' := by simpa using hpoint
        right
        refine ⟨String.ofList before.reverse, ?_⟩
        have hchars := congrArg List.reverse hsplit
        rw [hrest, List.reverse_reverse] at hchars
        rw [← String.toList_inj]
        exact hchars.symm.trans (by simp)

namespace Template

/-! ## Readings of a text -/

/-- Literal text is not empty and opens no brace; a slot ends with the first brace that closes,
and behind a brace that is never closed there is none. -/
def Piece.Proper : Piece → Prop
  | text s => s ≠ "" ∧ '{' ∉ s.toList
  | slot name => '}' ∉ name.toList
  | tail s => '}' ∉ s.toList

/-- A piece can stand in front of another one: literal text goes on as far as it can, and nothing
comes behind a brace that is never closed. -/
def Piece.Precedes : Piece → Piece → Prop
  | tail _, _ => False
  | text _, text _ => False
  | _, _ => True

/-- The pieces are a reading of the text. -/
structure Decomposes (ps : List Piece) (template : String) : Prop where
  proper : ∀ p ∈ ps, p.Proper
  chain : ps.IsChain Piece.Precedes
  source : String.join (ps.map Piece.source) = template

/-! ### Cutting a text of which a reading is known -/

theorem cut_append {l : List Char} (hl : '{' ∉ l) (read rest : List Char) :
    cut false read (l ++ rest) = cut false (l.reverse ++ read) rest := by
  induction l generalizing read with
  | nil => rfl
  | cons c l ih =>
    rw [List.mem_cons, not_or] at hl
    rw [List.cons_append, cut, if_neg Bool.false_ne_true, if_neg (Ne.symm hl.1), ih hl.2]
    simp

theorem cut_brace (read rest : List Char) :
    cut false read ('{' :: rest) = textPiece read ++ cut true [] rest := by
  rw [cut, if_neg Bool.false_ne_true, if_pos rfl]

theorem cut_slot {l : List Char} (hl : '}' ∉ l) (read rest : List Char) :
    cut true read (l ++ '}' :: rest) =
      .slot (String.ofList (read.reverse ++ l)) :: cut false [] rest := by
  induction l generalizing read with
  | nil => simp [cut]
  | cons c l ih =>
    rw [List.mem_cons, not_or] at hl
    rw [List.cons_append, cut, if_pos rfl, if_neg (Ne.symm hl.1), ih hl.2]
    simp

theorem cut_tail {l : List Char} (hl : '}' ∉ l) (read : List Char) :
    cut true read l = [.tail (String.ofList (read.reverse ++ l))] := by
  induction l generalizing read with
  | nil => simp [cut]
  | cons c l ih =>
    rw [List.mem_cons, not_or] at hl
    rw [cut, if_pos rfl, if_neg (Ne.symm hl.1), ih hl.2]
    simp

theorem textPiece_reverse {s : String} (hs : s ≠ "") :
    textPiece s.toList.reverse = [.text s] := by
  cases hread : s.toList.reverse with
  | nil => exact absurd (String.toList_eq_nil_iff.1 (List.reverse_eq_nil_iff.1 hread)) hs
  | cons c read => rw [textPiece, ← hread, List.reverse_reverse, String.ofList_toList]

/-- Literal text is over where the text ends and where a brace opens. -/
theorem cut_text {s : String} (hs : s ≠ "") (hopen : '{' ∉ s.toList) {rest : List Char}
    (hrest : ∀ c ∈ rest.head?, c = '{') :
    cut false [] (s.toList ++ rest) = .text s :: cut false [] rest := by
  rw [cut_append hopen, List.append_nil]
  cases rest with
  | nil => exact textPiece_reverse hs
  | cons c rest =>
    obtain rfl : c = '{' := hrest c rfl
    rw [cut_brace, cut_brace, textPiece_reverse hs]
    rfl

/-- Cutting what pieces are written as gives the pieces. -/
theorem cut_written {ps : List Piece} (hproper : ∀ p ∈ ps, p.Proper)
    (hchain : ps.IsChain Piece.Precedes) : cut false [] (written ps) = ps := by
  induction ps with
  | nil => rfl
  | cons p rest ih =>
    rw [List.forall_mem_cons] at hproper
    have hrest := ih hproper.2 hchain.of_cons
    rw [written_cons]
    cases p with
    | text s =>
      have hopens : ∀ c ∈ (written rest).head?, c = '{' := by
        cases rest with
        | nil => simp [written]
        | cons q rest =>
          have hprecedes := (List.isChain_cons_cons.1 hchain).1
          rw [written_cons]
          cases q with
          | text s => exact hprecedes.elim
          | slot name => simp [Piece.source, toList_braced]
          | tail s => simp [Piece.source]
      rw [Piece.source, cut_text hproper.1.1 hproper.1.2 hopens, hrest]
    | slot name =>
      rw [Piece.source, toList_braced, List.cons_append, List.append_assoc, List.singleton_append,
        cut_brace, cut_slot hproper.1, hrest, List.reverse_nil, List.nil_append,
        String.ofList_toList]
      rfl
    | tail s =>
      have hnil : rest = [] := by
        cases rest with
        | nil => rfl
        | cons q rest => exact (List.isChain_cons_cons.1 hchain).1.elim
      have hsource : (Piece.tail s).source.toList = '{' :: s.toList := by simp [Piece.source]
      rw [hnil, hsource, written, List.flatMap_nil, List.append_nil, cut_brace,
        cut_tail hproper.1, List.reverse_nil, List.nil_append, String.ofList_toList]
      rfl

/-! ### The reading that is found -/

/-- The brace that ends what is being read. -/
def stop (inSlot : Bool) : Char := if inSlot then '}' else '{'

theorem proper_textPiece {read : List Char} (h : '{' ∉ read) :
    ∀ p ∈ textPiece read, p.Proper := by
  cases read with
  | nil => simp [textPiece]
  | cons c cs =>
    simp only [textPiece, List.mem_singleton, forall_eq, Piece.Proper, String.toList_ofList,
      List.mem_reverse]
    refine ⟨fun hempty => ?_, h⟩
    have hnil := congrArg String.toList hempty
    simp at hnil

theorem proper_cut {inSlot : Bool} {read : List Char} (h : stop inSlot ∉ read)
    (chars : List Char) : ∀ p ∈ cut inSlot read chars, p.Proper := by
  induction chars generalizing inSlot read with
  | nil =>
    cases inSlot with
    | false => exact proper_textPiece h
    | true => simpa [cut, Piece.Proper, stop] using h
  | cons c rest ih =>
    have hempty (inSlot : Bool) : stop inSlot ∉ ([] : List Char) := List.not_mem_nil
    have hread (hc : c ≠ stop inSlot) : stop inSlot ∉ c :: read := by
      rw [List.mem_cons, not_or]
      exact ⟨Ne.symm hc, h⟩
    cases inSlot with
    | false =>
      rw [cut, if_neg Bool.false_ne_true]
      split
      · rw [List.forall_mem_append]
        exact ⟨proper_textPiece h, ih (hempty true)⟩
      · rename_i hc
        exact ih (hread hc)
    | true =>
      rw [cut, if_pos rfl]
      split
      · rw [List.forall_mem_cons]
        refine ⟨?_, ih (hempty false)⟩
        simpa [Piece.Proper, stop] using h
      · rename_i hc
        exact ih (hread hc)

/-- What begins with a brace that is open is no literal text. -/
theorem ne_text_of_mem_head? {p : Piece} {read chars : List Char}
    (hp : p ∈ (cut true read chars).head?) (s : String) : p ≠ .text s := by
  induction chars generalizing read with
  | nil =>
    obtain rfl : _ = p := Option.some.inj hp
    exact Piece.noConfusion
  | cons c rest ih =>
    rw [cut, if_pos rfl] at hp
    split at hp
    · obtain rfl : _ = p := Option.some.inj hp
      exact Piece.noConfusion
    · exact ih hp

theorem chain_cut (inSlot : Bool) (read chars : List Char) :
    (cut inSlot read chars).IsChain Piece.Precedes := by
  induction chars generalizing inSlot read with
  | nil =>
    cases inSlot with
    | false => cases read <;> simp [cut, textPiece]
    | true => exact List.isChain_singleton _
  | cons c rest ih =>
    cases inSlot with
    | false =>
      rw [cut, if_neg Bool.false_ne_true]
      split
      · cases read with
        | nil => exact ih true []
        | cons d read =>
          refine List.isChain_cons.2 ⟨fun q hq => ?_, ih true []⟩
          cases q with
          | text s => exact absurd rfl (ne_text_of_mem_head? hq s)
          | slot name => trivial
          | tail s => trivial
      · exact ih false _
    | true =>
      rw [cut, if_pos rfl]
      split
      · exact List.isChain_cons.2 ⟨fun q _ => by cases q <;> trivial, ih false []⟩
      · exact ih true _

theorem decomposes_pieces (template : String) : Decomposes (pieces template) template where
  proper := proper_cut List.not_mem_nil template.toList
  chain := chain_cut false [] template.toList
  source := join_source_pieces template

/-- A text has one reading, and it is the one that is found. -/
theorem decomposes_iff {ps : List Piece} {template : String} :
    Decomposes ps template ↔ ps = pieces template := by
  constructor
  · intro h
    have hwritten : template.toList = written ps := by
      rw [← h.source, String.toList_join, List.flatMap_map]
      rfl
    rw [pieces, hwritten, cut_written h.proper h.chain]
  · rintro rfl
    exact decomposes_pieces template

/-! ## Filling pieces in -/

/-- The name is not one that stands for the path, or there is no path. -/
def LeftToArguments (path : Option String) (name : String) : Prop :=
  path = none ∨ name ≠ "_path" ∧ name ≠ "_name"

/-- What a piece becomes in a message. -/
inductive Filled (args : List Argument) (path : Option String) : Piece → String → Prop where
  | text (s : String) : Filled args path (.text s) s
  | tail (s : String) : Filled args path (.tail s) ("\x7b" ++ s)
  | path {p : String} (hpath : path = some p) : Filled args path (.slot "_path") p
  | name {p s : String} (hpath : path = some p) (hs : Path.IsLastSegment p s) :
    Filled args path (.slot "_name") s
  /-- The first argument of the name is a text. -/
  | string {name s : String} {before after : List Argument} (hname : LeftToArguments path name)
    (hargs : args = before ++ ⟨name, .string s⟩ :: after)
    (hfirst : ∀ a ∈ before, a.name ≠ name) : Filled args path (.slot name) s
  /-- The first argument of the name is another value. -/
  | json {name : String} {j : Json.Sorted} {before after : List Argument}
    (hname : LeftToArguments path name) (hargs : args = before ++ ⟨name, j⟩ :: after)
    (hfirst : ∀ a ∈ before, a.name ≠ name) (hj : ∀ s, j ≠ .string s) :
    Filled args path (.slot name) j.json.text
  /-- No argument has the name. -/
  | unknown {name : String} (hname : LeftToArguments path name)
    (hnone : ∀ a ∈ args, a.name ≠ name) :
    Filled args path (.slot name) ("\x7b" ++ name ++ "\x7d")

variable {args : List Argument} {path : Option String}

theorem filling?_of_left {name : String} (h : LeftToArguments path name) :
    filling? args path name = (args.find? (·.name = name)).map (displayed ·.value.json) := by
  rcases h with rfl | ⟨hpath, hname⟩
  · rfl
  · cases path with
    | none => rfl
    | some p => exact filling?_some_of_ne hpath hname args p

theorem find?_of_first {name : String} {j : Json.Sorted} {before after : List Argument}
    (hfirst : ∀ a ∈ before, a.name ≠ name) :
    (before ++ ⟨name, j⟩ :: after).find? (·.name = name) = some ⟨name, j⟩ := by
  have hnone : before.find? (·.name = name) = none := by simpa using hfirst
  rw [List.find?_append, hnone, Option.none_or, List.find?_cons_of_pos (by simp)]

/-- A value that is not a text is displayed as it is written. -/
theorem displayed_of_ne {j : Json.Sorted} (h : ∀ s, j ≠ .string s) :
    displayed j.json = j.json.text := by
  induction j with
  | string s => exact absurd rfl (h s)
  | _ => rfl

theorem rendered_of_filled {p : Piece} {s : String} (h : Filled args path p s) :
    p.rendered args path = s := by
  cases h with
  | text s => rfl
  | tail s => rfl
  | path hpath => subst hpath; rfl
  | name hpath hs =>
    subst hpath
    exact Path.isLastSegment_iff.1 hs
  | string hname hargs hfirst =>
    subst hargs
    rw [Piece.rendered, filling?_of_left hname, find?_of_first hfirst]
    rfl
  | @json name j _ _ hname hargs hfirst hj =>
    subst hargs
    rw [Piece.rendered, filling?_of_left hname, find?_of_first hfirst]
    exact displayed_of_ne hj
  | @unknown name hname hnone =>
    have hfind : args.find? (·.name = name) = none := by simpa using hnone
    rw [Piece.rendered, filling?_of_left hname, hfind]
    rfl

theorem filled_rendered (args : List Argument) (path : Option String) (p : Piece) :
    Filled args path p (p.rendered args path) := by
  cases p with
  | text s => exact .text s
  | tail s => exact .tail s
  | slot name =>
    by_cases hname : LeftToArguments path name
    · rw [Piece.rendered, filling?_of_left hname]
      cases hfind : args.find? (·.name = name) with
      | none => exact .unknown hname (by simpa using hfind)
      | some a =>
        obtain ⟨ha, before, after, hargs, hbefore⟩ := List.find?_eq_some_iff_append.1 hfind
        obtain rfl : a.name = name := by simpa using ha
        have hfirst : ∀ b ∈ before, b.name ≠ a.name := by simpa using hbefore
        obtain ⟨name, value⟩ := a
        by_cases htext : ∃ s, value = .string s
        · obtain ⟨s, rfl⟩ := htext
          exact .string hname hargs hfirst
        · have hne : ∀ s, value ≠ .string s := fun s hs => htext ⟨s, hs⟩
          have hfilled := Filled.json hname hargs hfirst hne
          rwa [← displayed_of_ne hne] at hfilled
    · cases path with
      | none => exact absurd (.inl rfl) hname
      | some p =>
        by_cases hpath : name = "_path"
        · subst hpath
          exact .path rfl
        · have hlast : name = "_name" := by
            by_contra hne
            exact hname (.inr ⟨hpath, hne⟩)
          subst hlast
          exact .name rfl (Path.isLastSegment_iff.2 rfl)

/-- The rules say what the renderer does with a piece, and each piece becomes one text. -/
theorem filled_iff {p : Piece} {s : String} : Filled args path p s ↔ p.rendered args path = s :=
  ⟨rendered_of_filled, fun h => h ▸ filled_rendered args path p⟩

theorem render_none (template : String) : render template [] none = template := by
  have hsource :
      (pieces template).map (·.rendered [] none) = (pieces template).map Piece.source := by
    refine List.map_congr_left fun p _ => ?_
    cases p <;> rfl
  rw [render, hsource, join_source_pieces]

/-! ## Rendering as a loop -/

/-- A loop that writes the message of a template from the front.  Each round copies the text up to
the next opening brace, fills the slot that ends with the next closing one, and goes on behind
it. -/
inductive Loop (args : List Argument) (path : Option String) : String → String → Prop where
  /-- No brace opens: what is left is copied. -/
  | copy {left : String} (hleft : '{' ∉ left.toList) : Loop args path left left
  /-- A brace opens and is never closed: what is left is copied. -/
  | unclosed {before behind : String} (hbefore : '{' ∉ before.toList)
    (hbehind : '}' ∉ behind.toList) :
    Loop args path (before ++ "\x7b" ++ behind) (before ++ "\x7b" ++ behind)
  /-- A slot is filled, and what is left behind it comes next. -/
  | slot {before name value left message : String} (hbefore : '{' ∉ before.toList)
    (hname : '}' ∉ name.toList) (hvalue : Filled args path (.slot name) value)
    (hleft : Loop args path left message) :
    Loop args path (before ++ "\x7b" ++ name ++ "\x7d" ++ left) (before ++ value ++ message)

theorem join_rendered_textPiece (s : String) :
    String.join ((textPiece s.toList.reverse).map (·.rendered args path)) = s := by
  by_cases hs : s = ""
  · subst hs
    rfl
  · rw [textPiece_reverse hs]
    simp [Piece.rendered, Piece.source]

/-- Text in which no brace opens is copied. -/
theorem render_copy {s : String} (hs : '{' ∉ s.toList) : render s args path = s := by
  have hcut : pieces s = textPiece s.toList.reverse := by
    have happend := cut_append hs [] []
    rwa [List.append_nil, List.append_nil] at happend
  rw [render, hcut, join_rendered_textPiece]

/-- The text up to the first brace is a piece for itself. -/
theorem pieces_brace {before : String} (hbefore : '{' ∉ before.toList) {template : String}
    {chars : List Char} (htemplate : template.toList = before.toList ++ '{' :: chars) :
    pieces template = textPiece before.toList.reverse ++ cut true [] chars := by
  rw [pieces, htemplate, cut_append hbefore, List.append_nil, cut_brace]

/-- A brace that is never closed is copied, with the text around it. -/
theorem render_unclosed {before behind : String} (hbefore : '{' ∉ before.toList)
    (hbehind : '}' ∉ behind.toList) :
    render (before ++ "\x7b" ++ behind) args path = before ++ "\x7b" ++ behind := by
  have htemplate :
      (before ++ "\x7b" ++ behind).toList = before.toList ++ '{' :: behind.toList := by simp
  have hpieces := pieces_brace hbefore htemplate
  rw [cut_tail hbehind, List.reverse_nil, List.nil_append, String.ofList_toList] at hpieces
  rw [render, hpieces, List.map_append, String.join_append, join_rendered_textPiece]
  simp [Piece.rendered, Piece.source, String.append_assoc]

/-- The first slot is filled, and what stands behind it is a template for itself. -/
theorem render_slot {before name : String} (hbefore : '{' ∉ before.toList)
    (hname : '}' ∉ name.toList) (left : String) :
    render (before ++ "\x7b" ++ name ++ "\x7d" ++ left) args path =
      before ++ (Piece.slot name).rendered args path ++ render left args path := by
  have htemplate : (before ++ "\x7b" ++ name ++ "\x7d" ++ left).toList =
      before.toList ++ '{' :: (name.toList ++ '}' :: left.toList) := by simp
  have hpieces := pieces_brace hbefore htemplate
  rw [cut_slot hname, List.reverse_nil, List.nil_append, String.ofList_toList] at hpieces
  rw [render, hpieces, List.map_append, String.join_append, join_rendered_textPiece,
    List.map_cons, String.join_cons, String.append_assoc]
  rfl

theorem Loop.render_eq {template message : String} (h : Loop args path template message) :
    render template args path = message := by
  induction h with
  | copy hleft => exact render_copy hleft
  | unclosed hbefore hbehind => exact render_unclosed hbefore hbehind
  | slot hbefore hname hvalue _ ih =>
    rw [render_slot hbefore hname, rendered_of_filled hvalue, ih]

/-- A text is split at the first place of a character. -/
theorem exists_first {c : Char} {s : String} (h : c ∈ s.toList) :
    ∃ before behind : String, s = before ++ String.ofList [c] ++ behind ∧ c ∉ before.toList := by
  obtain ⟨before, behind, hsplit, hbefore⟩ := List.eq_append_cons_of_mem h
  refine ⟨String.ofList before, String.ofList behind, ?_, by rwa [String.toList_ofList]⟩
  rw [← String.toList_inj, hsplit]
  simp

/-- The loop comes to an end with every template, since each round leaves less of it. -/
theorem loop_render (args : List Argument) (path : Option String) (template : String) :
    Loop args path template (render template args path) := by
  induction hlength : template.length using Nat.strongRecOn generalizing template with
  | ind n ih =>
    by_cases hopen : '{' ∈ template.toList
    · obtain ⟨before, behind, rfl, hbefore⟩ := exists_first hopen
      by_cases hclose : '}' ∈ behind.toList
      · obtain ⟨name, left, rfl, hname⟩ := exists_first hclose
        have hless : left.length < n := by
          rw [← hlength]
          simp only [String.length_append, String.length_ofList, List.length_singleton]
          omega
        have htext : before ++ String.ofList ['{'] ++ (name ++ String.ofList ['}'] ++ left) =
            before ++ "\x7b" ++ name ++ "\x7d" ++ left := by
          simp only [String.append_assoc]
        rw [htext, render_slot hbefore hname]
        exact .slot hbefore hname (filled_rendered args path _) (ih _ hless left rfl)
      · have htext : before ++ String.ofList ['{'] ++ behind = before ++ "\x7b" ++ behind := rfl
        rw [htext, render_unclosed hbefore hclose]
        exact .unclosed hbefore hclose
    · rw [render_copy hopen]
      exact .copy hopen

/-- Filling the pieces one by one writes what the loop writes. -/
theorem loop_iff {template message : String} :
    Loop args path template message ↔ render template args path = message :=
  ⟨Loop.render_eq, fun h => h ▸ loop_render args path template⟩

/-- A text has one reading as a template, and its message is that reading with each piece filled
in for itself, as a loop over the text does that sees each character once.  Without arguments and
without a path the message is the template. -/
theorem rendered_piece_by_piece (template : String) :
    ∃ ps, (∀ qs, Decomposes qs template ↔ qs = ps) ∧
      (∀ args path, ∃ parts,
        (∀ others, List.Forall₂ (Filled args path) ps others ↔ others = parts) ∧
          render template args path = String.join parts ∧
          ∀ message, Loop args path template message ↔ message = String.join parts) ∧
      render template [] none = template := by
  refine ⟨pieces template, fun _ => decomposes_iff, fun args path => ?_, render_none template⟩
  have hrules : Filled args path = fun p s => p.rendered args path = s := by
    funext p s
    exact propext filled_iff
  refine ⟨_, fun others => ?_, rfl, fun message => loop_iff.trans eq_comm⟩
  rw [hrules, ← List.forall₂_map_left_iff (R := Eq), List.forall₂_eq_eq_eq]
  exact eq_comm

/-- A brace inside a slot belongs to the name of the slot, and a value with braces is text. -/
example :
    render "\x7b\x7b_path\x7d \x7bleast\x7d at \x7b_name\x7d \x7b"
        [⟨"least", .string "\x7b_path\x7d"⟩] (some "lines[0].count") =
      "\x7b\x7b_path\x7d \x7b_path\x7d at count \x7b" := rfl

end Template

end Rulebook
