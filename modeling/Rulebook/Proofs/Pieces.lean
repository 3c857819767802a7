import Mathlib.Data.List.Basic
import Rulebook.Template

/-!
# Pieces of templates

Cutting a template loses nothing: written one after the other, the pieces are the template again
(`join_source_pieces`).  So the braces of a slot stand in the template just as they are written,
and the test that looks for the two slots of the path as mere text finds every slot of that name.

It can find more than that.  In a template that opens two braces before `_path` the slot has
another name, though the text of the path's slot occurs.  Then the test only says that the path
might matter.  Where it says no, a template reads the same with a path as without one
(`render_eq_of_usesPath`).
-/

namespace Rulebook.Template

/-! ## Pieces and the text that they are cut from -/

/-- The characters of pieces, as they are written in a template. -/
def written (ps : List Piece) : List Char := ps.flatMap fun p => p.source.toList

theorem written_append (ps qs : List Piece) : written (ps ++ qs) = written ps ++ written qs :=
  List.flatMap_append

theorem written_cons (p : Piece) (ps : List Piece) :
    written (p :: ps) = p.source.toList ++ written ps :=
  List.flatMap_cons

theorem written_textPiece (read : List Char) : written (textPiece read) = read.reverse := by
  cases read with
  | nil => rfl
  | cons c cs => simp [written, textPiece, Piece.source]

theorem toList_braced (name : String) : (braced name).toList = '{' :: (name.toList ++ ['}']) := by
  rw [braced, String.toList_append, String.toList_append]
  rfl

/-- What is cut is what has been read of a piece, behind its brace if it is a slot, and the
rest. -/
theorem written_cut (inSlot : Bool) (read chars : List Char) :
    written (cut inSlot read chars) =
      (if inSlot then ['{'] else []) ++ read.reverse ++ chars := by
  induction chars generalizing inSlot read with
  | nil =>
    cases inSlot with
    | false => simp [cut, written_textPiece]
    | true => simp [cut, written, Piece.source]
  | cons c rest ih =>
    cases inSlot with
    | false =>
      rw [cut, if_neg Bool.false_ne_true]
      by_cases hopen : c = '{'
      · simp [hopen, written_append, written_textPiece, ih]
      · simp [hopen, ih]
    | true =>
      rw [cut, if_pos rfl]
      by_cases hclose : c = '}'
      · simp [hclose, written_cons, Piece.source, toList_braced, ih]
      · simp [hclose, ih]

theorem written_pieces (template : String) : written (pieces template) = template.toList := by
  rw [pieces, written_cut]
  rfl

/-- The pieces of a template, as they are written, are the template. -/
theorem join_source_pieces (template : String) :
    String.join ((pieces template).map Piece.source) = template := by
  rw [← String.toList_inj, String.toList_join, List.flatMap_map]
  exact written_pieces template

/-! ## Templates that do not use the path -/

/-- A slot stands in the template with its braces. -/
theorem braced_infix_of_mem {template name : String} (h : .slot name ∈ pieces template) :
    (braced name).toList <:+: template.toList := by
  obtain ⟨before, after, hpieces⟩ := List.append_of_mem h
  have hwritten := written_pieces template
  rw [hpieces, written_append, written_cons, ← List.append_assoc] at hwritten
  exact ⟨written before, written after, hwritten⟩

/-- A template with a slot for the path is found to use it. -/
theorem usesPath_of_mem {template name : String} (h : .slot name ∈ pieces template)
    (hname : name = pathSlot ∨ name = nameSlot) : usesPath template = true := by
  have hinfix := Text.occursIn_iff.2 (braced_infix_of_mem h)
  rw [usesPath, Bool.or_eq_true]
  rcases hname with rfl | rfl
  · exact .inl hinfix
  · exact .inr hinfix

/-- Only the two slots of the path are filled with the help of a path, whatever the arguments are
named. -/
theorem filling?_some_of_ne {name : String} (hpath : name ≠ pathSlot) (hname : name ≠ nameSlot)
    (args : List Argument) (path : String) :
    filling? args (some path) name = filling? args none name := by
  rw [filling?, if_neg hpath, if_neg hname]
  rfl

/-- A template that is not found to use the path reads the same at every path, and without one. -/
theorem render_eq_of_usesPath {template : String} (h : usesPath template = false)
    (args : List Argument) (path : String) :
    render template args (some path) = render template args none := by
  rw [render, render]
  refine congrArg String.join (List.map_congr_left fun piece hpiece => ?_)
  cases piece with
  | text s => rfl
  | tail s => rfl
  | slot name =>
    have hunused {other : String} (hother : other = pathSlot ∨ other = nameSlot) :
        name ≠ other := by
      rintro rfl
      rw [usesPath_of_mem hpiece hother] at h
      exact Bool.noConfusion h
    rw [Piece.rendered, Piece.rendered, filling?_some_of_ne (hunused (.inl rfl))
      (hunused (.inr rfl))]

end Rulebook.Template
