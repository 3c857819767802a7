import Rulebook.Text.Basic

/-!
# Paths

A path names a node of a model: the empty path is the root, members are joined with a point, and
the elements of a collection are bracketed and glued on, as in `orders[2].lines[0]`.  The path of
a node with `[#]` for every index is its *shape*, `orders[#].lines[#]`, which is all that can be
known without a model.

`join` lays one path behind another, `fillIndexes` goes from a shape to a path, and `shape` goes
back.  A path is also the fold of `join` over its segments, which is `ofSegments`.

These are the path helpers of the specification (section 11.2): `join` is `resolve`, `fillIndexes`
is `with_indexes`, `shape` is `to_shape`, `lastSegment` is `last_segment`, `indexSegment` is
`index_segment` and `isMemberName` is `is_valid_segment`.
-/

namespace Rulebook.Path

/-- The segment that stands for any element of a collection. -/
def anyIndex : String := "[#]"

/-- Lays `relative` behind `base`: a bracket is glued on, a member follows a point, and an empty
part changes nothing. -/
def join (base relative : String) : String :=
  if relative.isEmpty then base
  else if base.isEmpty then relative
  else if relative.toList.head? = some '[' then base ++ relative
  else base ++ "." ++ relative

/-- The segment of the element at `index`. -/
def indexSegment (index : Nat) : String := "[" ++ toString index ++ "]"

/-- Replaces the placeholders of a list of characters from left to right, as long as there are
indexes. -/
def fillChars : List Char → List Nat → List Char
  | '[' :: '#' :: ']' :: rest, index :: indexes =>
    (indexSegment index).toList ++ fillChars rest indexes
  | c :: rest, indexes => c :: fillChars rest indexes
  | [], _ => []

/-- Replaces the placeholders of `path` from left to right; those without an index stay. -/
def fillIndexes (path : String) (indexes : List Nat) : String :=
  String.ofList (fillChars path.toList indexes)

/-- What follows a bracketed index whose opening bracket has just been read: the text behind a
run of digits and a closing bracket. -/
def afterIndex? (chars : List Char) : Option (List Char) :=
  match chars.takeWhile Char.isDigit, chars.dropWhile Char.isDigit with
  | _ :: _, ']' :: rest => some rest
  | _, _ => none

/-- Puts one character before a text whose indexes are already placeholders. -/
def consShape (c : Char) (rest : List Char) : List Char :=
  if c = '[' then
    match afterIndex? rest with
    | some behind => anyIndex.toList ++ behind
    | none => c :: rest
  else c :: rest

/-- Replaces every bracketed index of `path` by the placeholder.  It works from the end: the
digits between two brackets are never brackets, so what stands behind an opening bracket is known
once the rest is done. -/
def shape (path : String) : String := String.ofList (path.toList.foldr consShape [])

/-- The part of a path behind its last point, or the whole path. -/
def lastSegment (path : String) : String :=
  String.ofList (path.toList.reverse.takeWhile (· ≠ '.')).reverse

/-- Whether a character may stand in a member name. -/
def isNameChar (c : Char) : Bool := c ≠ '.' && c ≠ '[' && c ≠ ']' && !Text.isBlankChar c

/-- Whether a text can name a member: it is not empty and keeps clear of points, brackets and
blanks. -/
def isMemberName (name : String) : Bool := !name.isEmpty && name.toList.all isNameChar

/-! ## Segments -/

/-- One step of a path. -/
inductive Segment where
  | member (name : String)
  | index (index : Nat)
  | anyIndex
  deriving DecidableEq, Repr

/-- How a segment is written. -/
def Segment.text : Segment → String
  | member name => name
  | index i => indexSegment i
  | anyIndex => Path.anyIndex

/-- The path that the segments lead to from the root. -/
def ofSegments (segments : List Segment) : String :=
  segments.foldl (fun path segment => join path segment.text) ""

@[simp] theorem join_empty (base : String) : join base "" = base := rfl

@[simp] theorem empty_join (relative : String) : join "" relative = relative := by
  simp only [join]
  split
  · simp_all
  · rfl

/-- What is written behind a path that is not empty. -/
def behind : List Char → List Char
  | [] => []
  | c :: rest => if c = '[' then c :: rest else '.' :: c :: rest

theorem toList_join {base : String} (hbase : base ≠ "") (relative : String) :
    (join base relative).toList = base.toList ++ behind relative.toList := by
  rw [join, if_neg (mt String.isEmpty_iff.1 hbase)]
  cases hchars : relative.toList with
  | nil =>
    rw [String.toList_eq_nil_iff.1 hchars]
    exact (List.append_nil _).symm
  | cons c rest =>
    have hrelative : relative ≠ "" := by
      rintro rfl
      exact nomatch hchars
    rw [if_neg (mt String.isEmpty_iff.1 hrelative), List.head?_cons, behind]
    by_cases hc : c = '['
    · rw [if_pos (congrArg some hc), if_pos hc, String.toList_append, hchars]
    · rw [if_neg (mt Option.some.inj hc), if_neg hc, String.toList_append, String.toList_append,
        hchars, List.append_assoc]
      rfl

/-- Only its beginning decides how a text is written behind a path. -/
theorem behind_append {chars : List Char} (h : chars ≠ []) (more : List Char) :
    behind (chars ++ more) = behind chars ++ more := by
  cases chars with
  | nil => exact absurd rfl h
  | cons c rest =>
    rw [List.cons_append, behind, behind]
    split <;> rfl

theorem join_assoc (a b c : String) : join (join a b) c = join a (join b c) := by
  by_cases ha : a = ""
  · rw [ha, empty_join, empty_join]
  by_cases hb : b = ""
  · rw [hb, join_empty, empty_join]
  have hb' : b.toList ≠ [] := mt String.toList_eq_nil_iff.1 hb
  have hab : join a b ≠ "" := by
    rw [ne_eq, ← String.toList_eq_nil_iff, toList_join ha, List.append_eq_nil_iff]
    exact fun h => ha (String.toList_eq_nil_iff.1 h.1)
  rw [← String.toList_inj, toList_join hab, toList_join ha, toList_join ha, toList_join hb,
    behind_append hb', List.append_assoc]

@[simp] theorem fillChars_nil (chars : List Char) : fillChars chars [] = chars := by
  induction chars with
  | nil => rfl
  | cons c rest ih => simp [fillChars, ih]

end Rulebook.Path
