import Mathlib.Data.List.Basic
import Rulebook.Path

/-!
# Segments and the paths they are written as

`Path.ofSegments` is a fold of `join`, which looks at the whole path written so far.  This module
reads the same path as one text: each segment behind the first is written with what separates it,
a point before a name and nothing before a bracket.  Three facts follow from that.

* `ofSegments_inj`: a path determines its segments, so different nodes never share a path.
* `shape_ofSegments`: the shape of a path is the path of the shapes.
* `fillIndexes_ofSegments`: filling the indexes into the shape of a path gives the path back.

The names of members have to be proper ones for this.  A point or a bracket in a name would be
taken for the end of the name.
-/

namespace Rulebook.Path

namespace Segment

/-- A segment that can be read off a path: the name of a member keeps clear of what separates
segments. -/
def IsProper : Segment → Prop
  | member name => isMemberName name
  | _ => True

/-- A segment that leads to one node: a proper one that is no placeholder. -/
def IsConcrete : Segment → Prop
  | member name => isMemberName name
  | index _ => True
  | anyIndex => False

/-- A segment as it stands in a shape, where every index is a placeholder. -/
def shape : Segment → Segment
  | index _ => anyIndex
  | s => s

/-- The index of an element. -/
def index? : Segment → Option Nat
  | index i => some i
  | _ => none

/-- A segment as it is written behind another one. -/
def glued : Segment → List Char
  | member name => '.' :: name.toList
  | s => s.text.toList

@[simp] theorem shape_member (name : String) : (member name).shape = member name := rfl

@[simp] theorem shape_index (i : Nat) : (index i).shape = anyIndex := rfl

@[simp] theorem shape_anyIndex : anyIndex.shape = anyIndex := rfl

theorem IsConcrete.isProper {s : Segment} (h : s.IsConcrete) : s.IsProper := by
  cases s with
  | member name => exact h
  | index i => trivial
  | anyIndex => trivial

theorem IsProper.shape {s : Segment} (h : s.IsProper) : s.shape.IsProper := by
  cases s with
  | member name => exact h
  | index i => trivial
  | anyIndex => trivial

end Segment

/-! ## How segments are written -/

/-- A member name is not empty and holds none of the characters that separate segments. -/
theorem isMemberName_iff {name : String} :
    isMemberName name ↔ name.toList ≠ [] ∧ ∀ c ∈ name.toList, isNameChar c := by
  rw [isMemberName, Bool.and_eq_true, List.all_eq_true, Bool.not_eq_true', ← Bool.not_eq_true,
    String.isEmpty_iff, ne_eq, String.toList_eq_nil_iff]

theorem ne_of_isNameChar {c : Char} (h : isNameChar c) : c ≠ '.' ∧ c ≠ '[' := by
  simp only [isNameChar, Bool.and_eq_true, decide_eq_true_eq] at h
  exact ⟨h.1.1.1, h.1.1.2⟩

theorem toList_indexSegment (i : Nat) :
    (indexSegment i).toList = '[' :: (Nat.toDigits 10 i ++ [']']) := by
  have hrepr : toString i = Nat.repr i := rfl
  rw [indexSegment, String.toList_append, String.toList_append, hrepr, Nat.toList_repr]
  rfl

theorem toList_anyIndex : anyIndex.toList = ['[', '#', ']'] := rfl

/-- Laying a segment behind a path that is not empty writes it behind the text of the path. -/
theorem toList_join_text {base : String} (hbase : base ≠ "") {s : Segment} (hs : s.IsProper) :
    (join base s.text).toList = base.toList ++ s.glued := by
  have hb : base.isEmpty = false := by
    rw [← Bool.not_eq_true, String.isEmpty_iff]
    exact hbase
  cases s with
  | member name =>
    obtain ⟨hne, hall⟩ := isMemberName_iff.1 hs
    have hn : name.isEmpty = false := by
      rw [← Bool.not_eq_true, String.isEmpty_iff, ← String.toList_eq_nil_iff]
      exact hne
    have hhead : ¬name.toList.head? = some '[' := fun h =>
      (ne_of_isNameChar (hall _ (List.mem_of_head? h))).2 rfl
    simp [join, Segment.text, Segment.glued, hb, hn, hhead]
  | index i =>
    have hn : (indexSegment i).isEmpty = false := by
      rw [← Bool.not_eq_true, String.isEmpty_iff, ← String.toList_eq_nil_iff, toList_indexSegment]
      exact List.cons_ne_nil _ _
    simp [join, Segment.text, Segment.glued, hb, hn, toList_indexSegment]
  | anyIndex => simp [join, Segment.text, Segment.glued, hb, anyIndex]

/-- A segment behind a path never gives the empty path. -/
theorem join_text_ne_empty {base : String} (hbase : base ≠ "") {s : Segment} (hs : s.IsProper) :
    join base s.text ≠ "" := by
  rw [← String.toList_inj.ne, toList_join_text hbase hs]
  intro h
  exact hbase (String.toList_inj.1 (List.append_eq_nil_iff.1 h).1)

theorem toList_foldl_join {segments : List Segment} (hsegs : ∀ s ∈ segments, s.IsProper)
    {base : String} (hbase : base ≠ "") :
    (segments.foldl (fun path s => join path s.text) base).toList =
      base.toList ++ segments.flatMap Segment.glued := by
  induction segments generalizing base with
  | nil => simp
  | cons s rest ih =>
    have hs : s.IsProper := hsegs s List.mem_cons_self
    have hrest : ∀ r ∈ rest, r.IsProper := fun r hr => hsegs r (List.mem_cons_of_mem s hr)
    rw [List.foldl_cons, ih hrest (join_text_ne_empty hbase hs), toList_join_text hbase hs,
      List.flatMap_cons, List.append_assoc]

theorem text_ne_empty {s : Segment} (hs : s.IsProper) : s.text ≠ "" := by
  rw [← String.toList_inj.ne]
  cases s with
  | member name => exact (isMemberName_iff.1 hs).1
  | index i =>
    rw [Segment.text, toList_indexSegment]
    exact List.cons_ne_nil _ _
  | anyIndex => exact List.cons_ne_nil _ _

/-- The text of a path: its first segment, and each other one with what separates it. -/
theorem toList_ofSegments_cons {s : Segment} {rest : List Segment}
    (hsegs : ∀ r ∈ s :: rest, r.IsProper) :
    (ofSegments (s :: rest)).toList = s.text.toList ++ rest.flatMap Segment.glued := by
  have hs : s.text ≠ "" := text_ne_empty (hsegs s List.mem_cons_self)
  rw [ofSegments, List.foldl_cons, empty_join]
  exact toList_foldl_join (fun r hr => hsegs r (List.mem_cons_of_mem s hr)) hs

theorem ofSegments_concat (segments : List Segment) (s : Segment) :
    ofSegments (segments ++ [s]) = join (ofSegments segments) s.text := by
  rw [ofSegments, List.foldl_append]
  rfl

/-! ## A path determines its segments -/

/-- A text behind a segment: the end of the path, or a point or bracket first. -/
def Separated (chars : List Char) : Prop := ∀ c ∈ chars.head?, c = '.' ∨ c = '['

theorem separated_flatMap_glued (segments : List Segment) :
    Separated (segments.flatMap Segment.glued) := by
  intro c hc
  cases segments with
  | nil => simp at hc
  | cons s rest =>
    cases s with
    | member name =>
      have hpoint : '.' = c := by simpa [Segment.glued] using hc
      exact .inl hpoint.symm
    | index i =>
      have hbracket : '[' = c := by
        simpa [Segment.glued, Segment.text, toList_indexSegment] using hc
      exact .inr hbracket.symm
    | anyIndex =>
      have hbracket : '[' = c := by
        simpa [Segment.glued, Segment.text, toList_anyIndex] using hc
      exact .inr hbracket.symm

/-- Two texts cut at the first character that fails `p` are cut alike. -/
theorem cut_inj {p : Char → Bool} {a b xs ys : List Char} (ha : ∀ c ∈ a, p c)
    (hb : ∀ c ∈ b, p c) (hx : ∀ c ∈ xs.head?, ¬p c) (hy : ∀ c ∈ ys.head?, ¬p c)
    (h : a ++ xs = b ++ ys) : a = b ∧ xs = ys := by
  have htake {l rest : List Char} (hl : ∀ c ∈ l, p c) (hrest : ∀ c ∈ rest.head?, ¬p c) :
      (l ++ rest).takeWhile p = l := by
    rw [List.takeWhile_append_of_pos hl]
    cases rest with
    | nil => simp
    | cons c t => simp [hrest c rfl]
  have hab : a = b := by rw [← htake ha hx, h, htake hb hy]
  subst hab
  exact ⟨rfl, List.append_cancel_left h⟩

theorem not_isNameChar_of_separated {xs : List Char} (hx : Separated xs) :
    ∀ c ∈ xs.head?, ¬isNameChar c := by
  intro c hc hname
  rcases hx c hc with rfl | rfl
  · exact (ne_of_isNameChar hname).1 rfl
  · exact (ne_of_isNameChar hname).2 rfl

theorem isDigit_of_mem_toDigits {i : Nat} {c : Char} (h : c ∈ Nat.toDigits 10 i) : c.isDigit :=
  Nat.isDigit_of_mem_toDigits (by decide) (by decide) h

/-- Two bracketed texts are closed by the same bracket. -/
theorem bracketed_inj {a b xs ys : List Char} (ha : ']' ∉ a) (hb : ']' ∉ b)
    (h : '[' :: (a ++ [']']) ++ xs = '[' :: (b ++ [']']) ++ ys) : a = b ∧ xs = ys := by
  have hcut : a ++ (']' :: xs) = b ++ (']' :: ys) := by simpa using h
  have hopen {l : List Char} (hl : ']' ∉ l) : ∀ c ∈ l, (c != ']') = true := by
    intro c hc
    simp only [bne_iff_ne]
    exact fun hbracket => hl (hbracket ▸ hc)
  obtain ⟨hab, hrest⟩ := cut_inj (hopen ha) (hopen hb) (by simp) (by simp) hcut
  exact ⟨hab, (List.cons.inj hrest).2⟩

theorem bracket_notMem_toDigits (i : Nat) : ']' ∉ Nat.toDigits 10 i := fun h => by
  simpa using isDigit_of_mem_toDigits h

/-- The digits of an index are no placeholder. -/
theorem toDigits_ne_placeholder (i : Nat) : Nat.toDigits 10 i ≠ ['#'] := fun h => by
  have hdigit : ('#' : Char).isDigit := isDigit_of_mem_toDigits (i := i) (h ▸ List.mem_cons_self)
  simp at hdigit

/-- A name does not begin like a bracketed segment. -/
theorem name_append_ne_bracketed {name : String} (hname : isMemberName name)
    (xs rest : List Char) : name.toList ++ xs ≠ '[' :: rest := by
  obtain ⟨hne, hall⟩ := isMemberName_iff.1 hname
  cases hl : name.toList with
  | nil => exact absurd hl hne
  | cons c t =>
    have hc : c ≠ '[' := (ne_of_isNameChar (hall c (hl ▸ List.mem_cons_self))).2
    intro h
    exact hc (List.cons.inj h).1

/-- The first segment of a path can be told from what follows it. -/
theorem text_append_inj {s t : Segment} (hs : s.IsProper) (ht : t.IsProper) {xs ys : List Char}
    (hx : Separated xs) (hy : Separated ys) (h : s.text.toList ++ xs = t.text.toList ++ ys) :
    s = t ∧ xs = ys := by
  cases s with
  | member name =>
    cases t with
    | member name' =>
      obtain ⟨hname, hrest⟩ := cut_inj (isMemberName_iff.1 hs).2 (isMemberName_iff.1 ht).2
        (not_isNameChar_of_separated hx) (not_isNameChar_of_separated hy) h
      exact ⟨congrArg Segment.member (String.toList_inj.1 hname), hrest⟩
    | index j =>
      rw [Segment.text, Segment.text, toList_indexSegment] at h
      exact absurd h (name_append_ne_bracketed hs _ _)
    | anyIndex => exact absurd h (name_append_ne_bracketed hs _ _)
  | index i =>
    rw [Segment.text, toList_indexSegment] at h
    cases t with
    | member name' => exact absurd h.symm (name_append_ne_bracketed ht _ _)
    | index j =>
      rw [Segment.text, toList_indexSegment] at h
      obtain ⟨hdigits, hrest⟩ :=
        bracketed_inj (bracket_notMem_toDigits i) (bracket_notMem_toDigits j) h
      have hij : i = j := by
        rw [← Nat.ofDigitChars_ten_toDigits (n := i), hdigits, Nat.ofDigitChars_ten_toDigits]
      exact ⟨congrArg Segment.index hij, hrest⟩
    | anyIndex =>
      have hdigits := (bracketed_inj (bracket_notMem_toDigits i) (b := ['#']) (by simp) h).1
      exact absurd hdigits (toDigits_ne_placeholder i)
  | anyIndex =>
    cases t with
    | member name' => exact absurd h.symm (name_append_ne_bracketed ht _ _)
    | index j =>
      rw [Segment.text, Segment.text, toList_indexSegment] at h
      have hdigits := (bracketed_inj (a := ['#']) (by simp) (bracket_notMem_toDigits j) h).1
      exact absurd hdigits.symm (toDigits_ne_placeholder j)
    | anyIndex => exact ⟨rfl, List.append_cancel_left h⟩

/-- What separates a segment from the one before it can be told from the segment. -/
theorem glued_append_inj {s t : Segment} (hs : s.IsProper) (ht : t.IsProper) {xs ys : List Char}
    (hx : Separated xs) (hy : Separated ys) (h : s.glued ++ xs = t.glued ++ ys) :
    s = t ∧ xs = ys := by
  refine text_append_inj hs ht hx hy ?_
  cases s with
  | member name =>
    cases t with
    | member name' => exact (List.cons.inj h).2
    | index j => simp [Segment.glued, Segment.text, toList_indexSegment] at h
    | anyIndex => simp [Segment.glued, Segment.text, toList_anyIndex] at h
  | index i =>
    cases t with
    | member name' => simp [Segment.glued, Segment.text, toList_indexSegment] at h
    | index j => exact h
    | anyIndex => exact h
  | anyIndex =>
    cases t with
    | member name' => simp [Segment.glued, Segment.text, toList_anyIndex] at h
    | index j => exact h
    | anyIndex => exact h

theorem flatMap_glued_inj {xs ys : List Segment} (hx : ∀ s ∈ xs, s.IsProper)
    (hy : ∀ s ∈ ys, s.IsProper) (h : xs.flatMap Segment.glued = ys.flatMap Segment.glued) :
    xs = ys := by
  have hne {s : Segment} {t : List Char} : s.glued ++ t ≠ [] := by
    cases s <;> simp [Segment.glued, Segment.text, toList_indexSegment, toList_anyIndex]
  induction xs generalizing ys with
  | nil =>
    cases ys with
    | nil => rfl
    | cons t ts => exact absurd h.symm hne
  | cons s ss ih =>
    cases ys with
    | nil => exact absurd h hne
    | cons t ts =>
      rw [List.forall_mem_cons] at hx hy
      obtain ⟨hst, hrest⟩ := glued_append_inj hx.1 hy.1 (separated_flatMap_glued ss)
        (separated_flatMap_glued ts) h
      rw [hst, ih hx.2 hy.2 hrest]

/-- A path determines its segments. -/
theorem ofSegments_inj {xs ys : List Segment} (hx : ∀ s ∈ xs, s.IsProper)
    (hy : ∀ s ∈ ys, s.IsProper) (h : ofSegments xs = ofSegments ys) : xs = ys := by
  have hne {s : Segment} {rest : List Segment} (hp : ∀ r ∈ s :: rest, r.IsProper) :
      ofSegments (s :: rest) ≠ "" := by
    rw [← String.toList_inj.ne, toList_ofSegments_cons hp]
    intro hnil
    have hs : s.text = "" := String.toList_inj.1 (List.append_eq_nil_iff.1 hnil).1
    exact text_ne_empty (hp s List.mem_cons_self) hs
  cases xs with
  | nil =>
    cases ys with
    | nil => rfl
    | cons t ts => exact absurd h.symm (hne hy)
  | cons s ss =>
    cases ys with
    | nil => exact absurd h (hne hx)
    | cons t ts =>
      rw [← String.toList_inj, toList_ofSegments_cons hx, toList_ofSegments_cons hy] at h
      rw [List.forall_mem_cons] at hx hy
      obtain ⟨hst, hrest⟩ := text_append_inj hx.1 hy.1 (separated_flatMap_glued ss)
        (separated_flatMap_glued ts) h
      rw [hst, flatMap_glued_inj hx.2 hy.2 hrest]

/-! ## The shape of a path -/

theorem bracket_notMem_name {name : String} (hname : isMemberName name) : '[' ∉ name.toList :=
  fun h => (ne_of_isNameChar ((isMemberName_iff.1 hname).2 _ h)).2 rfl

/-- A text without opening brackets is its own shape. -/
theorem foldr_consShape_append {l : List Char} (hl : '[' ∉ l) (xs : List Char) :
    (l ++ xs).foldr consShape [] = l ++ xs.foldr consShape [] := by
  induction l with
  | nil => rfl
  | cons c t ih =>
    have hc : c ≠ '[' := fun h => hl (h ▸ List.mem_cons_self)
    have ht : '[' ∉ t := fun h => hl (List.mem_cons_of_mem c h)
    rw [List.cons_append, List.foldr_cons, ih ht, consShape, if_neg hc]
    rfl

/-- A run of digits. -/
def IsRun (l : List Char) : Prop := l ≠ [] ∧ ∀ c ∈ l, c.isDigit

theorem isRun_toDigits (i : Nat) : IsRun (Nat.toDigits 10 i) :=
  ⟨Nat.toDigits_ne_nil, fun _ => isDigit_of_mem_toDigits⟩

theorem IsRun.bracket_notMem {run : List Char} (h : IsRun run) : '[' ∉ run ++ [']'] := by
  intro hmem
  rcases List.mem_append.1 hmem with hmem | hmem
  · exact absurd (h.2 _ hmem) (by decide)
  · exact absurd (List.mem_singleton.1 hmem) (by decide)

/-- A run of digits and the bracket behind it are all that `afterIndex?` takes. -/
theorem afterIndex?_run {run : List Char} (h : IsRun run) (rest : List Char) :
    afterIndex? (run ++ ']' :: rest) = some rest := by
  obtain ⟨hne, hdigits⟩ := h
  rw [afterIndex?, List.takeWhile_append_of_pos hdigits, List.dropWhile_append_of_pos hdigits]
  cases run with
  | nil => exact absurd rfl hne
  | cons c t => simp

/-- The shape of a bracketed run of digits is the placeholder. -/
theorem foldr_consShape_index {run : List Char} (h : IsRun run) (rest : List Char) :
    ('[' :: (run ++ ']' :: rest)).foldr consShape [] =
      '[' :: '#' :: ']' :: rest.foldr consShape [] := by
  rw [List.append_cons, List.foldr_cons, foldr_consShape_append h.bracket_notMem,
    ← List.append_cons, consShape, if_pos rfl, afterIndex?_run h]
  rfl

theorem foldr_consShape_text {s : Segment} (hs : s.IsProper) (xs : List Char) :
    (s.text.toList ++ xs).foldr consShape [] = s.shape.text.toList ++ xs.foldr consShape [] := by
  cases s with
  | member name => exact foldr_consShape_append (bracket_notMem_name hs) xs
  | index i =>
    rw [Segment.text, toList_indexSegment, List.cons_append, List.append_assoc,
      List.singleton_append, foldr_consShape_index (isRun_toDigits i), Segment.shape_index,
      Segment.text, toList_anyIndex]
    rfl
  | anyIndex =>
    have hinner : '[' ∉ ['#', ']'] := by simp
    have htext : Segment.anyIndex.text.toList = '[' :: ['#', ']'] := rfl
    rw [Segment.shape_anyIndex, htext, List.cons_append, List.foldr_cons,
      foldr_consShape_append hinner]
    rfl

theorem foldr_consShape_glued {s : Segment} (hs : s.IsProper) (xs : List Char) :
    (s.glued ++ xs).foldr consShape [] = s.shape.glued ++ xs.foldr consShape [] := by
  have htext := foldr_consShape_text hs xs
  cases s with
  | member name =>
    rw [Segment.glued, List.cons_append, List.foldr_cons, consShape, if_neg (by decide)]
    exact congrArg ('.' :: ·) htext
  | index i => exact htext
  | anyIndex => exact htext

theorem foldr_consShape_flatMap {segments : List Segment} (hsegs : ∀ s ∈ segments, s.IsProper) :
    (segments.flatMap Segment.glued).foldr consShape [] =
      (segments.map Segment.shape).flatMap Segment.glued := by
  induction segments with
  | nil => rfl
  | cons s rest ih =>
    rw [List.forall_mem_cons] at hsegs
    rw [List.flatMap_cons, foldr_consShape_glued hsegs.1, ih hsegs.2, List.map_cons,
      List.flatMap_cons]

theorem isProper_map_shape {segments : List Segment} (hsegs : ∀ s ∈ segments, s.IsProper) :
    ∀ s ∈ segments.map Segment.shape, s.IsProper := by
  intro s hs
  obtain ⟨r, hr, rfl⟩ := List.mem_map.1 hs
  exact (hsegs r hr).shape

/-- The shape of a path is the path of the shapes of its segments. -/
theorem shape_ofSegments {segments : List Segment} (hsegs : ∀ s ∈ segments, s.IsProper) :
    shape (ofSegments segments) = ofSegments (segments.map Segment.shape) := by
  rw [shape, ← String.toList_inj, String.toList_ofList]
  cases segments with
  | nil => rfl
  | cons s rest =>
    have hshape := isProper_map_shape hsegs
    rw [List.map_cons] at hshape ⊢
    rw [toList_ofSegments_cons hsegs, toList_ofSegments_cons hshape]
    rw [List.forall_mem_cons] at hsegs
    rw [foldr_consShape_text hsegs.1, foldr_consShape_flatMap hsegs.2]

/-! ## Filling in the indexes -/

/-- A text without opening brackets has no placeholder. -/
theorem fillChars_append {l : List Char} (hl : '[' ∉ l) (xs : List Char) (indexes : List Nat) :
    fillChars (l ++ xs) indexes = l ++ fillChars xs indexes := by
  induction l with
  | nil => rfl
  | cons c t ih =>
    have hc : c ≠ '[' := fun h => hl (h ▸ List.mem_cons_self)
    have ht : '[' ∉ t := fun h => hl (List.mem_cons_of_mem c h)
    rw [List.cons_append, fillChars, ih ht]
    · rfl
    · intro _ _ _ _ hbracket
      exact absurd hbracket hc

theorem fillChars_text {s : Segment} (hs : s.IsConcrete) (xs : List Char) (indexes : List Nat) :
    fillChars (s.shape.text.toList ++ xs) (s.index?.toList ++ indexes) =
      s.text.toList ++ fillChars xs indexes := by
  cases s with
  | member name => exact fillChars_append (bracket_notMem_name hs) xs indexes
  | index i => simp [Segment.text, Segment.index?, toList_anyIndex, fillChars]
  | anyIndex => exact absurd hs id

theorem fillChars_glued {s : Segment} (hs : s.IsConcrete) (xs : List Char) (indexes : List Nat) :
    fillChars (s.shape.glued ++ xs) (s.index?.toList ++ indexes) =
      s.glued ++ fillChars xs indexes := by
  have htext := fillChars_text hs xs indexes
  cases s with
  | member name =>
    have hpoint : '[' ∉ ['.'] := by simp
    have hcons : (Segment.member name).glued = ['.'] ++ name.toList := rfl
    rw [Segment.shape_member, hcons, List.append_assoc, fillChars_append hpoint,
      List.append_assoc]
    exact congrArg (['.'] ++ ·) htext
  | index i => exact htext
  | anyIndex => exact absurd hs id

theorem filterMap_index?_cons (s : Segment) (rest : List Segment) :
    (s :: rest).filterMap Segment.index? =
      s.index?.toList ++ rest.filterMap Segment.index? := by
  cases h : s.index? <;> simp [h]

/-- Indexes behind those of the segments are left over. -/
theorem fillChars_flatMap {segments : List Segment} (hsegs : ∀ s ∈ segments, s.IsConcrete)
    (more : List Nat) :
    fillChars ((segments.map Segment.shape).flatMap Segment.glued)
      (segments.filterMap Segment.index? ++ more) = segments.flatMap Segment.glued := by
  induction segments with
  | nil => simp [fillChars]
  | cons s rest ih =>
    rw [List.forall_mem_cons] at hsegs
    rw [filterMap_index?_cons, List.append_assoc, List.map_cons, List.flatMap_cons,
      fillChars_glued hsegs.1, ih hsegs.2, List.flatMap_cons]

/-- Filling its indexes into the shape of a path gives the path, and more indexes change
nothing. -/
theorem fillIndexes_ofSegments_append {segments : List Segment}
    (hsegs : ∀ s ∈ segments, s.IsConcrete) (more : List Nat) :
    fillIndexes (ofSegments (segments.map Segment.shape))
      (segments.filterMap Segment.index? ++ more) = ofSegments segments := by
  rw [fillIndexes, ← String.toList_inj, String.toList_ofList]
  cases segments with
  | nil => simp [ofSegments, fillChars]
  | cons s rest =>
    have hproper : ∀ r ∈ s :: rest, r.IsProper := fun r hr => (hsegs r hr).isProper
    have hshape := isProper_map_shape hproper
    rw [List.map_cons] at hshape ⊢
    rw [toList_ofSegments_cons hproper, toList_ofSegments_cons hshape]
    rw [List.forall_mem_cons] at hsegs
    rw [filterMap_index?_cons, List.append_assoc, fillChars_text hsegs.1,
      fillChars_flatMap hsegs.2]

/-- Filling its indexes into the shape of a path gives the path. -/
theorem fillIndexes_ofSegments {segments : List Segment} (hsegs : ∀ s ∈ segments, s.IsConcrete) :
    fillIndexes (ofSegments (segments.map Segment.shape)) (segments.filterMap Segment.index?) =
      ofSegments segments := by
  have hfill := fillIndexes_ofSegments_append hsegs []
  rwa [List.append_nil] at hfill

/-! ## Counting the placeholders -/

/-- The number of placeholders in a list of characters, met from left to right. -/
def placeholdersIn : List Char → Nat
  | '[' :: '#' :: ']' :: rest => placeholdersIn rest + 1
  | _ :: rest => placeholdersIn rest
  | [] => 0

/-- How many indexes a path can take. -/
def placeholders (path : String) : Nat := placeholdersIn path.toList

theorem placeholdersIn_append {l : List Char} (hl : '[' ∉ l) (xs : List Char) :
    placeholdersIn (l ++ xs) = placeholdersIn xs := by
  induction l with
  | nil => rfl
  | cons c t ih =>
    have hc : c ≠ '[' := fun h => hl (h ▸ List.mem_cons_self)
    have ht : '[' ∉ t := fun h => hl (List.mem_cons_of_mem c h)
    rw [List.cons_append, placeholdersIn, ih ht]
    intro _ hbracket
    exact absurd hbracket hc

theorem placeholdersIn_text {s : Segment} (hs : s.IsConcrete) (xs : List Char) :
    placeholdersIn (s.shape.text.toList ++ xs) = s.index?.toList.length + placeholdersIn xs := by
  cases s with
  | member name =>
    simpa [Segment.index?, Segment.text] using placeholdersIn_append (bracket_notMem_name hs) xs
  | index i =>
    simp [Segment.text, Segment.index?, toList_anyIndex, placeholdersIn, Nat.add_comm]
  | anyIndex => exact absurd hs id

theorem placeholdersIn_glued {s : Segment} (hs : s.IsConcrete) (xs : List Char) :
    placeholdersIn (s.shape.glued ++ xs) = s.index?.toList.length + placeholdersIn xs := by
  have htext := placeholdersIn_text hs xs
  cases s with
  | member name =>
    have hpoint : '[' ∉ ['.'] := by simp
    exact (placeholdersIn_append hpoint (name.toList ++ xs)).trans htext
  | index i => exact htext
  | anyIndex => exact absurd hs id

/-- The shape of a path takes as many indexes as the path has. -/
theorem placeholders_ofSegments {segments : List Segment} (hsegs : ∀ s ∈ segments, s.IsConcrete) :
    placeholders (ofSegments (segments.map Segment.shape)) =
      (segments.filterMap Segment.index?).length := by
  have hflatMap (rest : List Segment) (hrest : ∀ s ∈ rest, s.IsConcrete) :
      placeholdersIn ((rest.map Segment.shape).flatMap Segment.glued) =
        (rest.filterMap Segment.index?).length := by
    induction rest with
    | nil => rfl
    | cons s rest ih =>
      rw [List.forall_mem_cons] at hrest
      rw [filterMap_index?_cons, List.length_append, List.map_cons, List.flatMap_cons,
        placeholdersIn_glued hrest.1, ih hrest.2]
  cases segments with
  | nil => rfl
  | cons s rest =>
    have hshape := isProper_map_shape fun r hr => (hsegs r hr).isProper
    rw [List.map_cons] at hshape
    rw [List.forall_mem_cons] at hsegs
    rw [placeholders, List.map_cons, toList_ofSegments_cons hshape, placeholdersIn_text hsegs.1,
      hflatMap rest hsegs.2, filterMap_index?_cons, List.length_append]

end Rulebook.Path
