/-!
# Dictionaries in key order

A `Dict κ α` is a finite map whose entries stand in strictly ascending order of their keys, so
there is one value of the type for each map and listing it needs no sorting.  Errors by path,
wordings, catalogs and scope tables are all dictionaries.

Every write goes through `alter`, which replaces the value under one key by a function of what was
there.  `find?_alter` says what a look-up sees afterwards, and `ext_find?` says that two
dictionaries that answer every look-up alike are equal.
-/

namespace Rulebook

/-- A finite map whose entries stand in ascending order of their keys. -/
structure Dict (κ α : Type) [Ord κ] where
  /-- The entries, least key first. -/
  entries : List (κ × α)
  /-- Each key is below every later one. -/
  ascending : entries.Pairwise fun a b => compare a.1 b.1 = .lt

namespace Dict

variable {κ α β : Type} [Ord κ]

/-! ## Entry lists -/

/-- The value under `key` in an entry list. -/
def lookup (key : κ) : List (κ × α) → Option α
  | [] => none
  | (k, v) :: rest => if compare key k = .eq then some v else lookup key rest

/-- Puts `update old` under `key`, where `old` is what stands there, keeping the order. -/
def place (key : κ) (update : Option α → α) : List (κ × α) → List (κ × α)
  | [] => [(key, update none)]
  | (k, v) :: rest =>
    match compare key k with
    | .lt => (key, update none) :: (k, v) :: rest
    | .eq => (key, update (some v)) :: rest
    | .gt => (k, v) :: place key update rest

theorem key_of_mem_place {key : κ} {update : Option α → α} {e : κ × α} {l : List (κ × α)}
    (h : e ∈ place key update l) : e.1 = key ∨ ∃ e' ∈ l, e'.1 = e.1 := by
  induction l with
  | nil => simp_all [place]
  | cons hd tl ih =>
    obtain ⟨k, v⟩ := hd
    rw [place] at h
    split at h <;> grind

variable [Std.TransOrd κ] [Std.LawfulEqOrd κ]

theorem pairwise_place (key : κ) (update : Option α → α) {l : List (κ × α)}
    (h : l.Pairwise fun a b => compare a.1 b.1 = .lt) :
    (place key update l).Pairwise fun a b => compare a.1 b.1 = .lt := by
  induction l with
  | nil => simp [place]
  | cons hd tl ih =>
    obtain ⟨k, v⟩ := hd
    obtain ⟨hk, htl⟩ := List.pairwise_cons.1 h
    rw [place]
    split
    · rename_i hlt
      refine List.pairwise_cons.2 ⟨fun e he => ?_, h⟩
      rcases List.mem_cons.1 he with rfl | he
      · exact hlt
      · exact Std.TransCmp.lt_trans hlt (hk e he)
    · rename_i heq
      refine List.pairwise_cons.2 ⟨fun e he => ?_, htl⟩
      have : key = k := Std.LawfulEqCmp.eq_of_compare heq
      exact this ▸ hk e he
    · rename_i hgt
      refine List.pairwise_cons.2 ⟨fun e he => ?_, ih htl⟩
      rcases key_of_mem_place he with h' | ⟨e', he', h'⟩
      · exact h' ▸ Std.OrientedCmp.lt_of_gt hgt
      · exact h' ▸ hk e' he'

omit [Std.TransOrd κ] [Std.LawfulEqOrd κ] in
theorem lookup_eq_none_of_lt {key : κ} {l : List (κ × α)} (h : ∀ e ∈ l, compare key e.1 = .lt) :
    lookup key l = none := by
  induction l with
  | nil => rfl
  | cons e t ih => simp_all [lookup]

theorem lookup_place_self (key : κ) (update : Option α → α) {l : List (κ × α)}
    (h : l.Pairwise fun a b => compare a.1 b.1 = .lt) :
    lookup key (place key update l) = some (update (lookup key l)) := by
  induction l with
  | nil => simp [place, lookup]
  | cons hd tl ih =>
    obtain ⟨k, v⟩ := hd
    obtain ⟨hk, htl⟩ := List.pairwise_cons.1 h
    rw [place]
    split
    · rename_i hlt
      have : lookup key ((k, v) :: tl) = none :=
        lookup_eq_none_of_lt fun e he => by
          rcases List.mem_cons.1 he with rfl | he
          · exact hlt
          · exact Std.TransCmp.lt_trans hlt (hk e he)
      simp [lookup] at this ⊢
      simp [this]
    · rename_i heq
      simp [lookup, heq]
    · rename_i hgt
      simp [lookup, hgt, ih htl]

omit [Std.TransOrd κ] in
theorem lookup_place_of_ne {key other : κ} (hne : other ≠ key) (update : Option α → α)
    (l : List (κ × α)) : lookup other (place key update l) = lookup other l := by
  have hother : ¬compare other key = .eq := fun h => hne (Std.LawfulEqCmp.eq_of_compare h)
  induction l with
  | nil => simp [place, lookup, hother]
  | cons hd tl ih =>
    obtain ⟨k, v⟩ := hd
    rw [place]
    split
    · simp [lookup, hother]
    · rename_i heq
      have : key = k := Std.LawfulEqCmp.eq_of_compare heq
      subst this
      simp [lookup, hother]
    · simp [lookup, ih]

/-- An entry list in ascending order is determined by its look-ups. -/
theorem eq_of_lookup {l l' : List (κ × α)}
    (h : l.Pairwise fun a b => compare a.1 b.1 = .lt)
    (h' : l'.Pairwise fun a b => compare a.1 b.1 = .lt)
    (heq : ∀ key, lookup key l = lookup key l') : l = l' := by
  have below {k k' : κ} {t : List (κ × α)} (hlt : compare k k' = .lt)
      (ht : ∀ e ∈ t, compare k' e.1 = .lt) : lookup k t = none :=
    lookup_eq_none_of_lt fun e he => Std.TransCmp.lt_trans hlt (ht e he)
  induction l generalizing l' with
  | nil =>
    cases l' with
    | nil => rfl
    | cons e t => simpa [lookup, Std.ReflCmp.compare_self] using heq e.1
  | cons e t ih =>
    obtain ⟨k, v⟩ := e
    obtain ⟨hk, ht⟩ := List.pairwise_cons.1 h
    cases l' with
    | nil => simpa [lookup, Std.ReflCmp.compare_self] using heq k
    | cons e' t' =>
      obtain ⟨k', v'⟩ := e'
      obtain ⟨hk', ht'⟩ := List.pairwise_cons.1 h'
      match hc : compare k k' with
      | .lt =>
        have := heq k
        simp [lookup, Std.ReflCmp.compare_self, hc, below hc hk'] at this
      | .gt =>
        have hc' := Std.OrientedCmp.lt_of_gt hc
        have := heq k'
        simp [lookup, Std.ReflCmp.compare_self, hc', below hc' hk] at this
      | .eq =>
        have hkk : k = k' := Std.LawfulEqCmp.eq_of_compare hc
        subst hkk
        have hvv : v = v' := by simpa [lookup, Std.ReflCmp.compare_self] using heq k
        subst hvv
        congr 1
        refine ih ht ht' fun key => ?_
        by_cases hkey : compare key k = .eq
        · have : key = k := Std.LawfulEqCmp.eq_of_compare hkey
          subst this
          rw [lookup_eq_none_of_lt hk, lookup_eq_none_of_lt hk']
        · simpa [lookup, hkey] using heq key

/-! ## Operations -/

/-- The dictionary without entries. -/
def empty : Dict κ α := ⟨[], .nil⟩

instance : EmptyCollection (Dict κ α) := ⟨empty⟩
instance : Inhabited (Dict κ α) := ⟨empty⟩

/-- The value under `key`. -/
def find? (d : Dict κ α) (key : κ) : Option α := lookup key d.entries

/-- Whether `key` has an entry. -/
def contains (d : Dict κ α) (key : κ) : Bool := (d.find? key).isSome

/-- How many entries there are. -/
def size (d : Dict κ α) : Nat := d.entries.length

/-- Whether there is no entry. -/
def isEmpty (d : Dict κ α) : Bool := d.entries.isEmpty

/-- The keys, in ascending order. -/
def keys (d : Dict κ α) : List κ := d.entries.map Prod.fst

/-- The values, in the order of their keys. -/
def values (d : Dict κ α) : List α := d.entries.map Prod.snd

/-- The sum of what the values weigh. -/
def total (weight : α → Nat) (d : Dict κ α) : Nat :=
  d.entries.foldr (fun e sum => weight e.2 + sum) 0

/-- Replaces the value under `key` by `update` of the old one. -/
def alter (d : Dict κ α) (key : κ) (update : Option α → α) : Dict κ α :=
  ⟨place key update d.entries, pairwise_place key update d.ascending⟩

/-- Puts `value` under `key`, whatever was there. -/
def insert (d : Dict κ α) (key : κ) (value : α) : Dict κ α := d.alter key fun _ => value

/-- Puts `value` under `key` only where nothing was. -/
def insertNew (d : Dict κ α) (key : κ) (value : α) : Dict κ α := d.alter key (·.getD value)

/-- Inserts the pairs of a list, left to right: the last value of a repeated key stays. -/
def insertAll (d : Dict κ α) (pairs : List (κ × α)) : Dict κ α :=
  pairs.foldl (fun acc p => acc.insert p.1 p.2) d

/-- The dictionary of a list of pairs; the last value of a repeated key stays. -/
def ofList (pairs : List (κ × α)) : Dict κ α := empty.insertAll pairs

omit [Std.TransOrd κ] [Std.LawfulEqOrd κ] in
theorem pairwise_filterMap (f : κ → α → Option β) {l : List (κ × α)}
    (h : l.Pairwise fun a b => compare a.1 b.1 = .lt) :
    (l.filterMap fun e => (f e.1 e.2).map (e.1, ·)).Pairwise
      fun a b => compare a.1 b.1 = .lt := by
  refine List.Pairwise.filterMap _ ?_ h
  intro a a' hlt b hb b' hb'
  obtain ⟨_, _, rfl⟩ := Option.map_eq_some_iff.1 hb
  obtain ⟨_, _, rfl⟩ := Option.map_eq_some_iff.1 hb'
  exact hlt

/-- Replaces each value, dropping the entries for which `f` answers `none`. -/
def filterMap (f : κ → α → Option β) (d : Dict κ α) : Dict κ β :=
  ⟨d.entries.filterMap fun e => (f e.1 e.2).map (e.1, ·), pairwise_filterMap f d.ascending⟩

/-- Replaces each value by a function of it and its key. -/
def map (f : κ → α → β) (d : Dict κ α) : Dict κ β :=
  d.filterMap fun key value => some (f key value)

instance [BEq κ] [BEq α] : BEq (Dict κ α) := ⟨fun a b => a.entries == b.entries⟩

instance [DecidableEq κ] [DecidableEq α] : DecidableEq (Dict κ α) := fun a b =>
  decidable_of_iff (a.entries = b.entries) <| by cases a; cases b; simp

/-! ## What a look-up sees -/

omit [Std.TransOrd κ] [Std.LawfulEqOrd κ] in
@[simp] theorem find?_empty (key : κ) : (∅ : Dict κ α).find? key = none := rfl

theorem find?_alter [DecidableEq κ] (d : Dict κ α) (key other : κ) (update : Option α → α) :
    (d.alter key update).find? other =
      if other = key then some (update (d.find? key)) else d.find? other := by
  split
  · rename_i h; subst h; exact lookup_place_self other update d.ascending
  · rename_i h; exact lookup_place_of_ne h update d.entries

theorem find?_insert [DecidableEq κ] (d : Dict κ α) (key other : κ) (value : α) :
    (d.insert key value).find? other = if other = key then some value else d.find? other :=
  find?_alter d key other _

/-- Dictionaries that answer every look-up alike are equal. -/
theorem ext_find? {d d' : Dict κ α} (h : ∀ key, d.find? key = d'.find? key) : d = d' := by
  have := eq_of_lookup d.ascending d'.ascending h
  cases d; cases d'; simp_all

end Dict

end Rulebook
