import Mathlib.Data.List.Basic
import Rulebook.Dict

/-!
# Look-ups and entries

A dictionary is written through its look-ups and read through its entries.  The lemmas here say
that the two agree, so what is proved of every entry can be used at a look-up, and back.
-/

namespace Rulebook.Dict

variable {κ α β : Type} [Ord κ] [Std.LawfulEqOrd κ]

theorem lookup_eq_some_iff {key : κ} {value : α} {l : List (κ × α)}
    (h : l.Pairwise fun a b => compare a.1 b.1 = .lt) :
    lookup key l = some value ↔ (key, value) ∈ l := by
  induction l with
  | nil => simp [lookup]
  | cons e t ih =>
    obtain ⟨k, v⟩ := e
    obtain ⟨hk, ht⟩ := List.pairwise_cons.1 h
    rw [lookup, List.mem_cons]
    split
    · rename_i heq
      have hkey : key = k := Std.LawfulEqCmp.eq_of_compare heq
      subst hkey
      constructor
      · intro hv
        exact .inl (by rw [Option.some.inj hv])
      · rintro (hv | hmem)
        · rw [(Prod.mk.inj hv).2]
        · have hlt : compare key key = .lt := hk _ hmem
          simp [Std.ReflCmp.compare_self] at hlt
    · rename_i hne
      rw [ih ht]
      constructor
      · exact .inr
      · rintro (hv | hmem)
        · rw [(Prod.mk.inj hv).1] at hne
          exact absurd Std.ReflCmp.compare_self hne
        · exact hmem

/-- A look-up finds the values of the entries and no others. -/
theorem find?_eq_some_iff {d : Dict κ α} {key : κ} {value : α} :
    d.find? key = some value ↔ (key, value) ∈ d.entries :=
  lookup_eq_some_iff d.ascending

theorem mem_keys_iff {d : Dict κ α} {key : κ} :
    key ∈ d.keys ↔ ∃ value, d.find? key = some value := by
  simp only [keys, List.mem_map, find?_eq_some_iff, Prod.exists]
  constructor
  · rintro ⟨k, v, hmem, rfl⟩
    exact ⟨v, hmem⟩
  · rintro ⟨v, hmem⟩
    exact ⟨key, v, hmem, rfl⟩

theorem mem_values_of_find? {d : Dict κ α} {key : κ} {value : α} (h : d.find? key = some value) :
    value ∈ d.values :=
  List.mem_map.2 ⟨(key, value), find?_eq_some_iff.1 h, rfl⟩

theorem find?_insertNew [Std.TransOrd κ] [DecidableEq κ] (d : Dict κ α) (key other : κ)
    (value : α) :
    (d.insertNew key value).find? other =
      if other = key then some ((d.find? key).getD value) else d.find? other :=
  find?_alter d key other _

omit [Std.LawfulEqOrd κ] in
@[simp] theorem length_keys (d : Dict κ α) : d.keys.length = d.size := List.length_map _

omit [Std.LawfulEqOrd κ] in
theorem entries_map (f : κ → α → β) (d : Dict κ α) :
    (d.map f).entries = d.entries.map fun e => (e.1, f e.1 e.2) := by
  simp [map, filterMap]

omit [Std.LawfulEqOrd κ] in
@[simp] theorem size_map (f : κ → α → β) (d : Dict κ α) : (d.map f).size = d.size := by
  simp [size, entries_map]

theorem find?_filterMap (f : κ → α → Option β) (d : Dict κ α) (key : κ) :
    (d.filterMap f).find? key = (d.find? key).bind (f key) := by
  ext value
  rw [find?_eq_some_iff, Option.bind_eq_some_iff, filterMap, List.mem_filterMap]
  constructor
  · rintro ⟨e, he, h⟩
    obtain ⟨b, hb, heq⟩ := Option.map_eq_some_iff.1 h
    obtain ⟨rfl, rfl⟩ := Prod.mk.inj heq
    exact ⟨e.2, find?_eq_some_iff.2 he, hb⟩
  · rintro ⟨a, ha, hvalue⟩
    exact ⟨(key, a), find?_eq_some_iff.1 ha, by rw [hvalue, Option.map_some]⟩

theorem find?_map (f : κ → α → β) (d : Dict κ α) (key : κ) :
    (d.map f).find? key = (d.find? key).map (f key) := by
  rw [map, find?_filterMap]
  exact Option.map_eq_bind.symm

/-! ## Filters that drop nothing -/

omit [Std.LawfulEqOrd κ] in
theorem keys_filterMap {f : κ → α → Option β} {d : Dict κ α}
    (h : ∀ e ∈ d.entries, ∃ b, f e.1 e.2 = some b) : (d.filterMap f).keys = d.keys := by
  have hkeys (l : List (κ × α)) (h : ∀ e ∈ l, ∃ b, f e.1 e.2 = some b) :
      (l.filterMap fun e => (f e.1 e.2).map (e.1, ·)).map Prod.fst = l.map Prod.fst := by
    induction l with
    | nil => rfl
    | cons e rest ih =>
      rw [List.forall_mem_cons] at h
      obtain ⟨⟨b, hb⟩, hrest⟩ := h
      simp [hb, ih hrest]
  exact hkeys d.entries h

omit [Std.LawfulEqOrd κ] in
theorem keys_map (f : κ → α → β) (d : Dict κ α) : (d.map f).keys = d.keys :=
  keys_filterMap fun e _ => ⟨f e.1 e.2, rfl⟩

theorem nodup_keys (d : Dict κ α) : d.keys.Nodup := by
  rw [keys, List.nodup_iff_pairwise_ne, List.pairwise_map]
  refine d.ascending.imp ?_
  intro a b hlt heq
  simp [heq, Std.ReflCmp.compare_self] at hlt

theorem contains_insert [Std.TransOrd κ] [DecidableEq κ] {d : Dict κ α} {key other : κ}
    {value : α} : (d.insert key value).contains other ↔ other = key ∨ d.contains other := by
  rw [contains, find?_insert]
  by_cases h : other = key
  · simp [h]
  · simp [h, contains]

theorem contains_insertAll [Std.TransOrd κ] [DecidableEq κ] {d : Dict κ α}
    {pairs : List (κ × α)} {key : κ} :
    (d.insertAll pairs).contains key ↔ d.contains key ∨ ∃ p ∈ pairs, p.1 = key := by
  unfold insertAll
  induction pairs generalizing d with
  | nil => simp
  | cons p rest ih =>
    rw [List.foldl_cons, ih, contains_insert, List.exists_mem_cons_iff, @eq_comm _ key, or_assoc,
      or_left_comm]

theorem contains_ofList [Std.TransOrd κ] [DecidableEq κ] {pairs : List (κ × α)} {key : κ} :
    (ofList pairs).contains key ↔ ∃ p ∈ pairs, p.1 = key := by
  have hempty : (empty : Dict κ α).contains key = false := rfl
  rw [ofList, contains_insertAll, hempty]
  simp

theorem find?_insertAll [Std.TransOrd κ] [DecidableEq κ] {d : Dict κ α} {pairs : List (κ × α)}
    (h : (pairs.map Prod.fst).Nodup) {key : κ} {value : α} :
    (d.insertAll pairs).find? key = some value ↔
      (key, value) ∈ pairs ∨ key ∉ pairs.map Prod.fst ∧ d.find? key = some value := by
  unfold insertAll
  induction pairs generalizing d with
  | nil => simp
  | cons p rest ih =>
    obtain ⟨k, v⟩ := p
    rw [List.map_cons, List.nodup_cons] at h
    rw [List.foldl_cons, ih h.2, find?_insert]
    by_cases hkey : key = k
    · subst hkey
      have hnotMem (w : α) : (key, w) ∉ rest := fun hw => h.1 (List.mem_map.2 ⟨_, hw, rfl⟩)
      simp [hnotMem, eq_comm]
    · simp [hkey]

/-- A list without repeated keys is its own dictionary. -/
theorem find?_ofList [Std.TransOrd κ] [DecidableEq κ] {pairs : List (κ × α)}
    (h : (pairs.map Prod.fst).Nodup) {key : κ} {value : α} :
    (ofList pairs).find? key = some value ↔ (key, value) ∈ pairs := by
  have hempty : (empty : Dict κ α).find? key = none := rfl
  simp [ofList, find?_insertAll h, hempty]

/-- A dictionary is that of its entries. -/
theorem ofList_entries [Std.TransOrd κ] [DecidableEq κ] (d : Dict κ α) :
    ofList d.entries = d := by
  refine ext_find? fun key => Option.ext fun value => ?_
  rw [find?_ofList d.nodup_keys, find?_eq_some_iff]

/-! ## Sums -/

/-- No value weighs more than all of them. -/
theorem weight_le_total {d : Dict κ α} {key : κ} {value : α} (weight : α → Nat)
    (h : d.find? key = some value) : weight value ≤ d.total weight := by
  have hmem := find?_eq_some_iff.1 h
  unfold total
  generalize d.entries = entries at hmem
  induction entries with
  | nil => exact absurd hmem List.not_mem_nil
  | cons e rest ih =>
    rw [List.foldr_cons]
    rcases List.mem_cons.1 hmem with rfl | hmem
    · exact Nat.le_add_right _ _
    · have hle := ih hmem
      omega

end Rulebook.Dict
