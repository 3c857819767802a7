import Mathlib.Data.List.Induction

/-!
# Lists without repetitions

`List.eraseDups` keeps the first of equal elements.  Here equality is any Boolean equivalence,
since error definitions can be equal without being the same.  What is known of a list without its
repetitions is said at its end, where a run puts the next element (`eraseDups_concat`).
-/

namespace Rulebook.Distinct

variable {α : Type} [BEq α] [EquivBEq α]

/-- A list with one more element has one more distinct element, unless an equal one is there. -/
theorem eraseDups_concat (l : List α) (a : α) :
    (l ++ [a]).eraseDups = if l.any (· == a) then l.eraseDups else l.eraseDups ++ [a] := by
  induction hlength : l.length using Nat.strongRecOn generalizing l with
  | _ n ih =>
    subst hlength
    cases l with
    | nil => simp [List.eraseDups_cons]
    | cons x rest =>
      rw [List.cons_append, List.eraseDups_cons, List.eraseDups_cons, List.filter_append]
      cases hax : a == x with
      | true =>
        have hxa : (x == a) = true := BEq.symm hax
        simp [hax, hxa]
      | false =>
        have hxa : (x == a) = false := by rw [BEq.comm, hax]
        have hshort : (rest.filter fun b => !b == x).length < (x :: rest).length := by
          have hle := List.length_filter_le (fun b => !b == x) rest
          simp
          omega
        -- What is filtered out is equal to `x`, so it is not equal to `a`.
        have hany : (rest.filter fun b => !b == x).any (· == a) = rest.any (· == a) := by
          rw [Bool.eq_iff_iff, List.any_eq_true, List.any_eq_true]
          constructor
          · rintro ⟨y, hy, hya⟩
            exact ⟨y, (List.mem_filter.1 hy).1, hya⟩
          · rintro ⟨y, hy, hya⟩
            have hyx : (y == x) = false := by rw [BEq.congr_left hya, hax]
            exact ⟨y, List.mem_filter.2 ⟨hy, by simp [hyx]⟩, hya⟩
        have hkept : [a].filter (fun b => !b == x) = [a] := by simp [hax]
        rw [hkept, ih _ hshort _ rfl, hany, List.any_cons, hxa, Bool.false_or]
        split <;> rfl

/-- A list without its repetitions still holds something equal to what it held. -/
theorem any_eraseDups (l : List α) (a : α) :
    l.eraseDups.any (· == a) = l.any (· == a) := by
  induction l using List.reverseRecOn with
  | nil => rfl
  | append_singleton l x ih =>
    rw [eraseDups_concat]
    split
    · rename_i hx
      rw [ih, List.any_append, Bool.eq_iff_iff, Bool.or_eq_true]
      refine ⟨.inl, fun h => h.elim id fun hxa => ?_⟩
      have hxa : (x == a) = true := by simpa using hxa
      obtain ⟨y, hy, hyx⟩ := List.any_eq_true.1 hx
      exact List.any_eq_true.2 ⟨y, hy, BEq.trans hyx hxa⟩
    · rw [List.any_append, List.any_append, ih]

/-- No two elements of a list without its repetitions are equal. -/
theorem pairwise_eraseDups (l : List α) : l.eraseDups.Pairwise fun x y => (x == y) = false := by
  induction l using List.reverseRecOn with
  | nil => exact .nil
  | append_singleton l a ih =>
    rw [eraseDups_concat]
    split
    · exact ih
    · rename_i hnew
      refine List.pairwise_append.2 ⟨ih, List.pairwise_singleton _ _, fun x hx y hy => ?_⟩
      obtain rfl := List.mem_singleton.1 hy
      refine Bool.eq_false_iff.2 fun hequal => hnew ?_
      rw [← any_eraseDups]
      exact List.any_eq_true.2 ⟨x, hx, hequal⟩

end Rulebook.Distinct
