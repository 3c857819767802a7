import Mathlib.Data.List.Nodup
import Mathlib.Data.List.Perm.Subperm
import Mathlib.Logic.Relation
import Rulebook.Proofs.Report

/-!
# Branches of a survey

A survey looks into a scope with other scopes open.  `Branch f stack` says that it looks into the
frame `f` with the frames of `stack` open, which is the case where each frame is a step from the
one before and leads to a scope that is not open yet.

Whatever a branch comes upon is in the report.  A step from a branch leads on to another branch or
meets an open frame again, and where it does, the branch of that frame is a shorter way to the
same scope.  So every scope that can be reached has a branch, and a cycle of steps has to meet a
frame again somewhere.
-/

namespace Rulebook

open Rulebook.Path (Segment)

namespace Survey

/-- A step leads from one scope to another. -/
def Edge (outlines : Dict ScopeId Outline) (a b : ScopeId) : Prop :=
  ∃ o step, outlines.find? a = some o ∧ step ∈ o.live ∧ step.target? = some b

/-- A scope includes another. -/
def Includes (outlines : Dict ScopeId Outline) (a b : ScopeId) : Prop :=
  ∃ o, outlines.find? a = some o ∧ .inclusion b ∈ o.live

/-- The survey looks into a frame with others open, the innermost first. -/
inductive Branch (outlines : Dict ScopeId Outline) (root : ScopeId) :
    Frame → List Frame → Prop where
  /-- The survey begins at the root. -/
  | root : Branch outlines root (rootFrame root) []
  /-- A step leads on to a scope that is not open. -/
  | next {f : Frame} {stack : List Frame} {o : Outline} {step : Outline.Step} {target : ScopeId}
    (h : Branch outlines root f stack) (ho : outlines.find? f.id = some o) (hstep : step ∈ o.live)
    (htarget : step.target? = some target) (hclosed : ∀ g ∈ f :: stack, g.id ≠ target) :
    Branch outlines root (f.next step target) (f :: stack)

namespace Branch

variable {outlines : Dict ScopeId Outline} {root : ScopeId} {f : Frame} {stack : List Frame}
  {o : Outline} {step : Outline.Step} {target : ScopeId}

/-! ## Stacks -/

theorem nodup (h : Branch outlines root f stack) : ((f :: stack).map (·.id)).Nodup := by
  induction h with
  | root => exact List.nodup_singleton _
  | next h ho hstep htarget hclosed ih =>
    rw [List.map_cons, List.nodup_cons]
    refine ⟨fun hmem => ?_, ih⟩
    obtain ⟨g, hg, hid⟩ := List.mem_map.1 hmem
    exact hclosed g hg hid

theorem ne_of_mem (h : Branch outlines root f stack) {g : Frame} (hg : g ∈ stack) :
    g.id ≠ f.id := fun hid =>
  (List.nodup_cons.1 h.nodup).1 (List.mem_map.2 ⟨g, hg, hid⟩)

theorem find?_stack (h : Branch outlines root f stack) : stack.find? (·.id = f.id) = none :=
  List.find?_eq_none.2 fun _ hg hid => h.ne_of_mem hg (of_decide_eq_true hid)

theorem mem_keys_of_mem_stack (h : Branch outlines root f stack) :
    ∀ g ∈ stack, g.id ∈ outlines.keys := by
  induction h with
  | root => exact fun _ hg => absurd hg List.not_mem_nil
  | next h ho hstep htarget hclosed ih =>
    rw [List.forall_mem_cons]
    exact ⟨Dict.mem_keys_iff.2 ⟨_, ho⟩, ih⟩

/-- The open scopes are scopes of the table, and so is the one looked into. -/
theorem length_lt (h : Branch outlines root f stack) (ho : outlines.find? f.id = some o) :
    stack.length < outlines.size := by
  have hsub : (f :: stack).map (·.id) ⊆ outlines.keys := by
    intro id hid
    obtain ⟨g, hg, rfl⟩ := List.mem_map.1 hid
    rcases List.mem_cons.1 hg with rfl | hg
    · exact Dict.mem_keys_iff.2 ⟨o, ho⟩
    · exact h.mem_keys_of_mem_stack g hg
  have hle := (h.nodup.subperm hsub).length_le
  rwa [List.length_map, Dict.length_keys] at hle

/-- An open frame was looked into itself, at a place above. -/
theorem of_mem (h : Branch outlines root f stack) {g : Frame} (hg : g ∈ f :: stack) :
    ∃ rest, Branch outlines root g rest ∧ g.segments <+: f.segments ∧
      g.narrowings ≤ f.narrowings := by
  induction h with
  | root =>
    obtain rfl := List.mem_singleton.1 hg
    exact ⟨[], .root, List.prefix_rfl, Nat.le_refl _⟩
  | next h ho hstep htarget hclosed ih =>
    rcases List.mem_cons.1 hg with rfl | hg
    · exact ⟨_, .next h ho hstep htarget hclosed, List.prefix_rfl, Nat.le_refl _⟩
    · obtain ⟨rest, hbranch, hsegments, hnarrowings⟩ := ih hg
      exact ⟨rest, hbranch, hsegments.trans (List.prefix_append _ _),
        Nat.le_trans hnarrowings (Nat.le_add_right _ _)⟩

/-! ## What a branch comes upon -/

theorem findings_eq (h : Branch outlines root f stack) (ho : outlines.find? f.id = some o) :
    findings outlines (outlines.size - stack.length) stack f =
      scopeFindings
        (findings outlines (outlines.size - (f :: stack).length) (f :: stack)) f o := by
  have hclosed : outlines.size - stack.length = outlines.size - (f :: stack).length + 1 := by
    have hlt := h.length_lt ho
    rw [List.length_cons]
    omega
  rw [hclosed, findings_scope h.find?_stack ho]

theorem mem_scopeFindings {below : Frame → List Finding} (hstep : step ∈ o.live)
    (htarget : step.target? = some target) {x : Finding} (hx : x ∈ below (f.next step target)) :
    x ∈ scopeFindings below f o := by
  refine List.mem_append_right _ (List.mem_flatMap.2 ⟨step, hstep, ?_⟩)
  rw [stepFindings, htarget]
  exact List.mem_append_right _ hx

/-- Whatever a branch comes upon is in the report. -/
theorem findings_subset (h : Branch outlines root f stack) :
    findings outlines (outlines.size - stack.length) stack f ⊆ report outlines root := by
  induction h with
  | root => exact List.Subset.refl _
  | next h ho hstep htarget hclosed ih =>
    intro x hx
    refine ih ?_
    rw [h.findings_eq ho]
    exact mem_scopeFindings hstep htarget hx

theorem error_mem_report (h : Branch outlines root f stack) (ho : outlines.find? f.id = some o)
    {error : ErrorId} (herror : o.presenceError? = some error ∨ .rule error ∈ o.live) :
    .error f.segments error ∈ report outlines root := by
  refine h.findings_subset ?_
  rw [h.findings_eq ho, scopeFindings]
  rcases herror with hpresence | hrule
  · rw [hpresence]
    exact List.mem_append_left _ (List.mem_singleton_self _)
  · exact List.mem_append_right _ (List.mem_flatMap.2 ⟨_, hrule, List.mem_cons_self⟩)

/-- A step from a branch leads on to another, or meets an open frame again. -/
theorem next_or_again (h : Branch outlines root f stack) (ho : outlines.find? f.id = some o)
    (hstep : step ∈ o.live) (htarget : step.target? = some target) :
    Branch outlines root (f.next step target) (f :: stack) ∨
      ∃ g ∈ f :: stack, g.id = target ∧ .again g (f.next step target) ∈ report outlines root := by
  cases hfind : (f :: stack).find? (·.id = target) with
  | none =>
    rw [List.find?_eq_none] at hfind
    exact .inl (.next h ho hstep htarget fun g hg hid => hfind g hg (decide_eq_true hid))
  | some g =>
    have hid : g.id = target := by simpa using List.find?_some hfind
    refine .inr ⟨g, List.mem_of_find?_eq_some hfind, hid, h.findings_subset ?_⟩
    rw [h.findings_eq ho]
    refine mem_scopeFindings hstep htarget ?_
    rw [findings_again hfind]
    exact List.mem_singleton_self _

/-- A step from a branch leads to a scope that has a branch, by no more segments. -/
theorem exists_next (h : Branch outlines root f stack) (ho : outlines.find? f.id = some o)
    (hstep : step ∈ o.live) (htarget : step.target? = some target) :
    ∃ g rest, Branch outlines root g rest ∧ g.id = target ∧
      g.segments.Sublist (f.segments ++ step.segment?.toList) := by
  rcases h.next_or_again ho hstep htarget with hnext | ⟨g, hg, hid, _⟩
  · exact ⟨_, _, hnext, rfl, List.Sublist.refl _⟩
  · obtain ⟨rest, hbranch, hsegments, _⟩ := h.of_mem hg
    exact ⟨g, rest, hbranch, hid, hsegments.sublist.trans (List.sublist_append_left _ _)⟩

/-- Every scope that can be reached has a branch. -/
theorem exists_of_reaches {id : ScopeId}
    (h : Relation.ReflTransGen (Edge outlines) root id) :
    ∃ f stack, Branch outlines root f stack ∧ f.id = id := by
  induction h with
  | refl => exact ⟨_, _, .root, rfl⟩
  | tail _ hedge ih =>
    obtain ⟨f, stack, hbranch, rfl⟩ := ih
    obtain ⟨o, step, ho, hstep, htarget⟩ := hedge
    obtain ⟨g, rest, hnext, hid, _⟩ := hbranch.exists_next ho hstep htarget
    exact ⟨g, rest, hnext, hid⟩

/-! ## Cycles -/

/-- Where each step of a relation leads on to another branch, so does a path of them. -/
theorem follow {R : ScopeId → ScopeId → Prop} {P : Frame → Prop}
    (hnext : ∀ {f stack b}, Branch outlines root f stack → P f → R f.id b →
      ∃ g, Branch outlines root g (f :: stack) ∧ g.id = b ∧ P g)
    (h : Branch outlines root f stack) (hP : P f) {b : ScopeId}
    (hpath : Relation.TransGen R f.id b) :
    ∃ g rest, Branch outlines root g rest ∧ g.id = b ∧ P g ∧ f ∈ rest := by
  induction hpath with
  | single hstep =>
    obtain ⟨g, hg, hid, hPg⟩ := hnext h hP hstep
    exact ⟨g, _, hg, hid, hPg, List.mem_cons_self⟩
  | tail _ hstep ih =>
    obtain ⟨g, rest, hg, rfl, hPg, hmem⟩ := ih
    obtain ⟨g', hg', hid, hPg'⟩ := hnext hg hPg hstep
    exact ⟨g', _, hg', hid, hPg', List.mem_cons_of_mem _ hmem⟩

/-- So there is no cycle of them. -/
theorem not_transGen_self {R : ScopeId → ScopeId → Prop} {P : Frame → Prop}
    (hnext : ∀ {f stack b}, Branch outlines root f stack → P f → R f.id b →
      ∃ g, Branch outlines root g (f :: stack) ∧ g.id = b ∧ P g)
    (h : Branch outlines root f stack) (hP : P f) : ¬Relation.TransGen R f.id f.id := by
  intro hcycle
  obtain ⟨g, rest, hg, hid, _, hmem⟩ := h.follow hnext hP hcycle
  exact hg.ne_of_mem hmem hid.symm

/-- Where no open scope is met again, no scope leads back to itself. -/
theorem acyclic (hagain : ∀ g f, .again g f ∉ report outlines root)
    (h : Branch outlines root f stack) : ¬Relation.TransGen (Edge outlines) f.id f.id := by
  refine h.not_transGen_self (P := fun _ => True) ?_ trivial
  rintro f stack b h - ⟨o, step, ho, hstep, htarget⟩
  rcases h.next_or_again ho hstep htarget with hnext | ⟨g, _, _, hmem⟩
  · exact ⟨_, hnext, rfl, trivial⟩
  · exact absurd hmem (hagain _ _)

end Branch

/-- The steps of a cycle lead to scopes that lie on a cycle. -/
theorem transGen_on_cycles {α : Type} {r : α → α → Prop} {a : α} (h : Relation.TransGen r a a) :
    Relation.TransGen (fun x y => r x y ∧ Relation.TransGen r y y) a a := by
  have hpath : ∀ b, Relation.TransGen r a b → Relation.ReflTransGen r b a →
      Relation.TransGen (fun x y => r x y ∧ Relation.TransGen r y y) a b := by
    intro b hab
    induction hab with
    | single hstep => exact fun hback => .single ⟨hstep, .tail' hback hstep⟩
    | tail hab hstep ih =>
      intro hback
      exact .tail (ih (.head hstep hback)) ⟨hstep, .tail (.trans_right hback hab) hstep⟩
  exact hpath a h .refl

/-- Where the survey has not failed, no scope includes itself.  Of all frames whose scope does,
one with the fewest segments and narrowings would meet a frame at the same node. -/
theorem Branch.not_includes_self {outlines : Dict ScopeId Outline} {root : ScopeId}
    (hok : ∀ x ∈ report outlines root, x.failure? = none) {f : Frame} {stack : List Frame}
    (h : Branch outlines root f stack) : ¬Relation.TransGen (Includes outlines) f.id f.id := by
  induction hm : f.segments.length + f.narrowings using Nat.strongRecOn
    generalizing f stack with
  | _ m ih =>
    intro hcycle
    refine h.not_transGen_self (P := fun g => g.segments.length = f.segments.length ∧
      g.narrowings = f.narrowings) ?_ ⟨rfl, rfl⟩ (transGen_on_cycles hcycle)
    -- `ih` is about smaller frames: none of them has a scope that lies on a cycle, as `b` does.
    rintro g rest b hg ⟨hsegments, hnarrowings⟩ ⟨⟨o, ho, hstep⟩, hb⟩
    have hsame : (g.next (.inclusion b) b).segments = g.segments := List.append_nil _
    rcases hg.next_or_again ho hstep rfl with hnext | ⟨g', hg', rfl, hagain⟩
    · exact ⟨_, hnext, rfl, by rw [hsame, hsegments], hnarrowings⟩
    · exfalso
      obtain ⟨rest', hbranch, hprefix, hle⟩ := hg.of_mem hg'
      have hlength := hprefix.length_le
      have hmin : ¬g'.segments.length + g'.narrowings < m := fun hlt => ih _ hlt hbranch rfl hb
      have hnode : g'.sameNode (g.next (.inclusion g'.id) g'.id) := by
        refine ⟨?_, ?_⟩
        · rw [hsame]
          omega
        · show g'.narrowings = g.narrowings + 0
          omega
      have hfailure := hok _ hagain
      rw [Finding.failure?, if_pos hnode] at hfailure
      exact Option.some_ne_none _ hfailure

end Survey

end Rulebook
