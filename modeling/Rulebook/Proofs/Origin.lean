import Rulebook.Proofs.Branch

/-!
# Where findings come from

`Branch.findings_subset` says that what a branch comes upon is in the report.  Here is the other
direction: whatever is in the report is due to a branch.  `Due` names the four reasons, one for
each kind of finding, and `due_of_mem_report` is the induction.  It carries the number of scopes
that are not open, so that the walk cannot give up on a scope that is there.

* An open scope that is met again lies on a cycle.  Where both visits are at one node, each step
  in between adds neither a segment nor a narrowing, so each is an inclusion:
  `includes_of_sameNode`.
* A scope that is missing was led to by a step, or is the root.

Both together say when a survey fails.  `exists_ofOutlines_iff` is the result: a survey succeeds
if and only if the scopes that can be reached are there and none of them includes itself.
-/

namespace Rulebook.Survey

open Rulebook.Path (Segment)

variable {outlines : Dict ScopeId Outline} {root : ScopeId} {f g : Frame} {stack : List Frame}
  {o : Outline} {step : Outline.Step} {target : ScopeId} {x : Finding}

/-- The steps of the outlines lead from the root to a scope. -/
def Reachable (outlines : Dict ScopeId Outline) (root : ScopeId) : ScopeId → Prop :=
  Relation.ReflTransGen (Edge outlines) root

theorem Branch.reachable (h : Branch outlines root f stack) : Reachable outlines root f.id := by
  induction h with
  | root => exact .refl
  | next h ho hstep htarget hclosed ih => exact .tail ih ⟨_, _, ho, hstep, htarget⟩

/-! ## Every finding is due to a branch -/

/-- What brings a finding into the report of a survey. -/
inductive Due (outlines : Dict ScopeId Outline) (root : ScopeId) : Finding → Prop where
  | error {f : Frame} {stack : List Frame} {o : Outline} {id : ErrorId}
    (h : Branch outlines root f stack) (ho : outlines.find? f.id = some o)
    (herror : o.presenceError? = some id ∨ .rule id ∈ o.live) :
    Due outlines root (.error f.segments id)
  | entered {f : Frame} {stack : List Frame} {o : Outline} {step : Outline.Step} {s : Segment}
    (h : Branch outlines root f stack) (ho : outlines.find? f.id = some o) (hstep : step ∈ o.live)
    (hs : step.segment? = some s) : Due outlines root (.entered f.segments s)
  | again {f g : Frame} {stack : List Frame} {o : Outline} {step : Outline.Step}
    (h : Branch outlines root f stack) (ho : outlines.find? f.id = some o) (hstep : step ∈ o.live)
    (htarget : step.target? = some g.id) (hg : g ∈ f :: stack) :
    Due outlines root (.again g (f.next step g.id))
  | missing {id : ScopeId} (h : Reachable outlines root id) (hnone : outlines.find? id = none) :
    Due outlines root (.missing id)

theorem rule_of_error? {id : ErrorId} (h : step.error? = some id) : step = .rule id := by
  cases step <;> simp_all [Outline.Step.error?]

theorem Branch.due_of_step (h : Branch outlines root f stack) (ho : outlines.find? f.id = some o)
    (hstep : step ∈ o.live) {below : Frame → List Finding}
    (hbelow : ∀ target, step.target? = some target →
      ∀ y ∈ below (f.next step target), Due outlines root y)
    (hx : x ∈ stepFindings below f step) : Due outlines root x := by
  rw [stepFindings, List.mem_append, List.mem_append] at hx
  rcases hx with (hx | hx) | hx
  · obtain ⟨id, hid, rfl⟩ := Option.map_eq_some_iff.1 (Option.mem_toList.1 hx)
    rw [rule_of_error? hid] at hstep
    exact .error h ho (.inr hstep)
  · obtain ⟨s, hs, rfl⟩ := Option.map_eq_some_iff.1 (Option.mem_toList.1 hx)
    exact .entered h ho hstep hs
  · cases htarget : step.target? with
    | none => simp [htarget] at hx
    | some target =>
      rw [htarget] at hx
      exact hbelow target htarget x hx

theorem Branch.due (h : Branch outlines root f stack) {closed : Nat}
    (hclosed : closed + stack.length = outlines.size)
    (hx : x ∈ findings outlines closed stack f) : Due outlines root x := by
  induction closed generalizing f stack x with
  | zero =>
    -- All scopes of the table are open, so this one is not in the table.
    have hnone : outlines.find? f.id = none := by
      cases ho : outlines.find? f.id with
      | none => rfl
      | some o =>
        have hlt := h.length_lt ho
        omega
    rw [findings_missing h.find?_stack (.inl rfl), List.mem_singleton] at hx
    subst hx
    exact .missing h.reachable hnone
  | succ closed ih =>
    cases ho : outlines.find? f.id with
    | none =>
      rw [findings_missing h.find?_stack (.inr ho), List.mem_singleton] at hx
      subst hx
      exact .missing h.reachable ho
    | some o =>
      rw [findings_scope h.find?_stack ho, scopeFindings, List.mem_append] at hx
      rcases hx with hx | hx
      · obtain ⟨id, hid, rfl⟩ := Option.map_eq_some_iff.1 (Option.mem_toList.1 hx)
        exact .error h ho (.inl hid)
      · obtain ⟨step, hstep, hx⟩ := List.mem_flatMap.1 hx
        refine h.due_of_step ho hstep ?_ hx
        intro target htarget y hy
        cases hfind : (f :: stack).find? (·.id = target) with
        | some g =>
          have hid : g.id = target := by simpa using List.find?_some hfind
          subst hid
          have hagain : findings outlines closed (f :: stack) (f.next step g.id) =
              [.again g (f.next step g.id)] := findings_again hfind
          rw [hagain, List.mem_singleton] at hy
          subst hy
          exact .again h ho hstep htarget (List.mem_of_find?_eq_some hfind)
        | none =>
          have hopen : ∀ g ∈ f :: stack, g.id ≠ target := by
            intro g hg hid
            simpa [hid] using List.find?_eq_none.1 hfind g hg
          refine ih (Branch.next h ho hstep htarget hopen) ?_ hy
          rw [List.length_cons]
          omega

/-- Whatever is in the report is due to a branch. -/
theorem due_of_mem_report (hx : x ∈ report outlines root) : Due outlines root x :=
  Branch.due .root (Nat.add_zero _) hx

/-! ## Scopes that are met again -/

theorem inclusion_of_stays (htarget : step.target? = some target) (hs : step.segment? = none)
    (hn : step.narrowings = 0) : step = .inclusion target := by
  cases step <;> simp_all [Outline.Step.target?, Outline.Step.segment?, Outline.Step.narrowings]

/-- A step that stays at the node of an open frame is an inclusion, and was taken at that node. -/
theorem sameNode_next (hsegments : g.segments <+: f.segments) (hle : g.narrowings ≤ f.narrowings)
    (htarget : step.target? = some target) (hsame : g.sameNode (f.next step target)) :
    g.sameNode f ∧ step = .inclusion target := by
  obtain ⟨hlength, hnarrowings⟩ := hsame
  have hprefix := hsegments.length_le
  rw [Frame.next, List.length_append] at hlength
  rw [Frame.next] at hnarrowings
  have hs : step.segment? = none := by
    cases hs : step.segment? with
    | none => rfl
    | some s =>
      rw [hs, Option.toList_some, List.length_singleton] at hlength
      omega
  rw [hs, Option.toList_none, List.length_nil] at hlength
  dsimp only at hnarrowings
  refine ⟨⟨hlength, ?_⟩, inclusion_of_stays htarget hs ?_⟩
  · omega
  · omega

/-- Between two visits of one node there are only inclusions. -/
theorem Branch.includes_of_sameNode (h : Branch outlines root f stack) (hg : g ∈ f :: stack)
    (hsame : g.sameNode f) : Relation.ReflTransGen (Includes outlines) g.id f.id := by
  induction h with
  | root =>
    rw [List.mem_singleton.1 hg]
  | next h ho hstep htarget hclosed ih =>
    rcases List.mem_cons.1 hg with rfl | hmem
    · exact .refl
    · obtain ⟨_, _, hsegments, hle⟩ := h.of_mem hmem
      obtain ⟨hprev, rfl⟩ := sameNode_next hsegments hle htarget hsame
      exact .tail (ih hmem hprev) ⟨_, ho, hstep⟩

/-- A scope that is met again at one node includes itself. -/
theorem includes_self_of_again {met : Frame} (h : Due outlines root (.again g met))
    (hsame : g.sameNode met) :
    Reachable outlines root met.id ∧ Relation.TransGen (Includes outlines) met.id met.id := by
  cases h with
  | @again f _ stack o step h ho hstep htarget hg =>
    obtain ⟨_, _, hsegments, hle⟩ := h.of_mem hg
    obtain ⟨hprev, rfl⟩ := sameNode_next hsegments hle htarget hsame
    have hback := h.includes_of_sameNode hg hprev
    exact ⟨.tail h.reachable ⟨o, _, ho, hstep, htarget⟩, .tail' hback ⟨o, ho, hstep⟩⟩

/-! ## When a survey fails -/

/-- Why a survey fails: a scope that it is led to is missing, or includes itself. -/
inductive Fault (outlines : Dict ScopeId Outline) (root : ScopeId) : SchemeError → Prop where
  | missing {id : ScopeId} (h : Reachable outlines root id) (hnone : outlines.find? id = none) :
    Fault outlines root (.undefinedScope id)
  | loop {id : ScopeId} {path : String} (h : Reachable outlines root id)
    (hloop : Relation.TransGen (Includes outlines) id id) :
    Fault outlines root (.inclusionCycle id path)

theorem fault_of_failure? {e : SchemeError} (hx : x ∈ report outlines root)
    (he : x.failure? = some e) : Fault outlines root e := by
  have hdue := due_of_mem_report hx
  cases x with
  | error segments id => cases he
  | entered segments s => cases he
  | again g met =>
    rw [Finding.failure?] at he
    by_cases hsame : g.sameNode met
    · rw [if_pos hsame] at he
      obtain rfl := Option.some.inj he
      obtain ⟨hreach, hloop⟩ := includes_self_of_again hdue hsame
      exact .loop hreach hloop
    · rw [if_neg hsame] at he
      cases he
  | missing id =>
    obtain rfl := Option.some.inj he
    cases hdue with
    | missing hreach hnone => exact .missing hreach hnone

theorem fault_of_ofOutlines {e : SchemeError} (h : ofOutlines outlines root = .error e) :
    Fault outlines root e := by
  have hfailure : (walk outlines root).failure = some e := by
    rw [ofOutlines] at h
    split at h
    · rename_i e' he'
      rw [he', Except.error.inj h]
    · cases h
  have hfound : (report outlines root).findSome? Finding.failure? = some e := by
    rw [(walk_notes outlines root).failure] at hfailure
    simpa using hfailure
  obtain ⟨x, hx, he⟩ := List.exists_of_findSome?_eq_some hfound
  exact fault_of_failure? hx he

/-- A survey succeeds if and only if all scopes that can be reached are there, and none of them
includes itself. -/
theorem exists_ofOutlines_iff :
    (∃ s, ofOutlines outlines root = .ok s) ↔
      ∀ id, Reachable outlines root id →
        (∃ o, outlines.find? id = some o) ∧ ¬Relation.TransGen (Includes outlines) id id := by
  constructor
  · rintro ⟨s, hs⟩ id hreach
    have hok := (ofOutlines_eq_ok_iff.1 hs).1
    obtain ⟨f, stack, hbranch, rfl⟩ := Branch.exists_of_reaches hreach
    refine ⟨?_, hbranch.not_includes_self hok⟩
    cases ho : outlines.find? f.id with
    | some o => exact ⟨o, rfl⟩
    | none =>
      have hmem : .missing f.id ∈ report outlines root := by
        apply hbranch.findings_subset
        rw [findings_missing hbranch.find?_stack (.inr ho)]
        exact List.mem_singleton_self _
      have hfailure := hok _ hmem
      exact nomatch hfailure
  · intro h
    cases hsurvey : ofOutlines outlines root with
    | ok s => exact ⟨s, rfl⟩
    | error e =>
      cases fault_of_ofOutlines hsurvey with
      | missing hreach hnone =>
        obtain ⟨⟨o, ho⟩, _⟩ := h _ hreach
        rw [ho] at hnone
        exact nomatch hnone
      | loop hreach hloop => exact absurd hloop (h _ hreach).2

end Rulebook.Survey
