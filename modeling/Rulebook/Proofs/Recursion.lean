import Rulebook.Proofs.Acceptance

/-!
# Which schemes are recursive

The survey calls scopes recursive as soon as it meets an open scope again.  It looks at the scopes
on its way only, and it leaves every branch at a scope that is open, so that it sees few of the
paths that there are.  `recursive_iff_cycle` says that it misses nothing and raises no false
alarm: scopes are recursive if and only if there is a cycle among those that can be reached.

* Where an open scope is met again, the frames from the one that was opened to the last one are
  steps, and the step that met it again closes the cycle.
* Where none is, every path of steps is a branch (`Branch.acyclic`), and no branch holds a scope
  twice.
-/

namespace Rulebook

variable {M : ModelSpace} {k : M.Kind}

namespace Survey

variable {outlines : Dict ScopeId Outline} {root : ScopeId} {f g : Frame} {stack : List Frame}

/-- Steps lead from every open scope to the one looked into. -/
theorem Branch.edges_of_mem (h : Branch outlines root f stack) (hg : g ∈ f :: stack) :
    Relation.ReflTransGen (Edge outlines) g.id f.id := by
  induction h with
  | root => rw [List.mem_singleton.1 hg]
  | next h ho hstep htarget hclosed ih =>
    rcases List.mem_cons.1 hg with rfl | hg
    · exact .refl
    · exact .tail (ih hg) ⟨_, _, ho, hstep, htarget⟩

/-- A scope that is met again leads back to itself. -/
theorem cycle_of_again (h : Due outlines root (.again g f)) :
    Reachable outlines root g.id ∧ Relation.TransGen (Edge outlines) g.id g.id := by
  cases h with
  | @again f _ stack o step h ho hstep htarget hg =>
    have hedge : Edge outlines f.id g.id := ⟨o, step, ho, hstep, htarget⟩
    exact ⟨h.reachable.tail hedge, .tail' (h.edges_of_mem hg) hedge⟩

/-- The scopes of a survey are recursive if and only if one that can be reached leads back to
itself. -/
theorem recursive_iff {s : Survey} (h : ofOutlines outlines root = .ok s) :
    s.recursive = true ↔
      ∃ id, Reachable outlines root id ∧ Relation.TransGen (Edge outlines) id id := by
  rw [recursive_of_ofOutlines h]
  constructor
  · rintro ⟨g, f, hmem⟩
    exact ⟨g.id, cycle_of_again (due_of_mem_report hmem)⟩
  · rintro ⟨id, hreach, hcycle⟩
    obtain ⟨f, stack, hbranch, rfl⟩ := Branch.exists_of_reaches hreach
    by_contra hnone
    push Not at hnone
    exact hbranch.acyclic hnone hcycle

end Survey

namespace ScopeTable

/-- The steps between the scopes that can be reached from a root. -/
def LeadsWithin (table : ScopeTable M) (rootId a b : ScopeId) : Prop :=
  Relation.ReflTransGen table.LeadsTo rootId a ∧ Relation.ReflTransGen table.LeadsTo rootId b ∧
    table.LeadsTo a b

/-- A path of steps stays among the scopes that can be reached if it begins there. -/
theorem leadsWithin_of_leadsTo {table : ScopeTable M} {rootId a b : ScopeId}
    (hreach : Relation.ReflTransGen table.LeadsTo rootId a)
    (h : Relation.TransGen table.LeadsTo a b) :
    Relation.TransGen (table.LeadsWithin rootId) a b := by
  induction h with
  | single hstep => exact .single ⟨hreach, hreach.tail hstep, hstep⟩
  | tail hpath hstep ih =>
    have hmiddle := hreach.trans hpath.to_reflTransGen
    exact ih.tail ⟨hmiddle, hmiddle.tail hstep, hstep⟩

theorem exists_cycle_iff {table : ScopeTable M} {rootId : ScopeId} :
    (∃ id, Relation.TransGen (table.LeadsWithin rootId) id id) ↔
      ∃ id, Relation.ReflTransGen table.LeadsTo rootId id ∧
        Relation.TransGen table.LeadsTo id id := by
  constructor
  · rintro ⟨id, hcycle⟩
    obtain ⟨next, hstep, _⟩ := Relation.TransGen.head'_iff.1 hcycle
    exact ⟨id, hstep.1, hcycle.lift (fun id => id) fun _ _ h => h.2.2⟩
  · rintro ⟨id, hreach, hcycle⟩
    exact ⟨id, leadsWithin_of_leadsTo hreach hcycle⟩

end ScopeTable

namespace Scheme

/-- A compiled scheme is recursive if and only if the steps between the scopes that can be reached
from its root have a cycle. -/
theorem recursive_iff_cycle {table : ScopeTable M} {rootId : ScopeId} {catalog : Catalog}
    {s : Scheme M k} (h : compile table k rootId catalog = .ok s) :
    s.recursive = true ↔ ∃ id, Relation.TransGen (table.LeadsWithin rootId) id id := by
  obtain ⟨root, survey, _, _, _, hsurvey, rfl⟩ := compile_eq_ok h
  rw [ScopeTable.exists_cycle_iff, ← ScopeTable.edge_outlines]
  exact Survey.recursive_iff hsurvey

/-- Orders whose lines can be orders lead back to themselves, and others do not. -/
theorem recursive_iff_cycle_orders :
    (∃ s : Scheme Orders.space .obj,
      compile (Orders.table true) .obj ⟨0⟩ Orders.catalog = .ok s ∧ s.recursive = true ∧
      ∃ id, Relation.TransGen ((Orders.table true).LeadsWithin ⟨0⟩) id id) ∧
    ∃ s : Scheme Orders.space .obj,
      compile (Orders.table false) .obj ⟨0⟩ Orders.catalog = .ok s ∧ s.recursive = false ∧
      ¬∃ id, Relation.TransGen ((Orders.table false).LeadsWithin ⟨0⟩) id id := by
  have hnested : compile (Orders.table true) .obj ⟨0⟩ Orders.catalog = .ok _ := rfl
  have hflat : compile (Orders.table false) .obj ⟨0⟩ Orders.catalog = .ok _ := rfl
  refine ⟨⟨_, hnested, rfl, (recursive_iff_cycle hnested).1 rfl⟩, _, hflat, rfl, ?_⟩
  intro hcycle
  have hrecursive := (recursive_iff_cycle hflat).2 hcycle
  exact nomatch hrecursive

end Scheme

end Rulebook
