import Rulebook.Proofs.Coverage

/-!
# Validation ends

A run nests visits.  There are two reasons why it cannot do so without end.

* Where the scopes are not recursive, the visits on the way to a visit are those of a branch of
  the survey, and a branch is no longer than the table.  Nothing has to be known of the model.
* Where loops are guarded, each step that enters a node opens one that was not open, so there are
  only as many of them as the model has nodes.  Between two of them there are only inclusions, and
  they do not lead back to a scope, because the survey would have failed.

So some bound for the nesting is enough, and it depends on the scheme and the number of nodes
only.
-/

namespace Rulebook

open Survey

variable {M : ModelSpace} {k : M.Kind}

/-! ## Runs of inclusions -/

/-- The scopes of `stays` lead to a scope by inclusions only, one after the other. -/
structure Survey.Stays (outlines : Dict ScopeId Outline) (stays : List ScopeId) (id : ScopeId) :
    Prop where
  nodup : stays.Nodup
  keys : stays ⊆ outlines.keys
  includes : ∀ a ∈ stays, Relation.TransGen (Includes outlines) a id

namespace Survey.Stays

variable {outlines : Dict ScopeId Outline} {stays : List ScopeId} {id : ScopeId}

theorem nil (outlines : Dict ScopeId Outline) (id : ScopeId) : Stays outlines [] id :=
  ⟨List.nodup_nil, List.nil_subset _, nofun⟩

theorem cons_nodup (h : Stays outlines stays id)
    (hcycle : ¬Relation.TransGen (Includes outlines) id id) : (id :: stays).Nodup :=
  List.nodup_cons.2 ⟨fun hmem => hcycle (h.includes id hmem), h.nodup⟩

theorem cons (h : Stays outlines stays id)
    (hcycle : ¬Relation.TransGen (Includes outlines) id id) (hkey : id ∈ outlines.keys)
    {next : ScopeId} (hnext : Includes outlines id next) :
    Stays outlines (id :: stays) next where
  nodup := h.cons_nodup hcycle
  keys := List.cons_subset.2 ⟨hkey, h.keys⟩
  includes := by
    rw [List.forall_mem_cons]
    exact ⟨.single hnext, fun a ha => (h.includes a ha).tail hnext⟩

/-- There are fewer of them than scopes, as the last is another one. -/
theorem length_lt (h : Stays outlines stays id)
    (hcycle : ¬Relation.TransGen (Includes outlines) id id) (hkey : id ∈ outlines.keys) :
    stays.length < outlines.size := by
  have hle := ((h.cons_nodup hcycle).subperm (List.cons_subset.2 ⟨hkey, h.keys⟩)).length_le
  rwa [Dict.length_keys] at hle

end Survey.Stays

namespace Visit

variable {scopes : ScopeTable M} {approach : Walk.Approach} {visit next : Visit M}

theorem Leads.mem_keys (h : Leads scopes approach visit next) :
    visit.id ∈ scopes.outlines.keys := by
  obtain ⟨o, _, ho, _⟩ := h.exists_step
  exact Dict.mem_keys_iff.2 ⟨o, ho⟩

theorem Leads.exists_value (h : Leads scopes approach visit next) :
    ∃ v, visit.value = some v := by
  cases h with
  | step => exact ⟨_, rfl⟩

/-- A step that stays at a node is an inclusion. -/
theorem Leads.includes (h : Leads scopes .staying visit next) :
    Includes scopes.outlines visit.id next.id := by
  generalize happroach : Walk.Approach.staying = approach at h
  cases h with
  | @step id l v segments scope step next hscope hstep hnext =>
    cases step with
    | inclusion target =>
      obtain rfl := List.mem_singleton.1 hnext
      refine ⟨scope.outline, ScopeTable.find?_outlines hscope, ?_⟩
      rw [Scope.live_outline]
      exact List.mem_map_of_mem hstep
    | rule error test => exact nomatch happroach
    | member name target kind get => exact nomatch happroach
    | collection target kind elements => exact nomatch happroach
    | narrowing target kind view => exact nomatch happroach

end Visit

/-! ## Scopes that are not recursive -/

namespace Scheme

variable {s : Scheme M k} {model : Option (M.Value k)}

theorem IsCompiled.not_again (hs : s.IsCompiled) (h : s.recursive = false) (g f : Frame) :
    .again g f ∉ report s.scopes.outlines s.rootId := fun hmem => by
  have hrecursive := (recursive_of_ofOutlines hs.surveyed).2 ⟨g, f, hmem⟩
  rw [recursive] at h
  rw [h] at hrecursive
  exact Bool.false_ne_true hrecursive

/-- A scope that a run visits does not include itself. -/
theorem IsCompiled.not_includes_self (hs : s.IsCompiled) {visit : Visit M}
    (h : (s.rootVisit model).Reaches s.scopes visit) :
    ¬Relation.TransGen (Includes s.scopes.outlines) visit.id visit.id := by
  obtain ⟨f, stack, hbranch, hid, _⟩ := exists_branch h
  rw [← hid]
  exact hbranch.not_includes_self (ofOutlines_eq_ok_iff.1 hs.surveyed).1

/-- Where no scope is met again, the nesting is that of a branch. -/
theorem ending_of_branch (hagain : ∀ g f, .again g f ∉ report s.scopes.outlines s.rootId)
    {guard : Bool} {depth : Nat} {opened : List M.Node} {approach : Walk.Approach}
    {visit : Visit M} {f : Frame} {stack : List Frame}
    (h : Branch s.scopes.outlines s.rootId f stack) (hid : f.id = visit.id)
    (hroom : s.scopes.outlines.size ≤ depth + stack.length) :
    (visit.verdict s.scopes guard (depth + 1) opened approach).ending ≠ .outOfDepth := by
  intro hend
  induction depth generalizing opened approach visit f stack with
  | zero =>
    obtain ⟨_, _, next, hleads, _⟩ := Visit.leads_of_outOfDepth hend
    obtain ⟨o, step, ho, _⟩ := hleads.exists_step
    rw [← hid] at ho
    have hlt := h.length_lt ho
    omega
  | succ depth ih =>
    obtain ⟨_, _, next, hleads, hnextend⟩ := Visit.leads_of_outOfDepth hend
    obtain ⟨o, step, ho, hstep, htarget, _⟩ := hleads.exists_step
    rw [← hid] at ho
    rcases h.next_or_again ho hstep htarget with hnext | ⟨g, _, _, hmem⟩
    · refine ih hnext rfl ?_ hnextend
      rw [List.length_cons]
      omega
    · exact hagain _ _ hmem

/-! ## Guarded runs -/

/-- How many visits can be nested below a visit, where `free` nodes are not open and the scopes of
`stays` are on the way from the last node entered. -/
def room (s : Scheme M k) (free : Nat) (stays : List ScopeId) : Walk.Approach → Nat
  | .entering => free * (s.scopes.outlines.size + 1)
  | .staying => free * (s.scopes.outlines.size + 1) + (s.scopes.outlines.size - stays.length)

/-- The nodes that are open on the way. -/
structure Opens (nodes opened : List M.Node) : Prop where
  nodup : opened.Nodup
  subset : opened ⊆ nodes

/-- A node that is entered was not open. -/
theorem Opens.enter {nodes opened : List M.Node} (h : Opens nodes opened) {l : M.Kind}
    {v : M.Value l} (hpass : Evaluation.passesOver true opened .entering (some v) = false)
    (hv : M.nodeOf v ∈ nodes) : Opens nodes (M.nodeOf v :: opened) where
  nodup := List.nodup_cons.2
    ⟨fun hmem => Bool.eq_false_iff.1 hpass (Evaluation.passesOver_entering.2 hmem), h.nodup⟩
  subset := List.cons_subset.2 ⟨hv, h.subset⟩

theorem Opens.length_le {nodes opened : List M.Node} (h : Opens nodes opened) :
    opened.length ≤ nodes.length := (h.nodup.subperm h.subset).length_le

/-- Nested visits have less and less room. -/
theorem room_lt {nodes opened : List M.Node} (hopens : Opens nodes opened) {stays : List ScopeId}
    {visit next : Visit M} {approach approach' : Walk.Approach}
    (hcycle : ¬Relation.TransGen (Includes s.scopes.outlines) visit.id visit.id)
    (hstays : Stays s.scopes.outlines stays visit.id)
    (hleads : visit.Leads s.scopes approach' next)
    (hnodes : ∀ v, visit.value = some v → M.nodeOf v ∈ nodes)
    (hpass : Evaluation.passesOver true opened approach visit.value = false) :
    ∃ stays', Stays s.scopes.outlines stays' next.id ∧
      Opens nodes (Evaluation.openedBelow true opened approach visit.value) ∧
      s.room (nodes.length -
        (Evaluation.openedBelow true opened approach visit.value).length) stays' approach' <
      s.room (nodes.length - opened.length) stays approach := by
  obtain ⟨v, hv⟩ := hleads.exists_value
  have hkey := hleads.mem_keys
  have hlt := hstays.length_lt hcycle hkey
  rw [hv] at hpass ⊢
  cases approach with
  | entering =>
    have hopens' := hopens.enter hpass (hnodes v hv)
    have hle := hopens'.length_le
    rw [List.length_cons] at hle
    -- A node has been opened, which makes room for all inclusions that can follow.
    have hfree : nodes.length - opened.length =
        nodes.length - (M.nodeOf v :: opened).length + 1 := by
      rw [List.length_cons]
      omega
    cases approach' with
    | entering =>
      refine ⟨[], .nil _ _, hopens', ?_⟩
      rw [hfree, room, room, Nat.succ_mul]
      exact Nat.lt_add_of_pos_right (Nat.succ_pos _)
    | staying =>
      refine ⟨[visit.id], (Stays.nil _ _).cons hcycle hkey hleads.includes, hopens', ?_⟩
      rw [hfree, room, room, Nat.succ_mul]
      exact Nat.add_lt_add_left (by omega) _
  | staying =>
    cases approach' with
    | entering =>
      refine ⟨[], .nil _ _, hopens, ?_⟩
      rw [room, room]
      exact Nat.lt_add_of_pos_right (by omega)
    | staying =>
      refine ⟨visit.id :: stays, hstays.cons hcycle hkey hleads.includes, hopens, ?_⟩
      rw [room, room, List.length_cons]
      exact Nat.add_lt_add_left (by omega) _

/-- Only `nodes` can be reached from a model by the steps of the scheme. -/
def ReachesOnly (s : Scheme M k) (model : Option (M.Value k)) (nodes : List M.Node) : Prop :=
  ∀ visit, (s.rootVisit model).Reaches s.scopes visit →
    ∀ v, visit.value = some v → M.nodeOf v ∈ nodes

/-- A guarded visit that runs out of depth leads to one that does, too, and has less room. -/
theorem IsCompiled.exists_less_room (hs : s.IsCompiled) {nodes : List M.Node}
    (hnodes : s.ReachesOnly model nodes)
    {depth : Nat} {opened : List M.Node} {stays : List ScopeId} {approach : Walk.Approach}
    {visit : Visit M} (hreaches : (s.rootVisit model).Reaches s.scopes visit)
    (hopens : Opens nodes opened) (hstays : Stays s.scopes.outlines stays visit.id)
    (hend : (visit.verdict s.scopes true (depth + 1) opened approach).ending = .outOfDepth) :
    ∃ next opened' stays' approach', (s.rootVisit model).Reaches s.scopes next ∧
      Opens nodes opened' ∧ Stays s.scopes.outlines stays' next.id ∧
      s.room (nodes.length - opened'.length) stays' approach' <
        s.room (nodes.length - opened.length) stays approach ∧
      (next.verdict s.scopes true depth opened' approach').ending = .outOfDepth := by
  obtain ⟨hpass, approach', next, hleads, hnextend⟩ := Visit.leads_of_outOfDepth hend
  obtain ⟨stays', hstays', hopens', hlt⟩ := room_lt hopens (hs.not_includes_self hreaches) hstays
    hleads (hnodes visit hreaches) hpass
  exact ⟨next, _, stays', approach', hreaches.tail ⟨approach', hleads⟩, hopens', hstays', hlt,
    hnextend⟩

/-- Where loops are guarded, a visit that has room does not run out of depth. -/
theorem IsCompiled.ending_of_room (hs : s.IsCompiled) {nodes : List M.Node}
    (hnodes : s.ReachesOnly model nodes)
    {depth : Nat} {opened : List M.Node} {stays : List ScopeId} {approach : Walk.Approach}
    {visit : Visit M} (hreaches : (s.rootVisit model).Reaches s.scopes visit)
    (hopens : Opens nodes opened) (hstays : Stays s.scopes.outlines stays visit.id)
    (hroom : s.room (nodes.length - opened.length) stays approach ≤ depth) :
    (visit.verdict s.scopes true (depth + 1) opened approach).ending ≠ .outOfDepth := by
  intro hend
  induction depth generalizing opened stays approach visit with
  | zero =>
    obtain ⟨_, _, _, _, _, _, _, hlt, _⟩ := hs.exists_less_room hnodes hreaches hopens hstays hend
    omega
  | succ depth ih =>
    obtain ⟨_, _, _, _, hreaches', hopens', hstays', hlt, hend'⟩ :=
      hs.exists_less_room hnodes hreaches hopens hstays hend
    exact ih hreaches' hopens' hstays' (by omega) hend'

/-! ## Walks -/

theorem IsCompiled.exists_walk? (hs : s.IsCompiled) {depth : Nat} {options : Options}
    (h : (s.evaluateSegments options.guardLoops depth model).ending ≠ .outOfDepth) :
    ∃ w, s.walk? depth model options = some w := by
  refine hs.exists_walk?_of_ends ?_
  rw [evaluate_eq_map]
  exact h

theorem size_lt_depthBound (s : Scheme M k) (model : Option (M.Value k)) :
    s.scopes.size < s.depthBound model := by
  have hle := Nat.mul_le_mul_left (s.scopes.size + 1)
    (Nat.le_add_left 2 ((model.map M.reach).getD 0))
  rw [depthBound]
  omega

/-- A walk ends where the scopes are not recursive, whatever the model and the options are. -/
theorem IsCompiled.exists_walk?_of_not_recursive (hs : s.IsCompiled) (hrec : s.recursive = false)
    {depth : Nat} (hdepth : s.scopes.size < depth) (options : Options) :
    ∃ w, s.walk? depth model options = some w := by
  obtain ⟨depth, rfl⟩ := Nat.exists_eq_add_of_lt (Nat.zero_lt_of_lt hdepth)
  rw [Nat.zero_add] at hdepth ⊢
  refine hs.exists_walk? (ending_of_branch (hs.not_again hrec) .root rfl ?_)
  rw [ScopeTable.size_outlines]
  exact Nat.le_of_lt_succ hdepth

/-- A walk ends where loops are guarded and the model has finitely many nodes. -/
theorem IsCompiled.exists_walk?_of_guardLoops (hs : s.IsCompiled) {nodes : List M.Node}
    (hnodes : s.ReachesOnly model nodes)
    {depth : Nat} (hdepth : nodes.length * (s.scopes.size + 1) < depth) {options : Options}
    (hoptions : options.guardLoops = true) : ∃ w, s.walk? depth model options = some w := by
  obtain ⟨depth, rfl⟩ := Nat.exists_eq_add_of_lt (Nat.zero_lt_of_lt hdepth)
  rw [Nat.zero_add] at hdepth ⊢
  refine hs.exists_walk? ?_
  rw [hoptions]
  refine hs.ending_of_room hnodes .refl ⟨List.nodup_nil, List.nil_subset _⟩ (Stays.nil _ _) ?_
  rw [room, ScopeTable.size_outlines]
  exact Nat.le_of_lt_succ hdepth

/-- Validation ends, with loops guarded, without recursion, and with the options that suit the
scheme.  A bound for the nesting that depends on the number of scopes and nodes is enough, so
`validate` has an answer for a model of no more nodes than its space says. -/
theorem validation_ends {table : ScopeTable M} {rootId : ScopeId} {catalog : Catalog}
    (h : compile table k rootId catalog = .ok s) {nodes : List M.Node}
    (hnodes : s.ReachesOnly model nodes) {options : Options}
    (hoptions : options.guardLoops = true ∨ s.recursive = false ∨
      ∃ failFast, options = s.defaultOptions failFast) :
    (∀ depth, (s.scopes.size + 1) * (nodes.length + 1) ≤ depth →
      ∃ w, s.walk? depth model options = some w) ∧
    (nodes.length ≤ (model.map M.reach).getD 0 →
      ∃ errors, s.validate model options = some errors) := by
  have hs := isCompiled_of_compile h
  have hoptions' : options.guardLoops = true ∨ s.recursive = false := by
    rcases hoptions with hguard | hrec | ⟨failFast, rfl⟩
    · exact .inl hguard
    · exact .inr hrec
    · cases hrec : s.recursive with
      | true => exact .inl hrec
      | false => exact .inr rfl
  have hwalk (depth : Nat) (hdepth : (s.scopes.size + 1) * (nodes.length + 1) ≤ depth) :
      ∃ w, s.walk? depth model options = some w := by
    rw [Nat.mul_succ, Nat.mul_comm] at hdepth
    rcases hoptions' with hguard | hrec
    · exact hs.exists_walk?_of_guardLoops hnodes (by omega) hguard
    · exact hs.exists_walk?_of_not_recursive hrec (by omega) options
  refine ⟨hwalk, fun hreach => ?_⟩
  obtain ⟨w, hw⟩ := hwalk (s.depthBound model) (Nat.mul_le_mul_left _ (by omega))
  exact ⟨w.errors, by rw [validate, run?, hw, Option.map_some]⟩

end Scheme

/-! ## An order that contains itself -/

namespace Orders

open Document

/-- The lines of the knot. -/
def knotLines : View .list := (knotOrder.field? "lines" .list).get rfl

/-- The line of the knot that is there. -/
def knotLine : View .obj := (knotLines.children .obj)[1].get rfl

/-- The visits of the knot, less their segments. -/
def knotVisits (segments : List Path.Segment) : List (Visit space) :=
  [⟨⟨0⟩, Kind.obj, some knotOrder, segments⟩, ⟨⟨1⟩, Kind.list, some knotLines, segments⟩,
    ⟨⟨2⟩, Kind.obj, none, segments⟩, ⟨⟨2⟩, Kind.obj, some knotLine, segments⟩,
    ⟨⟨3⟩, Kind.obj, some knotLine, segments⟩]

/-- The nodes of the knot. -/
def knotNodes : List space.Node :=
  [space.nodeOf (k := Kind.obj) knotOrder, space.nodeOf (k := Kind.list) knotLines,
    space.nodeOf (k := Kind.obj) knotLine]

theorem knotVisits_nexts {segments : List Path.Segment} {visit next : Visit space}
    (h : visit ∈ knotVisits segments) (hnext : next ∈ visit.nexts (table true)) :
    ∃ below, next ∈ knotVisits below := by
  have hcases : next ∈ (knotVisits segments).flatMap (Visit.nexts (table true)) :=
    List.mem_flatMap.2 ⟨visit, h, hnext⟩
  have hnexts : (knotVisits segments).flatMap (Visit.nexts (table true)) =
      [⟨⟨1⟩, Kind.list, some knotLines, Path.extend segments (.member "lines")⟩,
        ⟨⟨2⟩, Kind.obj, none, Path.extend segments (.index 0)⟩,
        ⟨⟨2⟩, Kind.obj, some knotLine, Path.extend segments (.index 1)⟩,
        ⟨⟨3⟩, Kind.obj, some knotLine, segments⟩,
        ⟨⟨0⟩, Kind.obj, some knotOrder, Path.extend segments (.member "order")⟩] := rfl
  rw [hnexts] at hcases
  refine ⟨next.segments, ?_⟩
  simp only [List.mem_cons, List.not_mem_nil, or_false] at hcases
  rcases hcases with rfl | rfl | rfl | rfl | rfl <;> simp [knotVisits]

theorem knotVisits_of_reaches {visit : Visit space}
    (h : Visit.Reaches (table true) ⟨⟨0⟩, Kind.obj, some knotOrder, []⟩ visit) :
    ∃ segments, visit ∈ knotVisits segments := by
  induction h with
  | refl => exact ⟨[], List.mem_cons_self⟩
  | tail _ hstep ih =>
    obtain ⟨segments, hmem⟩ := ih
    obtain ⟨approach, hleads⟩ := hstep
    exact knotVisits_nexts hmem hleads.mem_nexts

theorem nodeOf_mem_knotNodes {visit : Visit space}
    (h : Visit.Reaches (table true) ⟨⟨0⟩, Kind.obj, some knotOrder, []⟩ visit) :
    ∀ v, visit.value = some v → space.nodeOf v ∈ knotNodes := by
  obtain ⟨segments, hmem⟩ := knotVisits_of_reaches h
  simp only [knotVisits, List.mem_cons, List.not_mem_nil, or_false] at hmem
  rcases hmem with rfl | rfl | rfl | rfl | rfl <;> rintro _ ⟨⟩ <;> simp [knotNodes]

end Orders

/-- Checking an order that contains itself ends with the options that suit its scheme. -/
theorem Scheme.validation_ends_knot :
    ∃ s : Scheme Orders.space .obj,
      Scheme.compile (Orders.table true) .obj ⟨0⟩ Orders.catalog = .ok s ∧
      (s.defaultOptions false).guardLoops = true ∧
      (∀ depth, (s.scopes.size + 1) * (Orders.knotNodes.length + 1) ≤ depth →
        ∃ w, s.walk? depth (some Orders.knotOrder) (s.defaultOptions false) = some w) ∧
      ∃ errors, s.validate (some Orders.knotOrder) (s.defaultOptions false) = some errors := by
  have h : Scheme.compile (Orders.table true) .obj ⟨0⟩ Orders.catalog = .ok _ := rfl
  have hends := Scheme.validation_ends h
    (fun _ hreaches => Orders.nodeOf_mem_knotNodes hreaches)
    (.inr (.inr ⟨false, rfl⟩))
  exact ⟨_, h, rfl, hends.1, hends.2 (by decide)⟩

end Rulebook
