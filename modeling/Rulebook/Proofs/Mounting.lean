import Rulebook.Proofs.Acceptance
import Rulebook.Proofs.Calls

/-!
# A scope says the same wherever it is reached

Without a guard and without `failFast`, what a call records does not depend on where it is made:
it is what a run of its scope alone finds, with the path of the call before each path of that run.

Nothing in a walk moves results about.  The shapes and the indexes of the nodes around a call are
in the same two lists as those of the nodes below it, and a path is put together when an error is
recorded.  So the proof goes by evaluations, for which the position is an argument: laying a path
before it changes nothing else (`Evaluation.eval_below`), because `Path.join` is associative.

What a run answers is a dictionary, and `Path.join base` sends different paths to different paths
(`Path.join_right_inj`).  Hence recording the moved events one by one is the same as appending the
moved lists (`recordAll_map_join`).
-/

namespace Rulebook

/-! ## Moving the errors by path -/

theorem Path.behind_inj {a b : List Char} (h : behind a = behind b) : a = b := by
  have hne {c : Char} {rest : List Char} : behind (c :: rest) ≠ [] := by
    rw [behind]
    split <;> exact List.cons_ne_nil _ _
  cases a with
  | nil =>
    cases b with
    | nil => rfl
    | cons d bs => exact absurd h.symm hne
  | cons c as =>
    cases b with
    | nil => exact absurd h hne
    | cons d bs =>
      rw [behind, behind] at h
      split at h <;> split at h <;> simp_all

/-- Different paths are different behind the same path. -/
theorem Path.join_right_inj (base : String) {a b : String} :
    join base a = join base b ↔ a = b := by
  constructor
  · intro h
    by_cases hbase : base = ""
    · rwa [hbase, empty_join, empty_join] at h
    · have hchars := congrArg String.toList h
      rw [toList_join hbase, toList_join hbase] at hchars
      exact String.toList_inj.1 (behind_inj (List.append_cancel_left hchars))
  · rintro rfl
    rfl

namespace ErrorsByPath

/-- The same errors, with a path before each of their paths. -/
def under (base : String) (errors : ErrorsByPath) : ErrorsByPath :=
  Dict.ofList (errors.entries.map fun e => (Path.join base e.1, e.2))

/-- The errors at each path, and behind them those that others have there. -/
def followedBy (errors more : ErrorsByPath) : ErrorsByPath :=
  more.entries.foldl (fun errors e => errors.alter e.1 fun ids => ids.getD [] ++ e.2) errors

theorem find?_under_eq_some_iff {base path : String} {errors : ErrorsByPath}
    {ids : List ErrorId} :
    (errors.under base).find? path = some ids ↔
      ∃ relative, Path.join base relative = path ∧ errors.find? relative = some ids := by
  have hkeys : ((errors.entries.map fun e => (Path.join base e.1, e.2)).map Prod.fst).Nodup := by
    have hnodup := errors.nodup_keys.map (f := Path.join base)
      fun a b h => (Path.join_right_inj base).1 h
    rw [Dict.keys, List.map_map] at hnodup
    rwa [List.map_map]
  rw [under, Dict.find?_ofList hkeys]
  simp only [List.mem_map, Prod.mk.injEq, Dict.find?_eq_some_iff, Prod.exists]
  constructor
  · rintro ⟨relative, _, hmem, hpath, rfl⟩
    exact ⟨relative, hpath, hmem⟩
  · rintro ⟨relative, hpath, hmem⟩
    exact ⟨relative, ids, hmem, hpath, rfl⟩

theorem find?_under_join (base : String) (errors : ErrorsByPath) (relative : String) :
    (errors.under base).find? (Path.join base relative) = errors.find? relative := by
  ext ids
  rw [find?_under_eq_some_iff]
  constructor
  · rintro ⟨other, hpath, hids⟩
    rwa [(Path.join_right_inj base).1 hpath] at hids
  · exact fun hids => ⟨relative, rfl, hids⟩

theorem find?_followedBy (errors more : ErrorsByPath) (path : String) :
    (errors.followedBy more).find? path =
      match more.find? path with
      | some ids => some ((errors.find? path).getD [] ++ ids)
      | none => errors.find? path := by
  obtain ⟨entries, hascending⟩ := more
  show (entries.foldl _ errors).find? path = match Dict.lookup path entries with
    | some ids => some ((errors.find? path).getD [] ++ ids)
    | none => errors.find? path
  induction entries generalizing errors with
  | nil => rfl
  | cons e rest ih =>
    obtain ⟨key, ids⟩ := e
    obtain ⟨hkey, hrest⟩ := List.pairwise_cons.1 hascending
    rw [List.foldl_cons, ih _ hrest, Dict.find?_alter, Dict.lookup]
    by_cases hpath : path = key
    · subst hpath
      rw [Dict.lookup_eq_none_of_lt hkey, if_pos rfl, if_pos Std.ReflCmp.compare_self]
    · rw [if_neg hpath, if_neg fun heq => hpath (Std.LawfulEqCmp.eq_of_compare heq)]

/-- Recording events below a path appends what they come to, moved there. -/
theorem recordAll_map_join (errors : ErrorsByPath) (base : String)
    (events : List (String × ErrorId)) :
    errors.recordAll (events.map (Prod.map (Path.join base) id)) =
      errors.followedBy ((group events).under base) := by
  refine Dict.ext_find? fun path => ?_
  rw [find?_recordAll, find?_followedBy]
  by_cases hpath : ∃ relative, Path.join base relative = path
  · obtain ⟨relative, rfl⟩ := hpath
    rw [find?_under_join, find?_group, idsAt_map fun e _ => (Path.join_right_inj base).1]
    split <;> rfl
  · have hnone : idsAt path (events.map (Prod.map (Path.join base) id)) = [] := by
      refine idsAt_eq_nil fun e he heq => hpath ?_
      obtain ⟨e', _, rfl⟩ := List.mem_map.1 he
      exact ⟨e'.1, heq⟩
    have hunder : ((group events).under base).find? path = none := by
      refine Option.eq_none_iff_forall_ne_some.2 fun ids hids => hpath ?_
      obtain ⟨relative, hrelative, _⟩ := find?_under_eq_some_iff.1 hids
      exact ⟨relative, hrelative⟩
    rw [if_pos hnone, hunder]

end ErrorsByPath

/-! ## Calls without a guard -/

/-- Where loops are not guarded, a call that ends has recorded what its scope evaluates to at the
root, moved below the path of the call. -/
theorem Walk.Call.For.errors_of_unguarded {M : ModelSpace} {c : Course M} {catalog : Catalog}
    (hfits : c.scopes.Fits catalog) (hpaths : ∀ b r, c.paths.resolve b r = Path.join b r)
    (hoptions : c.options = ⟨false, false⟩) {left : Nat} {call : Call M} {visit : Visit M}
    (hfor : call.For c (Walk.visit c left) visit) {after : Walk M}
    (hafter : call.after = some after) {r : Verdict String}
    (hr : Evaluation.eval Path.below c.scopes false left [] .entering call.id call.kind
      call.value "" = r) :
    r.ending ≠ .outOfDepth ∧ after.errors = call.before.errors.followedBy
      ((ErrorsByPath.group r.events).under call.before.position) := by
  have hguard : c.options.guardLoops = false := by rw [hoptions]
  have hplays := Walk.visit_follows hfits hpaths hguard left _ call.approach _ _ call.value _ _
    hfor.typed hfor.ready
  rw [← hfor.after, hafter, Evaluation.eval_below,
    Evaluation.eval_unguarded _ _ _ [] _ .entering, hr, hoptions] at hplays
  cases hplays with
  | ends hquiet hends =>
    refine ⟨hends, ?_⟩
    rw [hfor.ready.here]
    exact ErrorsByPath.recordAll_map_join call.before.errors _ r.events
  | halts hfast => exact nomatch hfast

namespace Scheme

variable {M : ModelSpace} {k : M.Kind} {s : Scheme M k}

/-- Where an evaluation ends, every walk that ends has recorded what it finds. -/
theorem IsCompiled.errors_eq_of_ends (hs : s.IsCompiled) {depth depth' : Nat}
    {model : Option (M.Value k)} {guard : Bool} {w : Walk M}
    (h : (s.evaluate guard depth model).ending ≠ .outOfDepth)
    (hw : s.walk? depth' model ⟨false, guard⟩ = some w) :
    w.errors = ErrorsByPath.group (s.evaluate guard depth model).events := by
  have hanswer := hs.map_errors_walk? depth' model guard
  rw [hw, Option.map_some, Verdict.answer] at hanswer
  split at hanswer
  · cases hanswer
  · rename_i hends
    have hsame : s.evaluate guard depth' model = s.evaluate guard depth model :=
      Evaluation.eval_eq_of_ends h hends
    rw [Option.some.inj hanswer, hsame]

/-- Whatever a run calls, wherever it does so, the call records what a run of its scope alone
finds: the paths of that run are laid behind the path of the call, and the errors at each of them
are appended to those that are there. -/
theorem checked_alike_everywhere {table : ScopeTable M} {rootId : ScopeId} {catalog : Catalog}
    (h : compile table k rootId catalog = .ok s) {depth : Nat} {model : Option (M.Value k)}
    {call : Walk.Call M} (hcall : call ∈ s.calls depth model ⟨false, false⟩) :
    (∀ w, s.walk? depth model ⟨false, false⟩ = some w → ∃ after, call.after = some after) ∧
    ∃ (segments : List Path.Segment) (alone : Scheme M call.kind),
      (s.rootVisit model).Reaches table (call.visitAt segments) ∧
      call.before.position = Path.ofSegments segments ∧
      compile table call.kind call.id catalog = .ok alone ∧
      ∀ after, call.after = some after →
        (∃ depth w, alone.walk? depth call.value ⟨false, false⟩ = some w) ∧
        (∀ depth w, alone.walk? depth call.value ⟨false, false⟩ = some w →
          after.errors = call.before.errors.followedBy (w.errors.under call.before.position)) ∧
        ∀ errors, alone.validate call.value ⟨false, false⟩ = some errors →
          after.errors = call.before.errors.followedBy (errors.under call.before.position) := by
  have hs := isCompiled_of_compile h
  refine ⟨fun w hw => hs.calls_end hw hcall, ?_⟩
  obtain ⟨left, visit, hreaches, hfor⟩ := hs.calls_for hcall
  rw [hfor.eq_visitAt] at hreaches
  obtain ⟨scope, hscope⟩ := hfor.typed
  obtain ⟨root, survey, _, _, _, _, rfl⟩ := compile_eq_ok h
  obtain ⟨alone, halone⟩ := exists_compile_of_reaches h hreaches.leadsTo
    (ScopeTable.kind?_eq_some_iff.2 ⟨scope, hscope⟩)
  refine ⟨visit.segments, alone, hreaches, hfor.ready.here, halone, fun after hafter => ?_⟩
  obtain ⟨hends, herrors⟩ := hfor.errors_of_unguarded hs.fits hs.resolve_eq rfl hafter
    (evaluate_of_compile halone false left call.value).symm
  have hsAlone := isCompiled_of_compile halone
  have hevery {depth : Nat} {w : Walk M}
      (hw : alone.walk? depth call.value ⟨false, false⟩ = some w) :
      after.errors = call.before.errors.followedBy (w.errors.under call.before.position) := by
    rw [herrors, hsAlone.errors_eq_of_ends hends hw]
  refine ⟨⟨left, hsAlone.exists_walk?_of_ends hends⟩, fun depth w hw => hevery hw,
    fun errors hvalidate => ?_⟩
  obtain ⟨w, hw, rfl⟩ := Option.map_eq_some_iff.1 hvalidate
  exact hevery hw

/-- The inner order of the tower has no customer and misses a line, as it does alone. -/
theorem checked_alike_everywhere_tower :
    ∃ (s : Scheme Orders.space .obj) (call : Walk.Call Orders.space)
      (alone : Scheme Orders.space call.kind) (after : Walk Orders.space) (errors : ErrorsByPath),
      compile (Orders.table true) .obj ⟨0⟩ Orders.catalog = .ok s ∧
      call ∈ s.calls 7 (some Orders.towerOrder) ⟨false, false⟩ ∧ call.after = some after ∧
      call.before.position = "lines[0].order" ∧
      compile (Orders.table true) call.kind call.id Orders.catalog = .ok alone ∧
      alone.validate call.value ⟨false, false⟩ = some errors ∧
      errors.entries = [("", [⟨0⟩]), ("lines[0]", [⟨2⟩])] ∧
      (errors.under "lines[0].order").entries =
        [("lines[0].order", [⟨0⟩]), ("lines[0].order.lines[0]", [⟨2⟩])] ∧
      after.errors = call.before.errors.followedBy (errors.under "lines[0].order") := by
  have h : compile (Orders.table true) .obj ⟨0⟩ Orders.catalog = .ok _ := rfl
  have hrun (s : Scheme Orders.space .obj)
      (hs : compile (Orders.table true) .obj ⟨0⟩ Orders.catalog = .ok s) :
      ∃ order lines line article inner more after,
        s.calls 7 (some Orders.towerOrder) ⟨false, false⟩ =
          [order, lines, line, article, inner] ++ more ∧
        inner.after = some after ∧ inner.before.position = "lines[0].order" ∧
        ∀ alone, compile (Orders.table true) inner.kind inner.id Orders.catalog = .ok alone →
          ∃ errors, alone.validate inner.value ⟨false, false⟩ = some errors ∧
            errors.entries = [("", [⟨0⟩]), ("lines[0]", [⟨2⟩])] ∧
            (errors.under "lines[0].order").entries =
              [("lines[0].order", [⟨0⟩]), ("lines[0].order.lines[0]", [⟨2⟩])] := by
    obtain rfl := Except.ok.inj (h.symm.trans hs)
    refine ⟨_, _, _, _, _, _, _, rfl, rfl, rfl, fun alone halone => ?_⟩
    obtain rfl := Except.ok.inj (h.symm.trans halone)
    exact ⟨_, rfl, rfl, rfl⟩
  obtain ⟨order, lines, line, article, inner, more, after, hcalls, hafter, hposition, hinner⟩ :=
    hrun _ h
  have hmem : inner ∈ [order, lines, line, article, inner] ++ more := by simp
  rw [← hcalls] at hmem
  obtain ⟨_, _, alone, _, _, halone, hall⟩ := checked_alike_everywhere h hmem
  obtain ⟨errors, hvalidate, hentries, hmoved⟩ := hinner alone halone
  have herrors := (hall after hafter).2.2 errors hvalidate
  rw [hposition] at herrors
  exact ⟨_, inner, alone, after, errors, h, hmem, hafter, hposition, halone, hvalidate, hentries,
    hmoved, herrors⟩

end Scheme

end Rulebook
