import Mathlib.Data.List.TakeWhile
import Rulebook.Phrasebook
import Rulebook.Proofs.Distinct
import Rulebook.Proofs.Failing
import Rulebook.Proofs.Lookup

/-!
# Merging wordings

What a phrasebook holds after any calls that merge wordings into it or insert single templates, of
which some are refused.

There are four groups.

* Blanks.  `checkEntry_eq_ok_iff` says which entries pass, in terms of trimmed texts.
* Calls.  A phrasebook is changed in place, so a call that fails might leave behind what it wrote
  before.  `Editing` is work of that kind, and `on_edit` says that a call either does all of its
  work or none.
* What writing comes to.  `Holds` describes a phrasebook by the entries that were written one
  after the other, the English templates first, and `Holds.write` is the one step of the
  induction.
* Runs.  `perform` makes calls one after the other and notes what each came to; what the
  phrasebook holds is determined by the calls that succeeded.

A wording may be merged that has no templates.  Its language is known from then on, so the
languages cannot be told from the templates alone.
-/

namespace Rulebook

/-! ## Blanks -/

namespace Text

/-- A text without the blanks at its two ends. -/
def trimmed (s : String) : String :=
  String.ofList ((s.toList.dropWhile isBlankChar).reverse.dropWhile isBlankChar).reverse

/-- A text is blank if and only if nothing is left of it when it is trimmed. -/
theorem isBlank_iff {s : String} : isBlank s = true ↔ trimmed s = "" := by
  have hempty : trimmed s = "" ↔ ∀ c ∈ s.toList.dropWhile isBlankChar, isBlankChar c = true := by
    rw [trimmed, ← String.toList_eq_nil_iff, String.toList_ofList, List.reverse_eq_nil_iff,
      List.dropWhile_eq_nil_iff]
    simp
  rw [hempty, isBlank, List.all_eq_true]
  constructor
  · intro h c hc
    exact h c ((List.dropWhile_suffix _).subset hc)
  · intro h c hc
    rw [← List.takeWhile_append_dropWhile (p := isBlankChar) (l := s.toList)] at hc
    rcases List.mem_append.1 hc with hc | hc
    · exact List.mem_takeWhile_imp hc
    · exact h c hc

end Text

namespace Phrasebook

open Text (trimmed isBlank_iff)

variable {b b' : Phrasebook} {entry : String × Wording} {written : List (String × Wording)}

/-- The name of a wording or one of its keys is blank. -/
def HasBlank (entry : String × Wording) : Prop :=
  trimmed entry.1 = "" ∨ ∃ key ∈ entry.2.keys, trimmed key = ""

theorem checkEntry_eq_ok_iff : checkEntry entry = .ok () ↔ ¬HasBlank entry := by
  unfold checkEntry
  cases hname : Text.isBlank entry.1 with
  | true =>
    have hblank : HasBlank entry := .inl (isBlank_iff.1 hname)
    simpa using hblank
  | false =>
    have hname' : trimmed entry.1 ≠ "" := fun h => by simp [isBlank_iff.2 h] at hname
    cases hkeys : entry.2.keys.any Text.isBlank with
    | true =>
      obtain ⟨key, hkey, hblank⟩ := List.any_eq_true.1 hkeys
      have hblank' : HasBlank entry := .inr ⟨key, hkey, isBlank_iff.1 hblank⟩
      simpa using hblank'
    | false =>
      have hkeys' : ∀ key ∈ entry.2.keys, trimmed key ≠ "" := by
        intro key hkey h
        exact absurd (isBlank_iff.2 h) (List.any_eq_false.1 hkeys key hkey)
      simpa [HasBlank, hname'] using hkeys'

/-! ## Calls -/

/-- Work on a phrasebook that is changed in place: what was written before a failure stays. -/
abbrev Editing := ExceptT PhraseError (StateM Phrasebook)

/-- The outcome of work on a phrasebook, and the phrasebook after it. -/
def on (x : Editing Unit) (b : Phrasebook) : Except PhraseError Unit × Phrasebook := x.run b

theorem on_bind_of_ok {x : Editing Unit} (h : on x b = (.ok (), b')) (f : Unit → Editing Unit) :
    on (x >>= f) b = on (f ()) b' :=
  run_bind_of_ok h f

theorem on_bind_of_error {x : Editing Unit} {e : PhraseError} (h : on x b = (.error e, b'))
    (f : Unit → Editing Unit) : on (x >>= f) b = (.error e, b') :=
  run_bind_of_error h f

/-- Refuses an entry with a blank, and writes nothing. -/
def inspect (entry : String × Wording) : Editing Unit := MonadExcept.ofExcept (checkEntry entry)

/-- Merges wordings in place: all of them are inspected before the first is written. -/
def edit (entries : List (String × Wording)) : Editing Unit := do
  entries.forM inspect
  entries.forM fun entry => modify (·.write entry)

theorem on_inspect (entry : String × Wording) (b : Phrasebook) :
    on (inspect entry) b = (checkEntry entry, b) := by
  unfold inspect
  cases checkEntry entry <;> rfl

theorem on_forM_inspect (entries : List (String × Wording)) (b : Phrasebook) :
    on (entries.forM inspect) b = (entries.forM checkEntry, b) := by
  induction entries with
  | nil => rfl
  | cons entry rest ih =>
    have hentry := on_inspect entry b
    change on (inspect entry >>= fun _ => rest.forM inspect) b =
      (checkEntry entry >>= fun _ => rest.forM checkEntry, b)
    cases hcheck : checkEntry entry with
    | error e =>
      rw [hcheck] at hentry
      exact on_bind_of_error hentry _
    | ok u =>
      rw [hcheck] at hentry
      rw [on_bind_of_ok hentry, ih]
      rfl

theorem on_forM_write (entries : List (String × Wording)) (b : Phrasebook) :
    on (entries.forM fun entry => modify (·.write entry)) b =
      (.ok (), entries.foldl write b) := by
  induction entries generalizing b with
  | nil => rfl
  | cons entry rest ih => exact ih (b.write entry)

/-- A merge in place does all of its work or none. -/
theorem on_edit (entries : List (String × Wording)) (b : Phrasebook) :
    on (edit entries) b =
      match b.merge entries with
      | .ok b' => (.ok (), b')
      | .error e => (.error e, b) := by
  have hinspect := on_forM_inspect entries b
  unfold edit merge
  cases hcheck : entries.forM checkEntry with
  | error e =>
    rw [hcheck] at hinspect
    exact on_bind_of_error hinspect _
  | ok u =>
    rw [hcheck] at hinspect
    rw [on_bind_of_ok hinspect, on_forM_write]
    rfl

/-- A call that changes a phrasebook. -/
inductive Call where
  | merge (entries : List (String × Wording))
  | insert (language key template : String)

namespace Call

/-- What a call asks to be written. -/
def entries : Call → List (String × Wording)
  | merge entries => entries
  | insert language key template => [(language, Dict.empty.insert key template)]

/-- Makes a call in place. -/
def edit (c : Call) : Editing Unit := Phrasebook.edit c.entries

/-- What a call answers: the phrasebook with its changes, or why it is refused. -/
def answer (b : Phrasebook) : Call → Except PhraseError Phrasebook
  | merge entries => b.merge entries
  | insert language key template => b.insert language key template

/-- Some name or key in a call is blank. -/
def HasBlank (c : Call) : Prop := ∃ entry ∈ c.entries, Phrasebook.HasBlank entry

variable {c : Call}

theorem on_edit (c : Call) (b : Phrasebook) :
    on c.edit b =
      match c.answer b with
      | .ok b' => (.ok (), b')
      | .error e => (.error e, b) := by
  have hanswer : c.answer b = b.merge c.entries := by cases c <;> rfl
  rw [hanswer]
  exact Phrasebook.on_edit c.entries b

theorem on_edit_of_not_hasBlank (h : ¬c.HasBlank) (b : Phrasebook) :
    on c.edit b = (.ok (), c.entries.foldl write b) := by
  have hcheck : c.entries.forM checkEntry = .ok () := by
    rw [forM_eq_ok_iff]
    intro entry hentry
    rw [checkEntry_eq_ok_iff]
    exact fun hblank => h ⟨entry, hentry, hblank⟩
  rw [edit, Phrasebook.on_edit, Phrasebook.merge, hcheck]
  rfl

theorem on_edit_of_hasBlank (h : c.HasBlank) (b : Phrasebook) :
    ∃ e, on c.edit b = (.error e, b) := by
  obtain ⟨entry, hentry, hblank⟩ := h
  rw [edit, Phrasebook.on_edit, Phrasebook.merge]
  cases hcheck : c.entries.forM checkEntry with
  | error e => exact ⟨e, rfl⟩
  | ok u =>
    have hentry' := checkEntry_eq_ok_iff.1 (forM_eq_ok_iff.1 hcheck entry hentry)
    exact absurd hblank hentry'

/-- A call fails if and only if it has a blank. -/
theorem fails_iff {b : Phrasebook} : (∃ e, (on c.edit b).1 = .error e) ↔ c.HasBlank := by
  constructor
  · rintro ⟨e, he⟩
    by_contra h
    rw [on_edit_of_not_hasBlank h] at he
    exact nomatch he
  · intro h
    obtain ⟨e, he⟩ := on_edit_of_hasBlank h b
    exact ⟨e, by rw [he]⟩

end Call

/-! ## What writing comes to -/

/-- One template, written under a key of a language. -/
structure Write where
  language : String
  key : String
  template : String
  deriving DecidableEq

/-- What an entry writes. -/
def writesOf (entry : String × Wording) : List Write :=
  entry.2.entries.map fun p => ⟨entry.1, p.1, p.2⟩

/-- The template that was written last under a key of a language. -/
def lastWritten (writes : List Write) (language key : String) : Option String :=
  (writes.reverse.find? fun w => w.language = language ∧ w.key = key).map Write.template

/-- The template under a key of a language. -/
def template? (b : Phrasebook) (language key : String) : Option String :=
  (b.wording? language).bind (·.find? key)

theorem lastWritten_append (before after : List Write) (language key : String) :
    lastWritten (before ++ after) language key =
      (lastWritten after language key).or (lastWritten before language key) := by
  rw [lastWritten, List.reverse_append, List.find?_append, Option.map_or]
  rfl

theorem lastWritten_singleton (w : Write) (language key : String) :
    lastWritten [w] language key =
      if language = w.language ∧ key = w.key then some w.template else none := by
  by_cases h : language = w.language ∧ key = w.key
  · simp [lastWritten, h.1, h.2]
  · have h' : ¬(w.language = language ∧ w.key = key) := fun hw => h ⟨hw.1.symm, hw.2.symm⟩
    simp [lastWritten, h, h']

/-- An entry has one template under each of its keys. -/
theorem lastWritten_writesOf (entry : String × Wording) (language key : String) :
    lastWritten (writesOf entry) language key =
      if language = entry.1 then entry.2.find? key else none := by
  obtain ⟨name, entries, hascending⟩ := entry
  unfold writesOf Dict.find?
  dsimp only
  induction entries with
  | nil => simp [lastWritten, Dict.lookup]
  | cons p rest ih =>
    obtain ⟨k, t⟩ := p
    obtain ⟨hfirst, hrest⟩ := List.pairwise_cons.1 hascending
    rw [List.map_cons, List.singleton_append.symm, lastWritten_append, ih hrest,
      lastWritten_singleton, Dict.lookup]
    by_cases hlanguage : language = name
    · by_cases hkey : key = k
      · have hnone : Dict.lookup key rest = none := Dict.lookup_eq_none_of_lt (hkey ▸ hfirst)
        simp [hlanguage, hkey, hkey ▸ hnone]
      · simp [hlanguage, hkey]
    · simp [hlanguage]

/-- What was there shows through where a wording that is written over it has no template. -/
theorem find?_insertAll_entries (w upper : Wording) (key : String) :
    (w.insertAll upper.entries).find? key = (upper.find? key).or (w.find? key) := by
  ext template
  rw [Dict.find?_insertAll upper.nodup_keys, ← Dict.find?_eq_some_iff]
  change _ ∨ key ∉ upper.keys ∧ _ ↔ _
  rw [Dict.mem_keys_iff]
  cases upper.find? key <;> simp

theorem template?_write (b : Phrasebook) (entry : String × Wording) (language key : String) :
    (b.write entry).template? language key =
      if language = entry.1 then (entry.2.find? key).or (b.template? language key)
      else b.template? language key := by
  unfold template? wording? write
  rw [Dict.find?_alter]
  split
  · rename_i hlanguage
    subst hlanguage
    rw [Option.bind_some, find?_insertAll_entries]
    cases b.wordings.find? entry.1 <;> rfl
  · rfl

theorem contains_write {language : String} :
    (b.write entry).contains language = true ↔
      language = entry.1 ∨ b.contains language = true := by
  unfold contains Dict.contains write
  rw [Dict.find?_alter]
  split
  · rename_i hlanguage
    simp [hlanguage]
  · rename_i hlanguage
    simp [hlanguage]

/-- The phrasebook is what the written entries come to, in their order. -/
structure Holds (written : List (String × Wording)) (b : Phrasebook) : Prop where
  names : b.names = (written.map Prod.fst).eraseDups
  known : ∀ language, b.contains language = true ↔ language ∈ written.map Prod.fst
  templates : ∀ language key,
    b.template? language key = lastWritten (written.flatMap writesOf) language key

theorem Holds.write (h : Holds written b) (entry : String × Wording) :
    Holds (written ++ [entry]) (b.write entry) where
  names := by
    have hany : (written.map Prod.fst).any (· == entry.1) = b.contains entry.1 := by
      rw [Bool.eq_iff_iff, h.known, List.any_eq_true]
      simp
    rw [List.map_append, List.map_singleton, Distinct.eraseDups_concat, hany, ← h.names]
    rfl
  known language := by
    rw [contains_write, h.known, List.map_append, List.mem_append, List.map_singleton,
      List.mem_singleton, or_comm]
  templates language key := by
    rw [List.flatMap_append, lastWritten_append, ← h.templates, List.flatMap_singleton,
      lastWritten_writesOf, template?_write]
    split <;> simp

theorem Holds.foldl (h : Holds written b) (entries : List (String × Wording)) :
    Holds (written ++ entries) (entries.foldl Phrasebook.write b) := by
  induction entries generalizing written b with
  | nil => rwa [List.append_nil]
  | cons entry rest ih =>
    rw [List.append_cons]
    exact ih (h.write entry)

theorem Holds.start : Holds [(english, englishWording)] initial := by
  have hempty : Holds [] ⟨∅, []⟩ := ⟨rfl, by simp [contains, Dict.contains], fun _ _ => rfl⟩
  exact hempty.write (english, englishWording)

/-! ## Runs -/

/-- What became of each call that was made. -/
abbrev Log := List (Call × Except PhraseError Unit)

/-- Makes calls one after the other, whether they fail or not. -/
def perform (b : Phrasebook) : List Call → Log × Phrasebook
  | [] => ([], b)
  | c :: cs =>
    let now := on c.edit b
    let later := perform now.2 cs
    ((c, now.1) :: later.1, later.2)

/-- The entries of the calls that succeeded, in order. -/
def Log.accepted (log : Log) : List (String × Wording) :=
  (log.filter (·.2.isOk)).flatMap (·.1.entries)

/-- Each call is noted with what it came to, and it fails if and only if it has a blank. -/
theorem perform_fst (b : Phrasebook) (calls : List Call) :
    (perform b calls).1.map Prod.fst = calls ∧
      ∀ p ∈ (perform b calls).1, (∃ e, p.2 = .error e) ↔ p.1.HasBlank := by
  induction calls generalizing b with
  | nil => simp [perform]
  | cons c cs ih =>
    obtain ⟨hcalls, hfails⟩ := ih (on c.edit b).2
    refine ⟨?_, ?_⟩
    · rw [perform, List.map_cons, hcalls]
    · rw [perform, List.forall_mem_cons]
      exact ⟨Call.fails_iff, hfails⟩

/-- A run comes to what the calls write that succeed. -/
theorem perform_snd (b : Phrasebook) (calls : List Call) :
    (perform b calls).2 = (perform b calls).1.accepted.foldl write b := by
  induction calls generalizing b with
  | nil => rfl
  | cons c cs ih =>
    rw [perform]
    dsimp only
    rw [ih]
    by_cases h : c.HasBlank
    · obtain ⟨e, he⟩ := Call.on_edit_of_hasBlank h b
      rw [he]
      rfl
    · rw [Call.on_edit_of_not_hasBlank h]
      exact (List.foldl_append ..).symm

/-- What is promised of a phrasebook into which these entries were written, the English templates
before the others. -/
structure Consistent (written : List (String × Wording)) (b : Phrasebook) : Prop where
  /-- The languages stand in the order in which they first came. -/
  order : b.names = (written.map Prod.fst).eraseDups
  nodup : b.names.Nodup
  /-- There is a wording for each language, and for nothing else. -/
  keys : ∀ language, language ∈ b.names ↔ language ∈ b.wordings.keys
  first : b.names.head? = some english
  builtIn : ∀ key ∈ ["Global.Error", "Global.Required", "Global.Forbidden"],
    (b.template? english key).isSome
  noBlank : ∀ language w, b.wording? language = some w → ¬HasBlank (language, w)
  /-- A template is the last one that was written there. -/
  templates : ∀ language key,
    b.template? language key = lastWritten (written.flatMap writesOf) language key

theorem exists_write {writes : List Write} {language key template : String}
    (h : lastWritten writes language key = some template) :
    ∃ w ∈ writes, w.language = language ∧ w.key = key := by
  obtain ⟨w, hw, _⟩ := Option.map_eq_some_iff.1 h
  have hmatch : w.language = language ∧ w.key = key := by simpa using List.find?_some hw
  exact ⟨w, List.mem_reverse.1 (List.mem_of_find?_eq_some hw), hmatch⟩

theorem lastWritten_isSome {writes : List Write} {w : Write} (h : w ∈ writes) :
    (lastWritten writes w.language w.key).isSome := by
  rw [lastWritten, Option.isSome_map, List.find?_isSome]
  exact ⟨w, List.mem_reverse.2 h, by simp⟩

namespace Holds

theorem template?_builtIn (h : Holds ((english, englishWording) :: written) b) {key : String}
    (hkey : key ∈ ["Global.Error", "Global.Required", "Global.Forbidden"]) :
    (b.template? english key).isSome := by
  have hmem : ∃ template, Write.mk english key template ∈ writesOf (english, englishWording) := by
    simp only [List.mem_cons, List.not_mem_nil, or_false] at hkey
    rcases hkey with rfl | rfl | rfl
    · exact ⟨"Error", by decide⟩
    · exact ⟨"Required", by decide⟩
    · exact ⟨"Forbidden", by decide⟩
  obtain ⟨template, hmem⟩ := hmem
  rw [h.templates, List.flatMap_cons]
  exact lastWritten_isSome (w := ⟨english, key, template⟩) (List.mem_append_left _ hmem)

theorem not_hasBlank (h : Holds written b) (hclean : ∀ entry ∈ written, ¬HasBlank entry)
    {language : String} {w : Wording} (hw : b.wording? language = some w) :
    ¬HasBlank (language, w) := by
  rintro (hname | ⟨key, hkey, hblank⟩)
  · have hknown : b.contains language = true := by
      rw [contains, Dict.contains, ← wording?, hw]; rfl
    obtain ⟨entry, hentry, rfl⟩ := List.mem_map.1 ((h.known language).1 hknown)
    exact hclean entry hentry (.inl hname)
  · obtain ⟨template, htemplate⟩ := Dict.mem_keys_iff.1 hkey
    have hwritten : b.template? language key = some template := by
      rw [template?, hw]
      exact htemplate
    rw [h.templates] at hwritten
    obtain ⟨write, hwrite, rfl, rfl⟩ := exists_write hwritten
    obtain ⟨entry, hentry, hmem⟩ := List.mem_flatMap.1 hwrite
    obtain ⟨p, hp, rfl⟩ := List.mem_map.1 hmem
    exact hclean entry hentry (.inr ⟨p.1, List.mem_map.2 ⟨p, hp, rfl⟩, hblank⟩)

theorem consistent (h : Holds ((english, englishWording) :: written) b)
    (hclean : ∀ entry ∈ written, ¬HasBlank entry) :
    Consistent ((english, englishWording) :: written) b where
  order := h.names
  nodup := by
    rw [h.names, List.nodup_iff_pairwise_ne]
    exact (Distinct.pairwise_eraseDups _).imp fun hne => by simpa using hne
  keys language := by
    rw [h.names, List.mem_eraseDups, ← h.known, Dict.mem_keys_iff, ← Option.isSome_iff_exists]
    rfl
  first := by
    rw [h.names, List.map_cons, List.eraseDups_cons]
    rfl
  builtIn _ hkey := h.template?_builtIn hkey
  noBlank _ _ hw := by
    have henglish : ¬HasBlank (english, englishWording) := checkEntry_eq_ok_iff.1 rfl
    exact h.not_hasBlank (List.forall_mem_cons.2 ⟨henglish, hclean⟩) hw
  templates := h.templates

end Holds

/-- Whatever calls are made of a new phrasebook, and whichever of them fail, it holds what the
ones that succeed have written, and nothing of the others.  A call fails if and only if one of its
names or keys is blank; it then leaves the phrasebook as it was, however many of its entries come
before the blank one.  What a call does in place is what it answers. -/
theorem calls_keep_books_consistent (calls : List Call) :
    ∃ log b, perform initial calls = (log, b) ∧ log.map Prod.fst = calls ∧
      (∀ p ∈ log, (∃ e, p.2 = .error e) ↔ p.1.HasBlank) ∧
      Consistent ((english, englishWording) :: log.accepted) b ∧
      ∀ c : Call, (c.HasBlank → ∃ e, on c.edit b = (.error e, b)) ∧
        (¬c.HasBlank → ∃ b', on c.edit b = (.ok (), b')) ∧
        on c.edit b =
          match c.answer b with
          | .ok b' => (.ok (), b')
          | .error e => (.error e, b) := by
  obtain ⟨hcalls, hfails⟩ := perform_fst initial calls
  refine ⟨_, _, rfl, hcalls, hfails, ?_, fun c => ⟨fun h => ?_, fun h => ?_, c.on_edit _⟩⟩
  · rw [perform_snd]
    refine (Holds.start.foldl _).consistent fun entry hentry hblank => ?_
    obtain ⟨p, hp, hmem⟩ := List.mem_flatMap.1 hentry
    obtain ⟨hp, hok⟩ := List.mem_filter.1 hp
    obtain ⟨e, he⟩ := (hfails p hp).2 ⟨entry, hmem, hblank⟩
    rw [he] at hok
    exact nomatch hok
  · exact Call.on_edit_of_hasBlank h _
  · exact ⟨_, Call.on_edit_of_not_hasBlank h _⟩

/-- A refused merge, one that names Polish twice, and two single templates, the last of them under
a key of nothing but an ideographic space. -/
def polishCalls : List Call :=
  [.merge [("German", Dict.ofList [("Global.Required", "Erforderlich")]),
      ("Polish", Dict.ofList [("\t", "x")])],
    .merge [("Polish", ∅), (english, Dict.ofList [("Global.Required", "Must be filled")]),
      ("Polish", Dict.ofList [("Global.Required", "Wymagane")])],
    .insert "Polish" "Global.Required" "Potrzebne",
    .insert "Czech" "\u3000" "x"]

theorem calls_keep_books_consistent_polish :
    ∃ log b, perform initial polishCalls = (log, b) ∧
      Consistent ((english, englishWording) :: log.accepted) b ∧
      log.map (·.2.isOk) = [false, true, true, false] ∧
      b.names = [english, "Polish"] ∧
      b.template? "Polish" "Global.Required" = some "Potrzebne" ∧
      b.template? english "Global.Required" = some "Must be filled" := by
  obtain ⟨log, b, hrun, _, _, hconsistent, _⟩ := calls_keep_books_consistent polishCalls
  have hanswer : perform initial polishCalls = (_, _) := rfl
  obtain ⟨rfl, rfl⟩ := Prod.mk.inj (hrun.symm.trans hanswer)
  exact ⟨_, _, hrun, hconsistent, rfl, rfl, rfl, rfl⟩

end Phrasebook

end Rulebook
