import Rulebook.Proofs.Merges
import Rulebook.Proofs.ReadyMessages
import Rulebook.Validator

/-!
# Settings from which a validator can be built

The same conditions are looked at three times when a validator is built: when the settings are
checked, when their phrasebook is made once more, and by the messenger, which wants a wording for
its fallback.  Only the check can fail.  What it lets pass is said by `Settings.IsSound`, with no
look at a phrasebook, and `Settings.Fault` is the one fault that it reports where there are
several.

A wording may be empty.  Its language is known all the same, so the languages that are known are
the names of the wordings and English (`contains_foldl_write`).
-/

namespace Rulebook

/-! ## Texts that are not blank -/

/-- The text has a character that is not blank. -/
def Text.HasInk (s : String) : Prop := ∃ c ∈ s.toList, isBlankChar c = false

theorem Text.hasInk_iff {s : String} : HasInk s ↔ isBlank s = false := by
  simp [HasInk, isBlank]

theorem Text.not_hasInk_iff {s : String} : ¬HasInk s ↔ isBlank s = true := by
  simp [hasInk_iff]

/-! ## Faults of a wording -/

/-- In a dictionary the first entry that fails is the one with the least name. -/
theorem Dict.forM_entries_eq_error_iff {α ε : Type} {d : Dict String α}
    {f : String × α → Except ε Unit} {e : ε} :
    d.entries.forM f = .error e ↔
      ∃ entry ∈ d.entries, f entry = .error e ∧
        ∀ other ∈ d.entries, other.1 < entry.1 → f other = .ok () := by
  have hascending : d.entries.Pairwise fun a b => a.1 < b.1 :=
    d.ascending.imp compareOfLessAndEq_eq_lt.1
  rw [forM_eq_error_iff]
  constructor
  · rintro ⟨before, entry, after, hentries, hbefore, hentry⟩
    rw [hentries, List.pairwise_append, List.pairwise_cons] at hascending
    obtain ⟨_, ⟨hafter, _⟩, _⟩ := hascending
    rw [hentries]
    refine ⟨entry, List.mem_append_right _ List.mem_cons_self, hentry, fun other hother hlt => ?_⟩
    rcases List.mem_append.1 hother with hother | hother
    · exact hbefore other hother
    · rcases List.mem_cons.1 hother with rfl | hother
      · exact absurd hlt (String.lt_irrefl _)
      · exact absurd (String.lt_trans hlt (hafter other hother)) (String.lt_irrefl _)
  · rintro ⟨entry, hentry, hfails, hfirst⟩
    obtain ⟨before, after, hentries⟩ := List.mem_iff_append.1 hentry
    rw [hentries, List.pairwise_append] at hascending
    obtain ⟨_, _, hbefore⟩ := hascending
    refine ⟨before, entry, after, hentries, fun other hother => ?_, hfails⟩
    refine hfirst other ?_ (hbefore other hother entry List.mem_cons_self)
    rw [hentries]
    exact List.mem_append_left _ hother

namespace Phrasebook

open Text (HasInk hasInk_iff not_hasInk_iff)

variable {entry : String × Wording} {e : PhraseError} {b : Phrasebook}

/-- What is wrong with a wording.  A blank name comes before blank keys. -/
inductive Faulty (entry : String × Wording) : PhraseError → Prop where
  | name (hname : ¬HasInk entry.1) : Faulty entry .blankName
  | key (hname : HasInk entry.1) {key : String} (hkey : key ∈ entry.2.keys)
    (hblank : ¬HasInk key) : Faulty entry (.blankKey entry.1)

theorem checkEntry_eq_error_iff : checkEntry entry = .error e ↔ Faulty entry e := by
  unfold checkEntry
  constructor
  · intro h
    split at h
    · rename_i hname
      obtain rfl := Except.error.inj h
      exact .name (not_hasInk_iff.2 hname)
    · rename_i hname
      split at h
      · rename_i hkeys
        obtain ⟨key, hkey, hblank⟩ := List.any_eq_true.1 hkeys
        obtain rfl := Except.error.inj h
        exact .key (hasInk_iff.2 (Bool.eq_false_iff.2 hname)) hkey (not_hasInk_iff.2 hblank)
      · exact nomatch h
  · intro h
    cases h with
    | name hname => exact if_pos (not_hasInk_iff.1 hname)
    | key hname hkey hblank =>
      have hkeys : entry.2.keys.any Text.isBlank = true :=
        List.any_eq_true.2 ⟨_, hkey, not_hasInk_iff.1 hblank⟩
      rw [hasInk_iff.1 hname, hkeys]
      rfl

/-- Nothing is wrong with a wording whose name and keys are not blank. -/
theorem forall_not_faulty_iff :
    (∀ e, ¬Faulty entry e) ↔ HasInk entry.1 ∧ ∀ key ∈ entry.2.keys, HasInk key := by
  constructor
  · intro h
    have hname : HasInk entry.1 := by
      by_contra hname
      exact h _ (.name hname)
    refine ⟨hname, fun key hkey => ?_⟩
    by_contra hblank
    exact h _ (.key hname hkey hblank)
  · rintro ⟨hname, hkeys⟩ e (hname' | ⟨_, hkey, hblank⟩)
    · exact hname' hname
    · exact hblank (hkeys _ hkey)

theorem checkEntry_eq_ok_iff_not_faulty : checkEntry entry = .ok () ↔ ∀ e, ¬Faulty entry e := by
  simp only [← checkEntry_eq_error_iff]
  cases checkEntry entry with
  | error e => simp
  | ok u => simp

/-- The first wording, by name, that has something wrong with it, and what that is. -/
def FirstFault (d : Dict String Wording) (e : PhraseError) : Prop :=
  ∃ entry ∈ d.entries, Faulty entry e ∧
    ∀ other ∈ d.entries, other.1 < entry.1 → ∀ e', ¬Faulty other e'

theorem forM_checkEntry_eq_error_iff {d : Dict String Wording} :
    d.entries.forM checkEntry = .error e ↔ FirstFault d e := by
  rw [Dict.forM_entries_eq_error_iff, FirstFault]
  simp only [checkEntry_eq_error_iff, checkEntry_eq_ok_iff_not_faulty]

theorem forM_checkEntry_eq_ok_iff {d : Dict String Wording} :
    d.entries.forM checkEntry = .ok () ↔ ∀ entry ∈ d.entries, ∀ e, ¬Faulty entry e := by
  rw [forM_eq_ok_iff]
  simp only [checkEntry_eq_ok_iff_not_faulty]

/-- Once wordings are written into a new phrasebook, it knows their languages and English. -/
theorem contains_foldl_write {d : Dict String Wording} {language : String} :
    (d.entries.foldl write initial).contains language = true ↔
      language = english ∨ language ∈ d.keys := by
  rw [(Holds.start.foldl d.entries).known]
  simp [Dict.keys]

end Phrasebook

/-! ## Settings -/

namespace Settings

open Phrasebook (Faulty FirstFault)

variable {s : Settings} {e : SetupError}

/-- Every name and every key has a character that is not blank, and the language is one that there
are wordings for, or English. -/
structure IsSound (s : Settings) : Prop where
  names : ∀ entry ∈ s.wordings.entries, Text.HasInk entry.1
  keys : ∀ entry ∈ s.wordings.entries, ∀ key ∈ entry.2.keys, Text.HasInk key
  language : s.language = english ∨ s.language ∈ s.wordings.keys

/-- The fault for which settings are refused.  A language that is not known comes last. -/
inductive Fault (s : Settings) : PhraseError → Prop where
  | wording {e : PhraseError} (hfirst : FirstFault s.wordings e) : Fault s e
  | language (hwordings : ∀ entry ∈ s.wordings.entries, ∀ e, ¬Faulty entry e)
    (henglish : s.language ≠ english) (hkeys : s.language ∉ s.wordings.keys) :
    Fault s (.unknownLanguage s.language)

/-- The phrasebook of settings with nothing wrong in their wordings. -/
def written (s : Settings) : Phrasebook := s.wordings.entries.foldl Phrasebook.write .initial

theorem book_eq (s : Settings) :
    s.book =
      match s.wordings.entries.forM Phrasebook.checkEntry with
      | .ok () => .ok s.written
      | .error e => .error (.phrases e) := by
  rw [book, Phrasebook.merge]
  cases s.wordings.entries.forM Phrasebook.checkEntry <;> rfl

theorem book_eq_ok (h : ∀ entry ∈ s.wordings.entries, ∀ e, ¬Faulty entry e) :
    s.book = .ok s.written := by
  rw [book_eq, Phrasebook.forM_checkEntry_eq_ok_iff.2 h]

theorem book_eq_error {fault : PhraseError} (h : FirstFault s.wordings fault) :
    s.book = .error (.phrases fault) := by
  rw [book_eq, Phrasebook.forM_checkEntry_eq_error_iff.2 h]

/-- The wordings have nothing wrong with them, or there is a first one that has. -/
theorem faulty_cases (s : Settings) :
    (∀ entry ∈ s.wordings.entries, ∀ e, ¬Faulty entry e) ∨ ∃ e, FirstFault s.wordings e := by
  cases hcheck : s.wordings.entries.forM Phrasebook.checkEntry with
  | ok u => exact .inl (Phrasebook.forM_checkEntry_eq_ok_iff.1 hcheck)
  | error e => exact .inr ⟨e, Phrasebook.forM_checkEntry_eq_error_iff.1 hcheck⟩

theorem isSound_iff : s.IsSound ↔
    (∀ entry ∈ s.wordings.entries, ∀ e, ¬Faulty entry e) ∧ s.written.contains s.language := by
  simp only [Phrasebook.forall_not_faulty_iff]
  rw [written, Phrasebook.contains_foldl_write]
  constructor
  · intro h
    exact ⟨fun entry hentry => ⟨h.names entry hentry, h.keys entry hentry⟩, h.language⟩
  · rintro ⟨hwordings, hlanguage⟩
    exact ⟨fun entry hentry => (hwordings entry hentry).1,
      fun entry hentry => (hwordings entry hentry).2, hlanguage⟩

/-- Settings are sound or have a fault. -/
theorem isSound_or_fault (s : Settings) : s.IsSound ∨ ∃ fault, s.Fault fault := by
  rcases s.faulty_cases with hwordings | ⟨fault, hfirst⟩
  · by_cases hknown : s.language = english ∨ s.language ∈ s.wordings.keys
    · rw [← Phrasebook.contains_foldl_write] at hknown
      exact .inl (isSound_iff.2 ⟨hwordings, hknown⟩)
    · rw [not_or] at hknown
      exact .inr ⟨_, .language hwordings hknown.1 hknown.2⟩
  · exact .inr ⟨fault, .wording hfirst⟩

theorem check_of_isSound (h : s.IsSound) : s.check = .ok () := by
  obtain ⟨hwordings, hknown⟩ := isSound_iff.1 h
  rw [check, book_eq_ok hwordings]
  exact if_pos hknown

theorem check_of_fault {fault : PhraseError} (h : s.Fault fault) :
    s.check = .error (.phrases fault) := by
  rw [check]
  cases h with
  | wording hfirst =>
    rw [book_eq_error hfirst]
    rfl
  | language hwordings henglish hkeys =>
    have hunknown : ¬s.written.contains s.language := by
      rw [written, Phrasebook.contains_foldl_write, not_or]
      exact ⟨henglish, hkeys⟩
    rw [book_eq_ok hwordings]
    exact if_neg hunknown

theorem check_eq_ok_iff : s.check = .ok () ↔ s.IsSound := by
  refine ⟨fun h => ?_, check_of_isSound⟩
  rcases s.isSound_or_fault with hsound | ⟨fault, hfault⟩
  · exact hsound
  · rw [check_of_fault hfault] at h
    exact nomatch h

theorem check_eq_error_iff : s.check = .error e ↔
    ∃ fault, s.Fault fault ∧ e = .phrases fault := by
  constructor
  · intro h
    rcases s.isSound_or_fault with hsound | ⟨fault, hfault⟩
    · rw [check_of_isSound hsound] at h
      exact nomatch h
    · rw [check_of_fault hfault] at h
      exact ⟨fault, hfault, (Except.error.inj h).symm⟩
  · rintro ⟨fault, hfault, rfl⟩
    exact check_of_fault hfault

end Settings

/-! ## Validators -/

namespace Validator

variable {M : ModelSpace} {k : M.Kind} {settings : Settings}

/-- Where the check of the settings fails, so does building. -/
theorem build_of_check_eq_error {e : SetupError} (scheme : Scheme M k)
    (h : settings.check = .error e) : build scheme settings = .error e := by
  rw [build, h]
  rfl

/-- After the check nothing fails: the phrasebook is there, and it has a wording for the fallback
of the messenger. -/
theorem build_of_isSound (scheme : Scheme M k) (h : settings.IsSound) :
    settings.book = .ok settings.written ∧
    ∃ messenger,
      Messenger.build scheme.catalog settings.written settings.language = .ok messenger ∧
      build scheme settings =
        .ok ⟨scheme, settings, messenger, settings.guardLoops.getD scheme.recursive⟩ := by
  obtain ⟨hwordings, hknown⟩ := Settings.isSound_iff.1 h
  have hbook := Settings.book_eq_ok hwordings
  have hmessenger : Messenger.build scheme.catalog settings.written settings.language = .ok _ :=
    Messenger.build_of_contains hknown
  refine ⟨hbook, _, hmessenger, ?_⟩
  rw [build, Settings.check_of_isSound h, hbook]
  show ((Messenger.build scheme.catalog settings.written settings.language).mapError
    SetupError.phrases >>= fun messenger => Except.ok (ε := SetupError)
      (Validator.mk scheme settings messenger (settings.guardLoops.getD scheme.recursive))) = _
  rw [hmessenger]
  rfl

/-- Whether a validator can be built is decided by its settings.  It can be if and only if they
pass their check, that is if they are sound; otherwise both fail with the fault of the settings,
which is that of the first faulty wording by name, or else a language that is not known.  Nothing
that is done after the check fails, as the phrasebook and the messenger are there whenever the
check is passed. -/
theorem settings_decide (scheme : Scheme M k) (settings : Settings) :
    ((∃ v, build scheme settings = .ok v) ↔ settings.check = .ok ()) ∧
    (settings.check = .ok () ↔ settings.IsSound) ∧
    (∀ e, build scheme settings = .error e ↔ settings.check = .error e) ∧
    (∀ e, settings.check = .error e ↔ ∃ fault, settings.Fault fault ∧ e = .phrases fault) ∧
    (settings.check = .ok () → ∃ book messenger,
      settings.book = .ok book ∧
      Messenger.build scheme.catalog book settings.language = .ok messenger ∧
      build scheme settings =
        .ok ⟨scheme, settings, messenger, settings.guardLoops.getD scheme.recursive⟩) := by
  rcases settings.isSound_or_fault with hsound | ⟨fault, hfault⟩
  · obtain ⟨hbook, messenger, hmessenger, hbuild⟩ := build_of_isSound scheme hsound
    have hcheck := Settings.check_of_isSound hsound
    refine ⟨⟨fun _ => hcheck, fun _ => ⟨_, hbuild⟩⟩, Settings.check_eq_ok_iff, fun e => ?_,
      fun e => Settings.check_eq_error_iff, fun _ => ⟨_, messenger, hbook, hmessenger, hbuild⟩⟩
    rw [hbuild, hcheck]
    exact ⟨fun h => (nomatch h), fun h => (nomatch h)⟩
  · have hcheck := Settings.check_of_fault hfault
    have hbuild := build_of_check_eq_error scheme hcheck
    refine ⟨?_, Settings.check_eq_ok_iff, fun e => ?_, fun e => Settings.check_eq_error_iff, ?_⟩
    · rw [hbuild, hcheck]
      exact ⟨fun ⟨_, h⟩ => (nomatch h), fun h => (nomatch h)⟩
    · rw [hbuild, hcheck, Except.error.injEq, Except.error.injEq]
    · rw [hcheck]
      exact fun h => nomatch h

/-- Of a blank key in the German wording, a blank name behind it and a language that is not known,
the check reports the key, since German comes first. -/
example : Settings.check
    { language := "Czech"
      wordings := Dict.ofList [("\u3000", ∅), ("Polish", ∅),
        ("German", Dict.ofList [("Global.Error", "Fehler"), ("\t", "x")])] } =
    .error (.phrases (.blankKey "German")) := by
  decide

end Validator
end Rulebook
