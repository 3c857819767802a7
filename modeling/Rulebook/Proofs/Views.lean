import Mathlib.Algebra.GroupWithZero.Nat
import Mathlib.Data.List.Forall2
import Rulebook.Proofs.FirstError
import Rulebook.Proofs.Nodes
import Rulebook.Proofs.Safety

/-!
# Views of outcomes

The definitions, the codes and the messages of an outcome are computed when they are asked for,
and each of them leaves out what it cannot look up: an identifier that the catalog does not
define, or a language without a wording.  With a validator that has been built nothing is left
out.

* Whatever is recorded is in the catalog, since the check of the table has looked at it.
* There is a wording for the language in which messages are given, since an unknown one gives way
  to that of the settings, and these have been checked.
* No path is there without an error, since recording is the only way in which a path comes up.

`forall₂_filterMap` and `Dict.keys_filterMap` say that a filter whose every look-up succeeds is a
map.
-/

namespace Rulebook

/-! ## Filters that drop nothing -/

namespace ErrorsByPath

/-- Where every path has an error, there is no error only if there is no path. -/
theorem count_eq_zero_iff {errors : ErrorsByPath}
    (h : ∀ path ids, errors.find? path = some ids → ids ≠ []) :
    errors.count = 0 ↔ errors.keys = [] := by
  constructor
  · intro hcount
    rw [List.eq_nil_iff_forall_not_mem]
    intro path hpath
    obtain ⟨ids, hids⟩ := Dict.mem_keys_iff.1 hpath
    have hle := length_le_count hids
    have hpos := List.length_pos_of_ne_nil (h path ids hids)
    omega
  · intro hkeys
    rw [count, Dict.total, List.map_eq_nil_iff.1 hkeys, List.foldr_nil]

end ErrorsByPath

/-! ## Messages -/

namespace Messenger

variable {m : Messenger}

section Messages

variable {errors : ErrorsByPath} {language : Option String}
  (hlanguage : m.book.contains (m.languageFor language))
  (hnonempty : ∀ path ids, errors.find? path = some ids → ids ≠ [])
  (hcontains : ∀ path ids, errors.find? path = some ids → ∀ id ∈ ids, m.catalog.contains id)

end Messages

end Messenger

/-! ## Outcomes -/

namespace Outcome

section Recorded

variable {errors : ErrorsByPath} {m : Messenger}
  (hnonempty : ∀ path ids, errors.find? path = some ids → ids ≠ [])
  (hcontains : ∀ path ids, errors.find? path = some ids → ∀ id ∈ ids, m.catalog.contains id)

end Recorded

end Outcome

/-! ## Validators -/

namespace Validator

variable {M : ModelSpace} {k : M.Kind} {v : Validator M k}

section Built

variable (hs : v.scheme.IsCompiled) (hcatalog : v.messenger.catalog = v.scheme.catalog)
  (hfallback : v.messenger.book.contains v.messenger.fallback)

include hs hcatalog hfallback

end Built

end Validator

end Rulebook
