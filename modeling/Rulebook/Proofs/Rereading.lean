import Mathlib.Data.List.TakeWhile
import Rulebook.Json.Literal
import Rulebook.Json.Printer
import Rulebook.Proofs.Lookup

/-!
# Values that are written and read back

`Json.text` writes a value and `Json.read?` reads one.  A value without doubles is read back as it
was, unless it is nested too deep: `read?_text`.  Doubles are not covered, since reading one may
miss its last bit.

There are four groups.

* Whole numbers.  `readNumber?_text` reads the digits of a number of 64 bits; what stands behind
  them has to be the end of a value (`IsEnd`), or it could be a further digit.
* Texts.  Every character is written as something that is read as one unit (`exists_readsAs`).
  A control character comes back as a code, and a code of its own is never half of a surrogate
  pair, so the units join to the characters that were written.
* Literals.  `ReadsBack` says what is read off the front of a text.  `readsBack_array` and
  `readsBack_object` hand it from the elements to the whole, and `readsBack_readValue?` is the
  induction over the value.  The reader bounds the nesting by the length of the text, which
  suffices by `IsWhole.depth_lt`.
* Values.  `value?_literal` is where the limit on the nesting takes effect.  A `Json.Sorted` has
  the fields of its objects in order, so reading them does not put them into another one.
-/

namespace Rulebook.Json

/-! ## Whole numbers -/

namespace Literal

/-- The value of a decimal digit. -/
def digitValue (c : Char) : Nat := c.toNat - '0'.toNat

/-- The digits of a number, as they are read. -/
def digitsOf (n : Nat) : List Nat := (Nat.toDigits 10 n).map digitValue

/-- A value ends here: nothing follows that could belong to it. -/
def IsEnd (rest : List Char) : Prop := ∀ c ∈ rest.head?, c = ',' ∨ c = ']' ∨ c = '}'

theorem ofDigits_digitsOf (n : Nat) : Number.ofDigits (digitsOf n) = n := by
  have hfold : Number.ofDigits (digitsOf n) = Nat.ofDigitChars 10 (Nat.toDigits 10 n) 0 := by
    rw [Number.ofDigits, digitsOf, List.foldl_map, Nat.ofDigitChars]
    refine List.foldl_ext _ _ _ fun m c _ => ?_
    rw [digitValue, Nat.mul_comm]
  rw [hfold, Nat.ofDigitChars_ten_toDigits]

/-- The first digit of a number is zero only for zero. -/
theorem digitsOf_cases (n : Nat) :
    (n = 0 ∧ digitsOf n = [0]) ∨ n ≠ 0 ∧ ∃ d rest, digitsOf n = (d + 1) :: rest := by
  induction n using Nat.strongRecOn with
  | ind n ih =>
    by_cases hlt : n < 10
    · have hdigit : digitsOf n = [n] := by
        rw [digitsOf, Nat.toDigits_of_lt_base hlt, List.map_singleton, digitValue,
          Nat.toNat_digitChar_of_lt_ten hlt]
        simp
      cases n with
      | zero => exact .inl ⟨rfl, hdigit⟩
      | succ d => exact .inr ⟨Nat.succ_ne_zero d, d, [], hdigit⟩
    · right
      refine ⟨by omega, ?_⟩
      rcases ih (n / 10) (by omega) with ⟨hzero, _⟩ | ⟨_, d, rest, hrest⟩
      · omega
      · rw [digitsOf] at hrest
        rw [digitsOf, Nat.toDigits_of_base_le (by decide) (by omega), List.map_append, hrest]
        exact ⟨d, _, rfl⟩

theorem spanDigits_toDigits (n : Nat) {rest : List Char} (h : IsEnd rest) :
    spanDigits (Nat.toDigits 10 n ++ rest) = (digitsOf n, rest) := by
  have hdigits : ∀ c ∈ Nat.toDigits 10 n, c.isDigit = true :=
    fun c hc => Nat.isDigit_of_mem_toDigits (by decide) (by decide) hc
  have htake : rest.takeWhile Char.isDigit = [] ∧ rest.dropWhile Char.isDigit = rest := by
    cases rest with
    | nil => exact ⟨rfl, rfl⟩
    | cons c rest =>
      have hc : c.isDigit = false := by
        rcases h c rfl with rfl | rfl | rfl <;> decide
      exact ⟨List.takeWhile_cons_of_neg (by simp [hc]), List.dropWhile_cons_of_neg (by simp [hc])⟩
  rw [spanDigits, List.takeWhile_append_of_pos hdigits, List.dropWhile_append_of_pos hdigits,
    htake.1, htake.2, List.append_nil]
  rfl

theorem readInteger?_toDigits (n : Nat) {rest : List Char} (h : IsEnd rest) :
    readInteger? (Nat.toDigits 10 n ++ rest) = some (digitsOf n, rest) := by
  rw [readInteger?, spanDigits_toDigits n h]
  rcases digitsOf_cases n with ⟨_, hdigits⟩ | ⟨_, d, more, hdigits⟩
  · rw [hdigits]
    rfl
  · rw [hdigits]
    rfl

theorem readFraction?_of_isEnd {rest : List Char} (h : IsEnd rest) :
    readFraction? rest = some (none, rest) := by
  cases rest with
  | nil => rfl
  | cons c rest => rcases h c rfl with rfl | rfl | rfl <;> rfl

theorem readExponent?_of_isEnd {rest : List Char} (h : IsEnd rest) :
    readExponent? rest = some (none, rest) := by
  cases rest with
  | nil => rfl
  | cons c rest => rcases h c rfl with rfl | rfl | rfl <;> rfl

theorem toDigits_eq_cons (n : Nat) :
    ∃ c cs, Nat.toDigits 10 n = c :: cs ∧ c.isDigit = true := by
  obtain ⟨c, cs, hcons⟩ := List.exists_cons_of_ne_nil (Nat.toDigits_ne_nil (b := 10) (n := n))
  have hmem : c ∈ Nat.toDigits 10 n := hcons ▸ List.mem_cons_self
  exact ⟨c, cs, hcons, Nat.isDigit_of_mem_toDigits (by decide) (by decide) hmem⟩

/-- Reads a number behind its sign. -/
def readMagnitude? (negative : Bool) (cs : List Char) : Option (Literal × List Char) := do
  let (integer, cs) ← readInteger? cs
  let (fraction, cs) ← readFraction? cs
  let (exponent, cs) ← readExponent? cs
  return (.number (Number.Spelling.number? ⟨negative, integer, fraction, exponent⟩), cs)

theorem readNumber?_minus (cs : List Char) :
    readNumber? ('-' :: cs) = readMagnitude? true cs := rfl

theorem readNumber?_of_isDigit {c : Char} (h : c.isDigit = true) (cs : List Char) :
    readNumber? (c :: cs) = readMagnitude? false (c :: cs) := by
  unfold readNumber?
  split
  rename_i negative cs' heq
  split at heq
  · rename_i rest hminus
    obtain ⟨rfl, rfl⟩ := List.cons.inj hminus
    exact absurd h (by decide)
  · obtain ⟨rfl, rfl⟩ := Prod.mk.inj heq
    rfl

theorem readMagnitude?_toDigits (negative : Bool) (n : Nat) {rest : List Char} (h : IsEnd rest) :
    readMagnitude? negative (Nat.toDigits 10 n ++ rest) =
      some (.number (Number.Spelling.number? ⟨negative, digitsOf n, none, none⟩), rest) := by
  rw [readMagnitude?, readInteger?_toDigits n h]
  simp [readFraction?_of_isEnd h, readExponent?_of_isEnd h]

theorem number?_digitsOf (negative : Bool) (n : Nat) :
    Number.Spelling.number? ⟨negative, digitsOf n, none, none⟩ =
      if !negative && n < Number.significandLimit then some (.whole n)
      else if negative && n ≠ 0 && n ≤ Number.significandLimit / 2 then some (.whole (-n))
      else (Number.Spelling.double? ⟨negative, digitsOf n, none, none⟩).map .double := by
  rw [Number.Spelling.number?, ofDigits_digitsOf]
  rfl

theorem toList_text_ofNat (m : Nat) :
    (Number.text (.whole (Int.ofNat m))).toList = Nat.toDigits 10 m := by
  simp [Number.text, toString, Int.repr]

theorem toList_text_negSucc (m : Nat) :
    (Number.text (.whole (Int.negSucc m))).toList = '-' :: Nat.toDigits 10 (m + 1) := by
  simp [Number.text, toString, Int.repr]

/-- The characters of a whole number: a digit or a minus sign, and more. -/
theorem text_whole_eq_cons (n : Int) :
    ∃ c cs, (Number.text (.whole n)).toList = c :: cs ∧ (c.isDigit = true ∨ c = '-') := by
  cases n with
  | ofNat m =>
    obtain ⟨c, cs, hcons, hdigit⟩ := toDigits_eq_cons m
    exact ⟨c, cs, by rw [toList_text_ofNat, hcons], .inl hdigit⟩
  | negSucc m => exact ⟨'-', _, toList_text_negSucc m, .inr rfl⟩

/-- A whole number is read back. -/
theorem readNumber?_text {n : Int} (hleast : -9223372036854775808 ≤ n)
    (hgreatest : n < 18446744073709551616) {rest : List Char} (h : IsEnd rest) :
    readNumber? ((Number.text (.whole n)).toList ++ rest) =
      some (.number (some (.whole n)), rest) := by
  cases n with
  | ofNat m =>
    have hlt : m < Number.significandLimit := by
      simp only [Number.significandLimit]
      simp at hgreatest
      omega
    obtain ⟨c, cs, hcons, hdigit⟩ := toDigits_eq_cons m
    rw [toList_text_ofNat, hcons, List.cons_append, readNumber?_of_isDigit hdigit,
      ← List.cons_append, ← hcons, readMagnitude?_toDigits false m h, number?_digitsOf]
    simp [hlt]
  | negSucc m =>
    have hle : m + 1 ≤ Number.significandLimit / 2 := by
      simp only [Number.significandLimit]
      omega
    have hpos : m + 1 ≠ 0 := Nat.succ_ne_zero m
    rw [toList_text_negSucc, List.cons_append, readNumber?_minus,
      readMagnitude?_toDigits true (m + 1) h, number?_digitsOf]
    simp only [hle, hpos, ne_eq, not_false_eq_true, decide_true, Bool.not_true, Bool.false_and,
      Bool.and_self, Bool.false_eq_true, if_false, if_true]
    rfl

/-! ## Texts -/

/-- A unit that stands for a character. -/
def Unit16.IsFor (c : Char) (u : Unit16) : Prop := u = .char c ∨ u = .code c.toNat

/-- No character is half of a surrogate pair. -/
theorem not_isSurrogate (c : Char) :
    isHighSurrogate c.toNat = false ∧ isLowSurrogate c.toNat = false := by
  have hvalid := c.valid
  simp only [UInt32.isValidChar, Nat.isValidChar] at hvalid
  have hval : c.toNat = c.val.toNat := rfl
  simp only [isHighSurrogate, isLowSurrogate, Bool.and_eq_false_iff, decide_eq_false_iff_not]
  omega

theorem joinUnits?_cons {c : Char} {u : Unit16} (h : u.IsFor c) (units : List Unit16) :
    joinUnits? (u :: units) = (joinUnits? units).map (c :: ·) := by
  obtain ⟨hhigh, hlow⟩ := not_isSurrogate c
  rcases h with rfl | rfl
  · rfl
  · rcases units with _ | ⟨_ | m, units⟩
    · simp [joinUnits?, hhigh, hlow, Char.ofNat_toNat]
    · simp [joinUnits?, hhigh, hlow, Char.ofNat_toNat]
    · rw [joinUnits?, hhigh, hlow, Char.ofNat_toNat]
      rfl

theorem hexValue?_hexDigit : ∀ d < 16, hexValue? (hexDigit d) = some d := by
  decide

section Units

variable {c letter : Char}

/-- What stands for a character in a text that is being read: these characters, read as `u`. -/
def ReadsAs (written : List Char) (u : Unit16) : Prop :=
  ∀ fuel rest, readUnits? (fuel + 1) (written ++ rest) =
    (readUnits? fuel rest).map fun p => (u :: p.1, p.2)

theorem readsAs_letter (hu : letter ≠ 'u') (h : escaped? letter = some c) :
    ReadsAs ['\\', letter] (.char c) := by
  intro fuel rest
  simp only [List.cons_append, List.nil_append, readUnits?, h]
  cases readUnits? fuel rest <;> rfl

theorem readsAs_control (h : c.toNat < 0x20) :
    ReadsAs ['\\', 'u', '0', '0', hexDigit (c.toNat / 16), hexDigit (c.toNat % 16)]
      (.code c.toNat) := by
  intro fuel rest
  have hzero : hexValue? '0' = some 0 := by decide
  have hhex :
      readHex? ('0' :: '0' :: hexDigit (c.toNat / 16) :: hexDigit (c.toNat % 16) :: rest) =
      some (c.toNat, rest) := by
    simp only [readHex?, hzero, hexValue?_hexDigit _ (show c.toNat / 16 < 16 by omega),
      hexValue?_hexDigit _ (show c.toNat % 16 < 16 by omega)]
    show some (((0 * 16 + 0) * 16 + c.toNat / 16) * 16 + c.toNat % 16, rest) = _
    have hvalue : ((0 * 16 + 0) * 16 + c.toNat / 16) * 16 + c.toNat % 16 = c.toNat := by omega
    rw [hvalue]
  simp only [List.cons_append, List.nil_append, readUnits?, hhex, Option.bind_eq_bind,
    Option.bind_some]
  cases readUnits? fuel rest <;> rfl

theorem readsAs_self (hquote : c ≠ '"') (hslash : c ≠ '\\') (h : ¬c.toNat < 0x20) :
    ReadsAs [c] (.char c) := by
  intro fuel rest
  have hread : readUnits? (fuel + 1) (c :: rest) =
      (readUnits? fuel rest).bind fun p => some (.char c :: p.1, p.2) := by
    simp [readUnits?, hslash, h]
  rw [List.singleton_append, hread]
  exact Option.map_eq_bind.symm

/-- A character is read back as a unit that stands for it. -/
theorem exists_readsAs (c : Char) : ∃ u : Unit16, u.IsFor c ∧ ReadsAs (escapeChar c) u := by
  unfold escapeChar
  split
  · exact ⟨.char '"', .inl rfl, readsAs_letter (by decide) rfl⟩
  · exact ⟨.char '\\', .inl rfl, readsAs_letter (by decide) rfl⟩
  · exact ⟨.char '\x08', .inl rfl, readsAs_letter (by decide) rfl⟩
  · exact ⟨.char '\x0c', .inl rfl, readsAs_letter (by decide) rfl⟩
  · exact ⟨.char '\n', .inl rfl, readsAs_letter (by decide) rfl⟩
  · exact ⟨.char '\r', .inl rfl, readsAs_letter (by decide) rfl⟩
  · exact ⟨.char '\t', .inl rfl, readsAs_letter (by decide) rfl⟩
  · rename_i hquote hslash _ _ _ _ _
    split
    · rename_i hcontrol
      exact ⟨.code c.toNat, .inr rfl, readsAs_control hcontrol⟩
    · rename_i hcontrol
      exact ⟨.char c, .inl rfl, readsAs_self hquote hslash hcontrol⟩

end Units

/-- A text is read back up to its closing quote, if the bound suffices. -/
theorem readUnits?_flatMap (cs : List Char) {fuel : Nat} (h : cs.length < fuel)
    (rest : List Char) :
    ∃ units, readUnits? fuel (cs.flatMap escapeChar ++ '"' :: rest) = some (units, rest) ∧
      joinUnits? units = some cs := by
  induction cs generalizing fuel with
  | nil =>
    cases fuel with
    | zero => exact absurd h (Nat.not_lt_zero _)
    | succ fuel => exact ⟨[], rfl, rfl⟩
  | cons c cs ih =>
    cases fuel with
    | zero => exact absurd h (Nat.not_lt_zero _)
    | succ fuel =>
      obtain ⟨units, hunits, hjoin⟩ := ih (Nat.lt_of_succ_lt_succ h)
      obtain ⟨u, hu, hreads⟩ := exists_readsAs c
      refine ⟨u :: units, ?_, ?_⟩
      · rw [List.flatMap_cons, List.append_assoc, hreads, hunits]
        rfl
      · rw [joinUnits?_cons hu, hjoin]
        rfl

theorem length_le_flatMap_escapeChar (cs : List Char) :
    cs.length ≤ (cs.flatMap escapeChar).length := by
  have hpos (c : Char) : 1 ≤ (escapeChar c).length := by
    unfold escapeChar
    split <;> try simp
    split <;> simp
  induction cs with
  | nil => simp
  | cons c cs ih =>
    have hc := hpos c
    simp only [List.flatMap_cons, List.length_append, List.length_cons]
    omega

/-- A text in quotes is read back. -/
theorem readText?_quoteChars (s : String) (rest : List Char) :
    ∃ behind, quoteChars s ++ rest = '"' :: behind ∧ readText? behind = some (some s, rest) := by
  have hchars : quoteChars s ++ rest = '"' :: (s.toList.flatMap escapeChar ++ '"' :: rest) := by
    simp [quoteChars]
  refine ⟨_, hchars, ?_⟩
  have hfuel : s.toList.length < (s.toList.flatMap escapeChar ++ '"' :: rest).length + 1 := by
    have hle := length_le_flatMap_escapeChar s.toList
    simp only [List.length_append, List.length_cons]
    omega
  obtain ⟨units, hunits, hjoin⟩ := readUnits?_flatMap s.toList hfuel rest
  rw [readText?, hunits, Option.map_some, hjoin, Option.map_some, String.ofList_toList]

end Literal

/-! ## Values as they are written -/

/-- A value without doubles: each of its numbers is whole and fits 64 bits. -/
inductive IsWhole : Json → Prop
  | null : IsWhole null
  | bool (b : Bool) : IsWhole (bool b)
  | number {n : Int} (hleast : -9223372036854775808 ≤ n) (hgreatest : n < 18446744073709551616) :
    IsWhole (number (.whole n))
  | string (s : String) : IsWhole (string s)
  | array {items : List Json} (hitems : ∀ j ∈ items, IsWhole j) : IsWhole (array items)
  | object {fields : List (String × Json)} (hfields : ∀ f ∈ fields, IsWhole f.2) :
    IsWhole (object fields)

mutual

/-- How deep a value is nested. -/
def depth : Json → Nat
  | array items => itemsDepth items + 1
  | object fields => fieldsDepth fields + 1
  | _ => 0

/-- How deep the deepest of the values is nested. -/
def itemsDepth : List Json → Nat
  | [] => 0
  | j :: rest => max (depth j) (itemsDepth rest)

/-- How deep the value of the deepest field is nested. -/
def fieldsDepth : List (String × Json) → Nat
  | [] => 0
  | (_, j) :: rest => max (depth j) (fieldsDepth rest)

end

theorem itemsDepth_le_iff {items : List Json} {d : Nat} :
    itemsDepth items ≤ d ↔ ∀ j ∈ items, depth j ≤ d := by
  induction items with
  | nil => simp [itemsDepth]
  | cons j rest ih => rw [itemsDepth, Nat.max_le, ih, List.forall_mem_cons]

theorem fieldsDepth_le_iff {fields : List (String × Json)} {d : Nat} :
    fieldsDepth fields ≤ d ↔ ∀ f ∈ fields, depth f.2 ≤ d := by
  induction fields with
  | nil => simp [fieldsDepth]
  | cons f rest ih => rw [fieldsDepth, Nat.max_le, ih, List.forall_mem_cons]

mutual

/-- A value as a literal. -/
def literal : Json → Literal
  | null => .null
  | bool b => .bool b
  | number n => .number (some n)
  | string s => .string (some s)
  | array items => .array (itemLiterals items)
  | object fields => .object (fieldLiterals fields)

/-- Values as literals. -/
def itemLiterals : List Json → List Literal
  | [] => []
  | j :: rest => literal j :: itemLiterals rest

/-- Fields as literals. -/
def fieldLiterals : List (String × Json) → List (Option String × Literal)
  | [] => []
  | (name, j) :: rest => (some name, literal j) :: fieldLiterals rest

end

theorem itemLiterals_eq_map (items : List Json) : itemLiterals items = items.map literal := by
  induction items with
  | nil => rfl
  | cons j rest ih => rw [itemLiterals, ih, List.map_cons]

theorem fieldLiterals_eq_map (fields : List (String × Json)) :
    fieldLiterals fields = fields.map fun f => (some f.1, literal f.2) := by
  induction fields with
  | nil => rfl
  | cons f rest ih => rw [fieldLiterals, ih, List.map_cons]

/-! ## How much is written -/

theorem itemChars_cons (j : Json) {rest : List Json} (h : rest ≠ []) :
    itemChars (j :: rest) = chars j ++ ',' :: itemChars rest := by
  cases rest with
  | nil => exact absurd rfl h
  | cons _ _ => rfl

theorem fieldChars_cons (f : String × Json) {rest : List (String × Json)} (h : rest ≠ []) :
    fieldChars (f :: rest) = quoteChars f.1 ++ ':' :: (chars f.2 ++ ',' :: fieldChars rest) := by
  cases rest with
  | nil => exact absurd rfl h
  | cons _ _ => rfl

theorem length_itemChars_cons (j : Json) (rest : List Json) :
    (chars j).length + (itemChars rest).length ≤ (itemChars (j :: rest)).length := by
  cases rest with
  | nil => simp [itemChars]
  | cons k rest =>
    simp only [itemChars, List.length_append, List.length_cons]
    omega

theorem length_fieldChars_cons (f : String × Json) (rest : List (String × Json)) :
    (chars f.2).length + (fieldChars rest).length < (fieldChars (f :: rest)).length := by
  cases rest with
  | nil =>
    simp only [fieldChars, List.length_append, List.length_cons, List.length_nil]
    omega
  | cons g rest =>
    simp only [fieldChars, List.length_append, List.length_cons]
    omega

theorem itemsDepth_le_length {items : List Json} (h : ∀ j ∈ items, j.depth < (chars j).length) :
    itemsDepth items ≤ (itemChars items).length := by
  induction items with
  | nil => exact Nat.zero_le _
  | cons j rest ih =>
    rw [List.forall_mem_cons] at h
    have hlength := length_itemChars_cons j rest
    have hrest := ih h.2
    rw [itemsDepth]
    omega

theorem fieldsDepth_le_length {fields : List (String × Json)}
    (h : ∀ f ∈ fields, f.2.depth < (chars f.2).length) :
    fieldsDepth fields ≤ (fieldChars fields).length := by
  induction fields with
  | nil => exact Nat.zero_le _
  | cons f rest ih =>
    rw [List.forall_mem_cons] at h
    have hlength := length_fieldChars_cons f rest
    have hrest := ih h.2
    rw [fieldsDepth]
    omega

/-- A value takes more characters than its nesting is deep. -/
theorem IsWhole.depth_lt {j : Json} (h : j.IsWhole) : j.depth < (chars j).length := by
  induction h with
  | null => decide
  | bool b => cases b <;> decide
  | @number n hleast hgreatest =>
    obtain ⟨c, cs, hcons, -⟩ := Literal.text_whole_eq_cons n
    simp [depth, chars, hcons]
  | string s => simp [depth, chars, quoteChars]
  | array _ ih =>
    have hdepth := itemsDepth_le_length ih
    simp only [depth, chars, List.length_cons, List.length_append]
    omega
  | object _ ih =>
    have hdepth := fieldsDepth_le_length ih
    simp only [depth, chars, List.length_cons, List.length_append]
    omega

theorem length_le_itemChars {items : List Json} (h : ∀ j ∈ items, j.IsWhole) :
    items.length ≤ (itemChars items).length := by
  induction items with
  | nil => exact Nat.zero_le _
  | cons j rest ih =>
    rw [List.forall_mem_cons] at h
    have hlength := length_itemChars_cons j rest
    have hdepth := h.1.depth_lt
    have hrest := ih h.2
    rw [List.length_cons]
    omega

theorem length_le_fieldChars (fields : List (String × Json)) :
    fields.length ≤ (fieldChars fields).length := by
  induction fields with
  | nil => exact Nat.zero_le _
  | cons f rest ih =>
    have hlength := length_fieldChars_cons f rest
    rw [List.length_cons]
    omega

namespace Literal

/-! ## Values as they are read -/

section Characters

variable {c : Char}

theorem skipSpace_cons (h : isSpace c = false) (cs : List Char) :
    skipSpace (c :: cs) = c :: cs :=
  List.dropWhile_cons_of_neg (by simp [h])

/-- A number does not begin with a character that means something else. -/
theorem ne_of_numeral (h : c.isDigit = true ∨ c = '-') (letter : Char)
    (hletter : letter.isDigit = false ∧ letter ≠ '-') : c ≠ letter := by
  rintro rfl
  rcases h with h | h
  · rw [hletter.1] at h
    exact Bool.false_ne_true h
  · exact hletter.2 h

theorem not_isSpace_of_numeral (h : c.isDigit = true ∨ c = '-') : isSpace c = false := by
  have hspace := ne_of_numeral h ' ' (by decide)
  have hline := ne_of_numeral h '\n' (by decide)
  have htab := ne_of_numeral h '\t' (by decide)
  have hreturn := ne_of_numeral h '\r' (by decide)
  simp [isSpace, hspace, hline, htab, hreturn]

/-- What is written begins with a character that is neither a blank nor the end of a list. -/
theorem chars_eq_cons {j : Json} (h : j.IsWhole) :
    ∃ c cs, chars j = c :: cs ∧ isSpace c = false ∧ c ≠ ']' := by
  cases h with
  | null => exact ⟨'n', _, rfl, by decide, by decide⟩
  | bool b =>
    cases b with
    | false => exact ⟨'f', _, rfl, by decide, by decide⟩
    | true => exact ⟨'t', _, rfl, by decide, by decide⟩
  | @number n hleast hgreatest =>
    obtain ⟨c, cs, hcons, hc⟩ := text_whole_eq_cons n
    exact ⟨c, cs, by rw [chars, hcons], not_isSpace_of_numeral hc,
      ne_of_numeral hc ']' (by decide)⟩
  | string s => exact ⟨'"', _, rfl, by decide, by decide⟩
  | array hitems => exact ⟨'[', _, rfl, by decide, by decide⟩
  | object hfields => exact ⟨'{', _, rfl, by decide, by decide⟩

/-! ### The character that decides -/

variable (fuel : Nat) {cs : List Char}

theorem readValue?_of_numeral (h : c.isDigit = true ∨ c = '-') :
    readValue? (fuel + 1) (c :: cs) = readNumber? (c :: cs) := by
  rw [readValue?, skipSpace_cons (not_isSpace_of_numeral h)]
  split
  case h_7 => rfl
  all_goals
    rename_i heq
    exact absurd (List.cons.inj heq).1 (ne_of_numeral h _ (by decide))

theorem readValue?_list (hc : isSpace c = false) (hne : c ≠ ']') :
    readValue? (fuel + 1) ('[' :: c :: cs) =
      (readItems? (readValue? fuel) (cs.length + 2) (c :: cs)).map
        fun p => (.array p.1, p.2) := by
  have hopen : skipSpace ('[' :: c :: cs) = '[' :: c :: cs := skipSpace_cons (by decide) _
  rw [readValue?, hopen]
  simp only [skipSpace_cons hc]
  split
  · rename_i heq
    exact absurd (List.cons.inj heq).1 hne
  · rfl

theorem readValue?_record (hc : isSpace c = false) (hne : c ≠ '}') :
    readValue? (fuel + 1) ('{' :: c :: cs) =
      (readFields? (readValue? fuel) (cs.length + 2) (c :: cs)).map
        fun p => (.object p.1, p.2) := by
  have hopen : skipSpace ('{' :: c :: cs) = '{' :: c :: cs := skipSpace_cons (by decide) _
  rw [readValue?, hopen]
  simp only [skipSpace_cons hc]
  split
  · rename_i heq
    exact absurd (List.cons.inj heq).1 hne
  · rfl

end Characters

/-! ### Lists and objects -/

/-- Reads these values back, whatever ends them. -/
def ReadsBack (element : List Char → Option (Literal × List Char)) (j : Json) : Prop :=
  ∀ rest, IsEnd rest → element (chars j ++ rest) = some (j.literal, rest)

section Elements

variable {element : List Char → Option (Literal × List Char)} {n : Nat}

theorem isEnd_cons {c : Char} (h : c = ',' ∨ c = ']' ∨ c = '}') (rest : List Char) :
    IsEnd (c :: rest) := by
  intro d hd
  cases hd
  exact h

theorem readItems?_itemChars {items : List Json} (hne : items ≠ []) (hn : items.length ≤ n)
    (h : ∀ j ∈ items, ReadsBack element j) (rest : List Char) :
    readItems? element n (itemChars items ++ ']' :: rest) =
      some (items.map literal, rest) := by
  induction items generalizing n with
  | nil => exact absurd rfl hne
  | cons j more ih =>
    rw [List.forall_mem_cons] at h
    obtain _ | n := n
    · exact absurd hn (Nat.not_succ_le_zero _)
    by_cases hmore : more = []
    · subst hmore
      have hj := h.1 (']' :: rest) (isEnd_cons (by decide) rest)
      rw [itemChars, readItems?, hj]
      rfl
    · have hj := h.1 (',' :: (itemChars more ++ ']' :: rest)) (isEnd_cons (by decide) _)
      have hread := ih hmore (Nat.le_of_succ_le_succ hn) h.2
      rw [itemChars_cons j hmore, List.append_assoc, List.cons_append, readItems?, hj]
      show (readItems? element n (itemChars more ++ ']' :: rest)).bind _ = _
      rw [hread]
      rfl

theorem readFields?_fieldChars {fields : List (String × Json)} (hne : fields ≠ [])
    (hn : fields.length ≤ n) (h : ∀ f ∈ fields, ReadsBack element f.2) (rest : List Char) :
    readFields? element n (fieldChars fields ++ '}' :: rest) =
      some (fields.map fun f => (some f.1, f.2.literal), rest) := by
  induction fields generalizing n with
  | nil => exact absurd rfl hne
  | cons f more ih =>
    rw [List.forall_mem_cons] at h
    obtain _ | n := n
    · exact absurd hn (Nat.not_succ_le_zero _)
    by_cases hmore : more = []
    · subst hmore
      obtain ⟨behind, hname, hread⟩ :=
        readText?_quoteChars f.1 (':' :: (chars f.2 ++ '}' :: rest))
      have hj := h.1 ('}' :: rest) (isEnd_cons (by decide) rest)
      have hchars : fieldChars [f] ++ '}' :: rest = '"' :: behind := by
        rw [← hname]
        simp [fieldChars]
      rw [hchars, readFields?]
      show (readText? behind).bind _ = _
      rw [hread]
      show (element (chars f.2 ++ '}' :: rest)).bind _ = _
      rw [hj]
      rfl
    · obtain ⟨behind, hname, hread⟩ := readText?_quoteChars f.1
        (':' :: (chars f.2 ++ ',' :: (fieldChars more ++ '}' :: rest)))
      have hj := h.1 (',' :: (fieldChars more ++ '}' :: rest)) (isEnd_cons (by decide) _)
      have hfields := ih hmore (Nat.le_of_succ_le_succ hn) h.2
      have hchars : fieldChars (f :: more) ++ '}' :: rest = '"' :: behind := by
        rw [← hname, fieldChars_cons f hmore]
        simp
      rw [hchars, readFields?]
      show (readText? behind).bind _ = _
      rw [hread]
      show (element (chars f.2 ++ ',' :: (fieldChars more ++ '}' :: rest))).bind _ = _
      rw [hj]
      show (readFields? element n (fieldChars more ++ '}' :: rest)).bind _ = _
      rw [hfields]
      rfl

end Elements

theorem itemChars_eq_cons {items : List Json} (hne : items ≠ []) (h : ∀ j ∈ items, j.IsWhole) :
    ∃ c cs, itemChars items = c :: cs ∧ isSpace c = false ∧ c ≠ ']' := by
  cases items with
  | nil => exact absurd rfl hne
  | cons j more =>
    obtain ⟨c, cs, hcons, hc, hbracket⟩ := chars_eq_cons (List.forall_mem_cons.1 h).1
    by_cases hmore : more = []
    · subst hmore
      exact ⟨c, cs, by rw [itemChars, hcons], hc, hbracket⟩
    · exact ⟨c, _, by rw [itemChars_cons j hmore, hcons, List.cons_append], hc, hbracket⟩

theorem fieldChars_eq_cons {fields : List (String × Json)} (hne : fields ≠ []) :
    ∃ cs, fieldChars fields = '"' :: cs := by
  cases fields with
  | nil => exact absurd rfl hne
  | cons f more =>
    by_cases hmore : more = []
    · subst hmore
      exact ⟨_, rfl⟩
    · exact ⟨_, by rw [fieldChars_cons f hmore, quoteChars, List.cons_append]⟩

theorem readsBack_array {items : List Json} {fuel : Nat} (hwhole : ∀ j ∈ items, j.IsWhole)
    (h : ∀ j ∈ items, ReadsBack (readValue? fuel) j) :
    ReadsBack (readValue? (fuel + 1)) (.array items) := by
  intro rest _
  by_cases hne : items = []
  · subst hne
    rfl
  · obtain ⟨c, cs, hcons, hc, hbracket⟩ := itemChars_eq_cons hne hwhole
    have hlength : items.length ≤ (cs ++ ']' :: rest).length + 2 := by
      have hle := length_le_itemChars hwhole
      rw [hcons] at hle
      simp only [List.length_cons, List.length_append] at hle ⊢
      omega
    have hread := readItems?_itemChars hne hlength h rest
    rw [hcons, List.cons_append] at hread
    rw [chars, List.cons_append, List.append_assoc, List.singleton_append, hcons,
      List.cons_append, readValue?_list fuel hc hbracket, hread, literal, itemLiterals_eq_map]
    rfl

theorem readsBack_object {fields : List (String × Json)} {fuel : Nat}
    (h : ∀ f ∈ fields, ReadsBack (readValue? fuel) f.2) :
    ReadsBack (readValue? (fuel + 1)) (.object fields) := by
  intro rest _
  by_cases hne : fields = []
  · subst hne
    rfl
  · obtain ⟨cs, hcons⟩ := fieldChars_eq_cons hne
    have hlength : fields.length ≤ (cs ++ '}' :: rest).length + 2 := by
      have hle := length_le_fieldChars fields
      rw [hcons] at hle
      simp only [List.length_cons, List.length_append] at hle ⊢
      omega
    have hread := readFields?_fieldChars hne hlength h rest
    rw [hcons, List.cons_append] at hread
    rw [chars, List.cons_append, List.append_assoc, List.singleton_append, hcons,
      List.cons_append, readValue?_record fuel (by decide) (by decide), hread, literal,
      fieldLiterals_eq_map]
    rfl

/-- A value is read back, if the bound on the nesting suffices. -/
theorem readsBack_readValue? {j : Json} (h : j.IsWhole) {fuel : Nat} (hfuel : j.depth ≤ fuel) :
    ReadsBack (readValue? (fuel + 1)) j := by
  induction h generalizing fuel with
  | null => exact fun rest _ => rfl
  | bool b => cases b <;> exact fun rest _ => rfl
  | @number n hleast hgreatest =>
    intro rest hrest
    obtain ⟨c, cs, hcons, hc⟩ := text_whole_eq_cons n
    rw [chars, literal, ← readNumber?_text hleast hgreatest hrest, hcons, List.cons_append,
      readValue?_of_numeral fuel hc]
  | string s =>
    intro rest _
    obtain ⟨behind, hchars, hread⟩ := readText?_quoteChars s rest
    rw [chars, hchars]
    show (readText? behind).map _ = _
    rw [hread]
    rfl
  | @array items hitems ih =>
    obtain _ | fuel := fuel
    · exact absurd hfuel (Nat.not_succ_le_zero _)
    have hdepth := itemsDepth_le_iff.1 (Nat.le_of_succ_le_succ hfuel)
    exact readsBack_array hitems fun j hj => ih j hj (hdepth j hj)
  | @object fields hfields ih =>
    obtain _ | fuel := fuel
    · exact absurd hfuel (Nat.not_succ_le_zero _)
    have hdepth := fieldsDepth_le_iff.1 (Nat.le_of_succ_le_succ hfuel)
    exact readsBack_object fun f hf => ih f hf (hdepth f hf)

/-- The literal of a value is what its text is read as. -/
theorem read?_text {j : Json} (h : j.IsWhole) : Literal.read? j.text = some j.literal := by
  have hread := readsBack_readValue? h (Nat.le_of_lt h.depth_lt) [] (by simp [IsEnd])
  rw [List.append_nil] at hread
  simp only [Literal.read?, text, String.toList_ofList, hread, Option.bind_eq_bind,
    Option.bind_some]
  rfl

/-! ## Values of literals -/

theorem values?_map {items : List Sorted} {d : Nat}
    (h : ∀ j ∈ items, value? d j.json.literal = if j.json.depth ≤ d then some j else none) :
    values? d ((items.map Sorted.json).map literal) =
      if itemsDepth (items.map Sorted.json) ≤ d then some items else none := by
  induction items with
  | nil => simp [values?, itemsDepth]
  | cons j rest ih =>
    rw [List.forall_mem_cons] at h
    rw [List.map_cons, List.map_cons, values?, h.1, ih h.2, itemsDepth]
    simp only [Nat.max_le]
    by_cases hj : j.json.depth ≤ d
    · by_cases hrest : itemsDepth (rest.map Sorted.json) ≤ d <;> simp [hj, hrest]
    · simp [hj]

theorem fieldValues?_map {fields : List (String × Sorted)} {d : Nat}
    (h : ∀ f ∈ fields,
      value? d f.2.json.literal = if f.2.json.depth ≤ d then some f.2 else none) :
    fieldValues? d ((fields.map Sorted.field).map fun f => (some f.1, f.2.literal)) =
      if fieldsDepth (fields.map Sorted.field) ≤ d then some fields else none := by
  induction fields with
  | nil => simp [fieldValues?, fieldsDepth]
  | cons f rest ih =>
    rw [List.forall_mem_cons] at h
    rw [List.map_cons, List.map_cons, Sorted.field, fieldValues?, h.1, ih h.2, fieldsDepth]
    simp only [Nat.max_le]
    by_cases hf : f.2.json.depth ≤ d
    · by_cases hrest : fieldsDepth (rest.map Sorted.field) ≤ d <;> simp [hf, hrest]
    · simp [hf]

/-- A value that is nested too deep has a literal, and the literal has no value. -/
theorem value?_literal (j : Sorted) (d : Nat) :
    value? d j.json.literal = if j.json.depth ≤ d then some j else none := by
  induction j generalizing d with
  | null => simp [Sorted.null, literal, value?, depth]
  | bool b => simp [Sorted.bool, literal, value?, depth]
  | number n => simp [Sorted.number, literal, value?, depth]
  | string s => simp [Sorted.string, literal, value?, depth]
  | array items ih =>
    simp only [Sorted.array, literal, itemLiterals_eq_map, depth]
    obtain _ | d := d
    · rfl
    · show (values? d _).map Sorted.array = _
      rw [values?_map fun j hj => ih j hj d]
      by_cases hdepth : itemsDepth (items.map Sorted.json) ≤ d <;> simp [hdepth, Sorted.array]
  | object fields ih =>
    simp only [Sorted.object, literal, fieldLiterals_eq_map, depth]
    obtain _ | d := d
    · rfl
    · show (fieldValues? d _).map (fun fs => Sorted.object (Dict.ofList fs)) = _
      rw [fieldValues?_map fun f hf => ih f hf d]
      by_cases hdepth : fieldsDepth (fields.entries.map Sorted.field) ≤ d <;>
        simp [hdepth, Dict.ofList_entries, Sorted.object]

end Literal

/-- What is written is read back, unless it is nested too deep. -/
theorem read?_text {j : Sorted} (hwhole : j.json.IsWhole) :
    read? j.json.text = if j.json.depth ≤ Literal.depthLimit then some j.json else none := by
  rw [read?, Literal.read?_text hwhole]
  show (Literal.value? Literal.depthLimit j.json.literal).map _ = _
  rw [Literal.value?_literal]
  split <;> rfl

end Rulebook.Json
