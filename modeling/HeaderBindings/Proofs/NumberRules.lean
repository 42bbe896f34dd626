/-
Module: HeaderBindings.Proofs.NumberRules
Purpose: The rules that respell the numbers of an expression look no further than the next character
  that belongs neither to a word nor to a number, so what stands on both sides of such a character is
  respelled apart.
Main exports: Spelling.NumberRule, Spelling.respell, Spelling.NumberRule.EndsAtMarks,
  Spelling.respell_append, Spelling.respell_surrounded, Spelling.blank_of_respell,
  Spelling.endsAtMarks_dropSuffix?, Spelling.endsAtMarks_markOctal?
-/
import HeaderBindings.Proofs.LiteralCharacters

namespace HeaderBindings.Spelling

open Text

/-- A rule for the numbers of an expression: it answers what replaces the number that a text begins with, and
how many characters beyond the first that stands for. -/
abbrev NumberRule := List Char → Option (List Char × Nat)

/-- A text with its numbers respelled by a rule. -/
def respell (rule : NumberRule) (text : List Char) : List Char := respellNumbers rule false 0 text

/-- A rule looks no further than a character that belongs neither to a word nor to a number. -/
structure NumberRule.EndsAtMarks (rule : NumberRule) : Prop where
  start : ∀ {c : Char} (rest : List Char), continuesWord c = false → rule (c :: rest) = none
  apart : ∀ {c : Char} (text more : List Char),
    continuesWord c = false → rule (text ++ c :: more) = rule text
  within : ∀ {text replacement : List Char} {skip : Nat}, rule text = some (replacement, skip) →
    skip < text.length

/-- What replaces a number shows something. -/
def NumberRule.Solid (rule : NumberRule) : Prop :=
  ∀ {text replacement : List Char} {skip : Nat}, rule text = some (replacement, skip) →
    ∃ c ∈ replacement, isBlank c = false

variable {rule : NumberRule} {c : Char} {text more : List Char}

/-- What follows a mark is respelled on its own. -/
theorem respellNumbers_cons_mark (ends : rule.EndsAtMarks) (isMark : continuesWord c = false)
    (continues : Bool) : respellNumbers rule continues 0 (c :: more) = c :: respell rule more := by
  cases continues with
  | true => rw [respellNumbers, isMark, respell]
  | false => rw [respellNumbers, ends.start more isMark, isMark, respell]

theorem respell_cons_mark (ends : rule.EndsAtMarks) (isMark : continuesWord c = false) :
    respell rule (c :: more) = c :: respell rule more :=
  respellNumbers_cons_mark ends isMark false

theorem respellNumbers_append (ends : rule.EndsAtMarks) (isMark : continuesWord c = false) {continues : Bool}
    {skip : Nat} (within : skip ≤ text.length) :
    respellNumbers rule continues skip (text ++ c :: more)
      = respellNumbers rule continues skip text ++ c :: respell rule more := by
  fun_induction respellNumbers rule continues skip text with
  | case1 continues skip =>
      obtain rfl := Nat.le_zero.mp within
      exact respellNumbers_cons_mark ends isMark continues
  | case2 continues skip first rest ih => exact ih (Nat.le_of_succ_le_succ within)
  | case3 first rest ih => exact congrArg (first :: ·) (ih (Nat.zero_le _))
  | case4 first rest replacement skip found ih =>
      have same := ends.apart (first :: rest) more isMark
      rw [found, List.cons_append] at same
      have short : skip ≤ rest.length := Nat.le_of_lt_succ (ends.within found)
      rw [List.cons_append, respellNumbers, same, List.append_assoc, ← ih short]
  | case5 first rest none ih =>
      have same := ends.apart (first :: rest) more isMark
      rw [none, List.cons_append] at same
      rw [List.cons_append, respellNumbers, same, ih (Nat.zero_le _), List.cons_append]

/-- What stands before a mark and what follows it are respelled apart. -/
theorem respell_append (ends : rule.EndsAtMarks) (isMark : continuesWord c = false) (text more : List Char) :
    respell rule (text ++ c :: more) = respell rule text ++ c :: respell rule more :=
  respellNumbers_append ends isMark (Nat.zero_le _)

/-! ### Blanks -/

theorem continuesWord_of_isBlank (blank : isBlank c = true) : continuesWord c = false := by
  have noPoint : c ≠ '.' := by
    rintro rfl
    exact absurd blank (by decide)
  simp [continuesWord, isWord_of_isBlank blank, noPoint]

/-- Blanks stay as they are. -/
theorem respell_of_blank (ends : rule.EndsAtMarks) (blank : ∀ c ∈ text, isBlank c = true) :
    respell rule text = text := by
  induction text with
  | nil => rfl
  | cons first rest ih =>
      rw [respell_cons_mark ends (continuesWord_of_isBlank (blank first List.mem_cons_self)),
        ih fun c member => blank c (List.mem_cons_of_mem _ member)]

/-- Blanks before and behind a text stay there. -/
theorem respell_surrounded (ends : rule.EndsAtMarks) {before after : List Char}
    (blankBefore : ∀ c ∈ before, isBlank c = true) (blankAfter : ∀ c ∈ after, isBlank c = true)
    (text : List Char) :
    respell rule (before ++ (text ++ after)) = before ++ (respell rule text ++ after) := by
  induction before with
  | nil =>
      rw [List.nil_append, List.nil_append]
      cases after with
      | nil => rw [List.append_nil, List.append_nil]
      | cons first rest =>
          rw [respell_append ends (continuesWord_of_isBlank (blankAfter first List.mem_cons_self)),
            respell_of_blank ends fun c member => blankAfter c (List.mem_cons_of_mem _ member)]
  | cons first rest ih =>
      have isMark := continuesWord_of_isBlank (blankBefore first List.mem_cons_self)
      rw [List.cons_append, respell_cons_mark ends isMark,
        ih fun c member => blankBefore c (List.mem_cons_of_mem _ member), List.cons_append]

theorem blank_of_respellNumbers (solid : rule.Solid) {continues : Bool} {skip : Nat} (atNumber : skip = 0)
    (blank : ∀ c ∈ respellNumbers rule continues skip text, isBlank c = true) :
    ∀ c ∈ text, isBlank c = true := by
  fun_induction respellNumbers rule continues skip text with
  | case1 => simp
  | case2 => cases atNumber
  | case3 first rest ih =>
      exact List.forall_mem_cons.mpr ⟨blank first List.mem_cons_self,
        ih rfl fun c member => blank c (List.mem_cons_of_mem _ member)⟩
  | case4 first rest replacement skip found ih =>
      obtain ⟨c, member, shows⟩ := solid found
      exact absurd ((blank c (List.mem_append_left _ member)).symm.trans shows) (by decide)
  | case5 first rest none ih =>
      exact List.forall_mem_cons.mpr ⟨blank first List.mem_cons_self,
        ih rfl fun c member => blank c (List.mem_cons_of_mem _ member)⟩

/-- Only blanks are respelled as blanks. -/
theorem blank_of_respell (solid : rule.Solid) (blank : ∀ c ∈ respell rule text, isBlank c = true) :
    ∀ c ∈ text, isBlank c = true :=
  blank_of_respellNumbers solid rfl blank

/-! ### Words -/

theorem respellNumbers_of_length_le {continues : Bool} {skip : Nat} (most : text.length ≤ skip) :
    respellNumbers rule continues skip text = [] := by
  induction text generalizing continues skip with
  | nil => cases skip <;> cases continues <;> rfl
  | cons first rest ih =>
      cases skip with
      | zero => cases most
      | succ skip => exact ih (Nat.le_of_succ_le_succ most)

theorem respellNumbers_of_continuesWord (word : ∀ c ∈ text, continuesWord c = true) :
    respellNumbers rule true 0 text = text := by
  induction text with
  | nil => rfl
  | cons first rest ih =>
      rw [respellNumbers, word first List.mem_cons_self,
        ih fun c member => word c (List.mem_cons_of_mem _ member)]

/-- A word for which a rule answers nothing stands as it is. -/
theorem respell_of_none (word : ∀ c ∈ text, continuesWord c = true) (none : rule text = none) :
    respell rule text = text := by
  cases text with
  | nil => rfl
  | cons first rest =>
      rw [respell, respellNumbers, none, word first List.mem_cons_self,
        respellNumbers_of_continuesWord fun c member => word c (List.mem_cons_of_mem _ member)]

/-- A word that a rule replaces as a whole becomes what replaces it. -/
theorem respell_of_some {replacement : List Char} {skip : Nat} (found : rule text = some (replacement, skip))
    (whole : text.length = skip + 1) : respell rule text = replacement := by
  cases text with
  | nil => cases whole
  | cons first rest =>
      have most : rest.length ≤ skip := Nat.le_of_eq (Nat.succ.inj whole)
      rw [respell, respellNumbers, found]
      dsimp only
      rw [respellNumbers_of_length_le most, List.append_nil]

/-! ### The two rules -/

theorem isWord_of_mark (isMark : continuesWord c = false) : isWord c = false :=
  (Bool.or_eq_false_iff.mp isMark).1

/-- A run of characters that pass a test ends at a character that fails it, whatever follows. -/
theorem takeWhile_append_cons {test : Char → Bool} (fails : test c = false) (text more : List Char) :
    (text ++ c :: more).takeWhile test = text.takeWhile test ∧
      (text ++ c :: more).dropWhile test = text.dropWhile test ++ c :: more := by
  induction text with
  | nil => simp [fails]
  | cons first rest ih =>
      by_cases passes : test first = true
      · simp [passes, ih]
      · simp [passes]

theorem run?_append {test : Char → Bool} (fails : test c = false) (text more : List Char) :
    run? test (text ++ c :: more)
      = (run? test text).map fun (digits, rest) => (digits, rest ++ c :: more) := by
  obtain ⟨taken, dropped⟩ := takeWhile_append_cons fails text more
  rw [run?, run?, taken, dropped]
  cases text.takeWhile test <;> rfl

/-- The letters that name the base of a number behind its zero. -/
def baseLetters : List Char := ['x', 'X', 'b', 'B']

/-- Without a letter for its base a number is a run of decimal digits. -/
theorem integerRun?_eq_run?
    (plain : ∀ letter rest, text = '0' :: letter :: rest → letter ∉ baseLetters) :
    integerRun? text = run? isDecimal text := by
  unfold integerRun?
  split
  · next letter rest =>
      have other := plain letter rest rfl
      simp only [baseLetters, List.mem_cons, List.not_mem_nil, or_false, not_or] at other
      simp [other]
  · rfl

theorem integerRun?_append (isMark : continuesWord c = false) (text more : List Char) :
    integerRun? (text ++ c :: more)
      = (integerRun? text).map fun (number, rest) => (number, rest ++ c :: more) := by
  have noWord := isWord_of_mark isMark
  have decimalFails := ofWords_isDecimal.fails noWord
  by_cases named : ∃ letter rest, text = '0' :: letter :: rest ∧ letter ∈ baseLetters
  · obtain ⟨letter, rest, rfl, -⟩ := named
    obtain ⟨takenHex, droppedHex⟩ := takeWhile_append_cons (ofWords_isHexadecimal.fails noWord) rest more
    obtain ⟨takenBin, droppedBin⟩ := takeWhile_append_cons (ofWords_isBinary.fails noWord) rest more
    have run := run?_append decimalFails ('0' :: letter :: rest) more
    rw [List.cons_append, List.cons_append] at run ⊢
    rw [integerRun?, integerRun?, takenHex, droppedHex, takenBin, droppedBin, run]
    split
    · rfl
    · split <;> rfl
  · have plain : ∀ letter rest, text = '0' :: letter :: rest → letter ∉ baseLetters :=
      fun letter rest starts isLetter => named ⟨letter, rest, starts, isLetter⟩
    have plainAppended : ∀ letter rest,
        text ++ c :: more = '0' :: letter :: rest → letter ∉ baseLetters := by
      have words : ∀ c ∈ '0' :: baseLetters, isWord c = true := by decide
      intro letter rest starts isLetter
      rcases text with _ | ⟨first, _ | ⟨second, others⟩⟩
      · obtain ⟨rfl, -⟩ := List.cons.inj starts
        exact absurd ((words '0' List.mem_cons_self).symm.trans noWord) (by decide)
      · obtain ⟨zero, behind⟩ := List.cons.inj starts
        obtain ⟨rfl, -⟩ := List.cons.inj behind
        exact absurd ((words c (List.mem_cons_of_mem _ isLetter)).symm.trans noWord) (by decide)
      · obtain ⟨zero, behind⟩ := List.cons.inj starts
        obtain ⟨rfl, -⟩ := List.cons.inj behind
        exact plain second others (by rw [zero]) isLetter
    rw [integerRun?_eq_run? plain, integerRun?_eq_run? plainAppended, run?_append decimalFails]

theorem wordEnds_append (isMark : continuesWord c = false) (tail more : List Char) :
    wordEnds (tail ++ c :: more) = wordEnds tail := by
  cases tail with
  | nil => simp [wordEnds, isWord_of_mark isMark]
  | cons first others => rfl

/-- The number that a text begins with is a part of the text. -/
theorem append_of_integerRun? {number rest : List Char} (found : integerRun? text = some (number, rest)) :
    text = number ++ rest := by
  have ofRun {test : Char → Bool} (found : run? test text = some (number, rest)) : text = number ++ rest :=
    (run?_eq_some_iff.mp found).1
  unfold integerRun? at found
  split at found
  · next letter others =>
      split at found
      · obtain ⟨rfl, rfl⟩ := Prod.mk.inj (Option.some.inj found)
        simp
      · split at found
        · obtain ⟨rfl, rfl⟩ := Prod.mk.inj (Option.some.inj found)
          simp
        · exact ofRun found
  · exact ofRun found

/-- The number that a text begins with begins with a digit. -/
theorem exists_digit_of_integerRun? {number rest : List Char}
    (found : integerRun? text = some (number, rest)) :
    ∃ first others, number = first :: others ∧ isDecimal first = true := by
  have ofRun (found : run? isDecimal text = some (number, rest)) :
      ∃ first others, number = first :: others ∧ isDecimal first = true := by
    obtain ⟨-, nonempty, passes, -⟩ := run?_eq_some_iff.mp found
    obtain ⟨first, others, rfl⟩ := List.exists_cons_of_ne_nil nonempty
    exact ⟨first, others, rfl, passes first List.mem_cons_self⟩
  have zero : isDecimal '0' = true := by decide
  unfold integerRun? at found
  split at found
  · next letter others =>
      split at found
      · obtain ⟨rfl, -⟩ := Prod.mk.inj (Option.some.inj found)
        exact ⟨'0', _, rfl, zero⟩
      · split at found
        · obtain ⟨rfl, -⟩ := Prod.mk.inj (Option.some.inj found)
          exact ⟨'0', _, rfl, zero⟩
        · exact ofRun found
  · exact ofRun found

theorem dropSuffix?_append (isMark : continuesWord c = false) (text more : List Char) :
    dropSuffix? (text ++ c :: more) = dropSuffix? text := by
  have letterFails := ofWords_isIntegerSuffix.fails (isWord_of_mark isMark)
  rw [dropSuffix?, dropSuffix?, integerRun?_append isMark]
  rcases integerRun? text with _ | ⟨number, rest⟩
  · rfl
  · simp only [Option.map_some, Option.bind_eq_bind, Option.bind_some, run?_append letterFails]
    rcases run? isIntegerSuffix rest with _ | ⟨suffix, tail⟩
    · rfl
    · simp only [Option.map_some, Option.bind_some, wordEnds_append isMark]

theorem endsAtMarks_dropSuffix? : NumberRule.EndsAtMarks dropSuffix? where
  start rest isMark := dropSuffix?_append isMark [] rest
  apart text more isMark := dropSuffix?_append isMark text more
  within := by
    intro text replacement skip found
    obtain ⟨⟨number, rest⟩, runs, behind⟩ := Option.bind_eq_some_iff.mp found
    obtain ⟨⟨suffix, tail⟩, suffixed, answer⟩ := Option.bind_eq_some_iff.mp behind
    obtain ⟨parts, nonempty, -, -⟩ := run?_eq_some_iff.mp suffixed
    have positive := List.length_pos_iff.mpr nonempty
    rw [append_of_integerRun? runs, parts, List.length_append, List.length_append]
    dsimp only at answer
    split at answer
    · obtain ⟨-, rfl⟩ := Prod.mk.inj (Option.some.inj answer)
      omega
    · cases answer

theorem solid_dropSuffix? : NumberRule.Solid dropSuffix? := by
  intro text replacement skip found
  obtain ⟨⟨number, rest⟩, runs, behind⟩ := Option.bind_eq_some_iff.mp found
  obtain ⟨⟨suffix, tail⟩, -, answer⟩ := Option.bind_eq_some_iff.mp behind
  dsimp only at answer
  split at answer
  · obtain ⟨rfl, -⟩ := Prod.mk.inj (Option.some.inj answer)
    obtain ⟨first, others, rfl, digit⟩ := exists_digit_of_integerRun? runs
    refine ⟨first, List.mem_cons_self, ?_⟩
    rw [← Bool.not_eq_true]
    exact fun blank =>
      absurd ((isWord_of_isDecimal digit).symm.trans (isWord_of_isBlank blank)) (by decide)
  · cases answer

theorem markOctal?_append (isMark : continuesWord c = false) (text more : List Char) :
    markOctal? (text ++ c :: more) = markOctal? text := by
  have noWord := isWord_of_mark isMark
  have noPoint : c ≠ '.' := by simpa using (Bool.or_eq_false_iff.mp isMark).2
  by_cases zero : ∃ rest, text = '0' :: rest
  · obtain ⟨rest, rfl⟩ := zero
    rw [List.cons_append, markOctal?, markOctal?, run?_append (ofWords_isOctal.fails noWord)]
    rcases run? isOctal rest with _ | ⟨digits, tail⟩
    · rfl
    · have head : ((tail ++ c :: more).head? != some '.') = (tail.head? != some '.') := by
        cases tail with
        | nil => exact (bne_iff_ne.mpr (by simpa using noPoint)).trans rfl
        | cons first others => rfl
      simp only [Option.map_some, Option.bind_eq_bind, Option.bind_some, wordEnds_append isMark, head]
  · have none {text : List Char} (starts : ∀ rest, text ≠ '0' :: rest) : markOctal? text = none := by
      unfold markOctal?
      split
      · next rest => exact absurd rfl (starts rest)
      · rfl
    rw [none, none]
    · exact fun rest starts => zero ⟨rest, starts⟩
    · intro rest starts
      cases text with
      | nil =>
          obtain ⟨rfl, -⟩ := List.cons.inj starts
          exact absurd noWord (by decide)
      | cons first others =>
          obtain ⟨rfl, -⟩ := List.cons.inj starts
          exact zero ⟨others, rfl⟩

theorem endsAtMarks_markOctal? : NumberRule.EndsAtMarks markOctal? where
  start rest isMark := markOctal?_append isMark [] rest
  apart text more isMark := markOctal?_append isMark text more
  within := by
    intro text replacement skip found
    unfold markOctal? at found
    split at found
    · obtain ⟨⟨digits, tail⟩, runs, answer⟩ := Option.bind_eq_some_iff.mp found
      obtain ⟨parts, -, -, -⟩ := run?_eq_some_iff.mp runs
      rw [parts, List.length_cons, List.length_append]
      dsimp only at answer
      split at answer
      · obtain ⟨-, rfl⟩ := Prod.mk.inj (Option.some.inj answer)
        omega
      · cases answer
    · cases found

theorem solid_markOctal? : NumberRule.Solid markOctal? := by
  intro text replacement skip found
  unfold markOctal? at found
  split at found
  · obtain ⟨⟨digits, tail⟩, -, answer⟩ := Option.bind_eq_some_iff.mp found
    dsimp only at answer
    split at answer
    · obtain ⟨rfl, -⟩ := Prod.mk.inj (Option.some.inj answer)
      exact ⟨'0', List.mem_cons_self, by decide⟩
    · cases answer
  · cases found

end HeaderBindings.Spelling
