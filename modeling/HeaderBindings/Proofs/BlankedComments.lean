/-
Module: HeaderBindings.Proofs.BlankedComments
Purpose: A text with its comments replaced by blanks, and when an expression and a literal are read from
  it as they are from the text itself: when only comments and blanks follow the first comment.
Main exports: Spelling.pieces, Spelling.blanked, Spelling.tokens, Spelling.CommentsLast,
  Spelling.exists_beforeFirst, Spelling.commentsLast_or_goesOn, Spelling.blank_of_tokens_eq,
  Spelling.blank_of_literals
-/
import Mathlib.Data.List.SplitBy
import HeaderBindings.Proofs.LiteralForms
import HeaderBindings.Proofs.NumberRules

namespace HeaderBindings

namespace Spelling

open Text

/-! ### Comments -/

/-- Where a character of a text stands: in code, between double or single quotation marks, behind a backslash
there, or in a comment. -/
inductive CodePlace where
  | code
  | quoted (double : Bool)
  | escaped (double : Bool)
  | comment
deriving DecidableEq, Repr

namespace CodePlace

/-- The mark that ends a quotation. -/
def quotationMark (double : Bool) : Char := if double then '"' else '\''

/-- The place behind a character of code. -/
def afterCode (c : Char) : CodePlace :=
  if c == '"' then .quoted true else if c == '\'' then .quoted false else .code

/-- The place behind a character between quotation marks. -/
def afterQuoted (double : Bool) (c : Char) : CodePlace :=
  if c == '\\' then .escaped double else if c == quotationMark double then .code else .quoted double

end CodePlace

/-- The characters of a text outside its comments, and nothing in the place of each comment. What opens a
comment between quotation marks does not count; a comment that is not closed reaches to the end. -/
def pieces : CodePlace → List Char → List (Option Char)
  | _, [] => []
  | .code, '/' :: '/' :: _ => [none]
  | .code, '/' :: '*' :: rest => none :: pieces .comment rest
  | .code, c :: rest => some c :: pieces (.afterCode c) rest
  | .quoted double, c :: rest => some c :: pieces (.afterQuoted double c) rest
  | .escaped double, c :: rest => some c :: pieces (.quoted double) rest
  | .comment, '*' :: '/' :: rest => pieces .code rest
  | .comment, _ :: rest => pieces .comment rest

/-- What is left of pieces with a blank for each comment. -/
def filled (parts : List (Option Char)) : List Char := parts.map (·.getD ' ')

/-- A text with each comment replaced by a blank. -/
def blanked (text : List Char) : List Char := filled (pieces .code text)

/-- A mark that opens comments is in a text. -/
def OpensComment (text : List Char) : Prop := ['/', '/'] <:+: text ∨ ['/', '*'] <:+: text

/-- Only comments and blanks follow the first comment of a text, unless a mark that opens comments stands
before it, which is between quotation marks then. -/
def CommentsLast (text : List Char) : Prop :=
  ∀ before behind, pieces .code text = before.map some ++ none :: behind →
    OpensComment before ∨ ∀ c, some c ∈ behind → isBlank c = true

/-! ### Tokens -/

/-- The operators of two characters. -/
def pairOperators : List (Char × Char) :=
  [('<', '<'), ('>', '>'), ('<', '='), ('>', '='), ('=', '='), ('!', '='), ('&', '&'), ('|', '|'),
   ('+', '+'), ('-', '-'), ('-', '>')]

/-- Whether two characters beside each other belong to one token: to a word or number, or to an operator. -/
def joins (first second : Char) : Bool :=
  continuesWord first && continuesWord second || pairOperators.contains (first, second)

/-- The characters of a text that are no blanks. -/
def inked (text : List Char) : List Char := text.filter fun c => !isBlank c

/-- The tokens of a text: the longest runs of characters that belong together, other than blanks. -/
def tokens (text : List Char) : List (List Char) :=
  (text.splitBy joins).filter fun group => inked group != []

theorem inked_append (front back : List Char) : inked (front ++ back) = inked front ++ inked back :=
  List.filter_append ..

theorem inked_eq_nil_iff {text : List Char} : inked text = [] ↔ ∀ c ∈ text, isBlank c = true := by
  simp [inked, List.filter_eq_nil_iff]

/-- The tokens of a text hold all of its characters but the blanks. -/
theorem inked_flatten_tokens (text : List Char) : inked (tokens text).flatten = inked text := by
  have dropped (groups : List (List Char)) :
      inked (groups.filter fun group => inked group != []).flatten = inked groups.flatten := by
    induction groups with
    | nil => rfl
    | cons group others ih =>
        by_cases blank : inked group = []
        · have dropped : ¬ (inked group != []) = true := by simp [blank]
          rw [List.filter_cons, if_neg dropped, List.flatten_cons, inked_append, blank, List.nil_append, ih]
        · have kept : (inked group != []) = true := by simp [blank]
          rw [List.filter_cons, if_pos kept, List.flatten_cons, List.flatten_cons, inked_append,
            inked_append, ih]
  rw [tokens, dropped, List.flatten_splitBy]

/-! ### What stands before a comment -/

variable {c : Char} {before rest text : List Char}

/-- The letters that follow a slash to open a comment. -/
def commentMarks : List Char := ['/', '*']

theorem beforeComment_of_mark {mark : Char} (isMark : mark ∈ commentMarks) (rest : List Char) :
    beforeComment ('/' :: mark :: rest) = [] := by
  have eq : mark = '/' ∨ mark = '*' := by simpa [commentMarks] using isMark
  rcases eq with rfl | rfl <;> rfl

theorem beforeComment_cons (plain : c = '/' → ∀ mark ∈ rest.head?, mark ∉ commentMarks) :
    beforeComment (c :: rest) = c :: beforeComment rest := by
  rw [beforeComment]
  · rintro behind rfl rfl
    exact plain rfl '/' rfl (by decide)
  · rintro behind rfl rfl
    exact plain rfl '*' rfl (by decide)

/-- Whether a character opens a comment is settled by the character behind it. -/
theorem beforeComment_cons_congr (sameHead : c = '/' → rest.head? = before.head?)
    (same : beforeComment rest = beforeComment before) :
    beforeComment (c :: rest) = beforeComment (c :: before) := by
  by_cases plain : c = '/' → ∀ mark ∈ rest.head?, mark ∉ commentMarks
  · have plainBefore : c = '/' → ∀ mark ∈ before.head?, mark ∉ commentMarks :=
      fun isSlash mark head => plain isSlash mark (by rw [sameHead isSlash]; exact head)
    rw [beforeComment_cons plain, beforeComment_cons plainBefore, same]
  · simp only [not_forall, not_not] at plain
    obtain ⟨rfl, mark, head, isMark⟩ := plain
    obtain ⟨others, rfl⟩ := List.head?_eq_some_iff.mp head
    obtain ⟨behind, rfl⟩ := List.head?_eq_some_iff.mp ((sameHead rfl).symm.trans head)
    rw [beforeComment_of_mark isMark, beforeComment_of_mark isMark]

/-- A blank goes on a text that opens no comment. -/
theorem beforeComment_append_blank (stands : beforeComment before = before) (isGap : isBlank c = true)
    (rest : List Char) : beforeComment (before ++ c :: rest) = before ++ c :: beforeComment rest := by
  have noMark : c ≠ '/' ∧ c ∉ commentMarks := by
    constructor
    · rintro rfl
      exact absurd isGap (by decide)
    · intro isMark
      have solid : ∀ c ∈ commentMarks, isBlank c = false := by decide
      exact absurd (isGap.symm.trans (solid c isMark)) (by decide)
  induction before with
  | nil => exact beforeComment_cons fun isSlash => absurd isSlash noMark.1
  | cons first others ih =>
      by_cases plain : first = '/' → ∀ mark ∈ others.head?, mark ∉ commentMarks
      · rw [beforeComment_cons plain, List.cons.injEq] at stands
        rw [List.cons_append, List.cons_append, beforeComment_cons, ih stands.2]
        intro isSlash mark head
        cases others with
        | nil =>
            cases head
            exact noMark.2
        | cons following more => exact plain isSlash mark head
      · simp only [not_forall, not_not] at plain
        obtain ⟨rfl, mark, head, isMark⟩ := plain
        obtain ⟨behind, rfl⟩ := List.head?_eq_some_iff.mp head
        rw [beforeComment_of_mark isMark] at stands
        cases stands

/-- What follows a text that opens a comment does not count. -/
theorem beforeComment_append_of_ne (opens : beforeComment before ≠ before) (rest : List Char) :
    beforeComment (before ++ rest) = beforeComment before := by
  fun_induction beforeComment before with
  | case1 => exact absurd rfl opens
  | case2 => rfl
  | case3 => rfl
  | case4 c others noLine noBlock ih =>
      have opensLater : beforeComment others ≠ others := fun same => opens (congrArg (c :: ·) same)
      rw [List.cons_append, beforeComment_cons, ih opensLater]
      rintro rfl mark head isMark
      cases others with
      | nil => exact opensLater rfl
      | cons first more =>
          cases head
          have eq : mark = '/' ∨ mark = '*' := by simpa [commentMarks] using isMark
          rcases eq with rfl | rfl
          · exact noLine more rfl rfl
          · exact noBlock more rfl rfl

theorem length_beforeComment_le {mark : Char} (isMark : mark ∈ commentMarks) (before rest : List Char) :
    (beforeComment (before ++ '/' :: mark :: rest)).length ≤ before.length := by
  induction before with
  | nil => rw [List.nil_append, beforeComment_of_mark isMark, List.length_nil]
  | cons first others ih =>
      by_cases plain : first = '/' →
          ∀ mark' ∈ (others ++ '/' :: mark :: rest).head?, mark' ∉ commentMarks
      · rw [List.cons_append, beforeComment_cons plain]
        exact Nat.succ_le_succ ih
      · simp only [not_forall, not_not] at plain
        obtain ⟨rfl, other, head, isOther⟩ := plain
        obtain ⟨behind, starts⟩ := List.head?_eq_some_iff.mp head
        rw [List.cons_append, starts, beforeComment_of_mark isOther]
        exact Nat.zero_le _

theorem opensComment_iff : OpensComment text ↔ beforeComment text ≠ text := by
  constructor
  · intro opens stands
    have ofInfix {mark : Char} (isMark : mark ∈ commentMarks)
        (isInfix : ['/', mark] <:+: text) : False := by
      obtain ⟨front, back, rfl⟩ := isInfix
      have short := length_beforeComment_le isMark front back
      rw [List.append_assoc, List.cons_append, List.cons_append, List.nil_append] at stands
      rw [stands, List.length_append, List.length_cons, List.length_cons] at short
      omega
    rcases opens with line | block
    · exact ofInfix (by decide) line
    · exact ofInfix (by decide) block
  · intro cut
    by_contra unmarked
    rw [OpensComment, not_or] at unmarked
    exact cut (beforeComment_eq_self_of_unmarked unmarked.1 unmarked.2)

/-! ### The first comment -/

theorem pieces_quoted_ne (double : Bool) (text : List Char) (more : List (Option Char)) :
    pieces (.quoted double) text ≠ none :: more := by
  cases text <;> simp [pieces]

/-- What stands before the first comment of a text in some pieces: it is cut like the text itself. -/
structure BeforeFirst (parts : List (Option Char)) (text before : List Char) : Prop where
  opens : ∃ behind, text = before ++ '/' :: behind
  goesOn : ∃ rest, parts = before.map some ++ none :: pieces .comment rest
  cut : beforeComment text = beforeComment before

theorem BeforeFirst.cons {parts : List (Option Char)} (first : BeforeFirst parts text before)
    (apart : c = '/' → before ≠ []) : BeforeFirst (some c :: parts) (c :: text) (c :: before) := by
  obtain ⟨⟨behind, rfl⟩, ⟨rest, rfl⟩, cut⟩ := first
  refine ⟨⟨behind, rfl⟩, ⟨rest, rfl⟩, beforeComment_cons_congr (fun isSlash => ?_) cut⟩
  obtain ⟨next, others, rfl⟩ := List.exists_cons_of_ne_nil (apart isSlash)
  rfl

/-- No comment begins between quotation marks. -/
theorem BeforeFirst.ne_nil {double : Bool} (first : BeforeFirst (pieces (.quoted double) text) text before) :
    before ≠ [] := by
  rintro rfl
  obtain ⟨rest, parts⟩ := first.goesOn
  exact pieces_quoted_ne double _ _ parts

/-- A text has no comment, or something stands before the first one. -/
theorem exists_beforeFirst {place : CodePlace} (outside : place ≠ .comment) (text : List Char) :
    pieces place text = text.map some ∨ ∃ before, BeforeFirst (pieces place text) text before := by
  fun_induction pieces place text with
  | case1 => exact Or.inl rfl
  | case2 behind => exact Or.inr ⟨[], ⟨'/' :: behind, rfl⟩, ⟨[], rfl⟩, rfl⟩
  | case3 rest => exact Or.inr ⟨[], ⟨'*' :: rest, rfl⟩, ⟨rest, rfl⟩, rfl⟩
  | case4 c rest noLine noBlock ih =>
      have next : CodePlace.afterCode c ≠ .comment := by
        unfold CodePlace.afterCode
        split <;> [skip; split] <;> simp
      rcases ih next with all | ⟨before, first⟩
      · exact Or.inl (congrArg (some c :: ·) all)
      · refine Or.inr ⟨c :: before, first.cons ?_⟩
        rintro rfl rfl
        obtain ⟨behind, rfl⟩ := first.opens
        exact noLine behind rfl rfl
  | case5 double c rest ih =>
      have next : CodePlace.afterQuoted double c ≠ .comment := by
        unfold CodePlace.afterQuoted
        split <;> [skip; split] <;> simp
      rcases ih next with all | ⟨before, first⟩
      · exact Or.inl (congrArg (some c :: ·) all)
      · refine Or.inr ⟨c :: before, first.cons ?_⟩
        rintro rfl
        have stays : CodePlace.afterQuoted double '/' = .quoted double := by cases double <;> decide
        rw [stays] at first
        exact first.ne_nil
  | case6 double c rest ih =>
      rcases ih (by simp) with all | ⟨before, first⟩
      · exact Or.inl (congrArg (some c :: ·) all)
      · exact Or.inr ⟨c :: before, first.cons fun _ => first.ne_nil⟩
  | case7 => exact absurd rfl outside
  | case8 => exact absurd rfl outside

/-- In code a character that opens no comment stays beside what precedes it. -/
theorem head_filled_code (plain : ∀ mark ∈ rest.head?, mark ∉ commentMarks) :
    ∀ mark ∈ (filled (pieces .code rest)).head?, mark ∉ commentMarks := by
  cases rest with
  | nil => simp [pieces, filled]
  | cons first others =>
      have other := plain first rfl
      have parts : pieces .code (first :: others) = some first :: pieces (.afterCode first) others := by
        rw [pieces]
        · rintro _ rfl -
          exact other (by decide)
        · rintro _ rfl -
          exact other (by decide)
      rw [parts]
      rintro mark ⟨⟩
      exact other

/-- If what stands before a mark that opens comments is blank behind a comment, then all is, since no
quotation begins among blanks. -/
theorem blank_of_pieces {place : CodePlace} (outside : place = .code ∨ place = .comment) (rest : List Char)
    (blank : ∀ c ∈ beforeComment (filled (pieces place rest)), isBlank c = true) :
    ∀ c, some c ∈ pieces place rest → isBlank c = true := by
  fun_induction pieces place rest with
  | case1 => simp
  | case2 => simp
  | case3 rest ih =>
      have filledRest : filled (none :: pieces .comment rest) = ' ' :: filled (pieces .comment rest) := rfl
      rw [filledRest, beforeComment_cons (by simp)] at blank
      intro c member
      exact ih (Or.inr rfl) (fun c inside => blank c (List.mem_cons_of_mem _ inside)) c
        (by simpa using member)
  | case4 c rest noLine noBlock ih =>
      have plain : c = '/' → ∀ mark ∈ (filled (pieces (.afterCode c) rest)).head?,
          mark ∉ commentMarks := by
        rintro rfl
        refine head_filled_code fun mark head isMark => ?_
        obtain ⟨others, rfl⟩ := List.head?_eq_some_iff.mp head
        have eq : mark = '/' ∨ mark = '*' := by simpa [commentMarks] using isMark
        rcases eq with rfl | rfl
        · exact noLine others rfl rfl
        · exact noBlock others rfl rfl
      have filledRest :
          filled (some c :: pieces (.afterCode c) rest) = c :: filled (pieces (.afterCode c) rest) := rfl
      rw [filledRest, beforeComment_cons plain] at blank
      have isGap := blank c List.mem_cons_self
      have stays : CodePlace.afterCode c = .code := by
        have noQuotation : ∀ c ∈ ['"', '\''], isBlank c = false := by decide
        have notQuoted : ∀ mark ∈ ['"', '\''], c ≠ mark := by
          rintro mark isQuotation rfl
          exact absurd (isGap.symm.trans (noQuotation c isQuotation)) (by decide)
        simp [CodePlace.afterCode, notQuoted '"' (by decide), notQuoted '\'' (by decide)]
      intro other member
      rcases List.mem_cons.mp member with isSame | later
      · rwa [Option.some.inj isSame]
      · exact ih (Or.inl stays) (fun c inside => blank c (List.mem_cons_of_mem _ inside)) other later
  | case5 double c rest ih => simp at outside
  | case6 double c rest ih => simp at outside
  | case7 rest ih => exact ih (Or.inl rfl) blank
  | case8 c rest _ ih => exact ih (Or.inr rfl) blank

/-- Pieces without characters other than blanks leave blanks only, and these open no comment. -/
theorem beforeComment_filled_of_blank {parts : List (Option Char)}
    (blank : ∀ c, some c ∈ parts → isBlank c = true) :
    ∀ c ∈ beforeComment (filled parts), isBlank c = true := by
  have all : ∀ c ∈ filled parts, isBlank c = true := by
    intro c member
    obtain ⟨part, inside, rfl⟩ := List.mem_map.mp member
    cases part with
    | none => decide
    | some c => exact blank c inside
  have noComment : '/' ∉ filled parts := fun member => absurd (all '/' member) (by decide)
  rwa [IntegerLiteral.beforeComment_eq_self noComment]

theorem filled_map_some (text : List Char) : filled (text.map some) = text := by
  rw [filled, List.map_map]
  exact List.map_id text

/-- What follows the first comment is settled by the text. -/
theorem commentsLast_iff {more : List (Option Char)}
    (parts : pieces .code text = before.map some ++ none :: more) :
    CommentsLast text ↔ OpensComment before ∨ ∀ c, some c ∈ more → isBlank c = true := by
  constructor
  · exact fun commentsLast => commentsLast before more parts
  · intro claim other others parts'
    have shown (chars : List Char) : ∀ part ∈ chars.map some, Option.isSome part = true := by simp
    obtain ⟨sameFront, sameBehind⟩ :=
      eq_of_append_eq_append (shown before) (by simp) (shown other) (by simp)
      (parts.symm.trans parts')
    rw [List.map_inj_right fun _ _ same => Option.some.inj same] at sameFront
    rw [← sameFront, ← (List.cons.inj sameBehind).2]
    exact claim

/-- A blank in the place of the first comment. -/
theorem beforeComment_blanked {more : List (Option Char)}
    (parts : pieces .code text = before.map some ++ none :: more) (stands : beforeComment before = before) :
    beforeComment (blanked text) = before ++ ' ' :: beforeComment (filled more) := by
  have shape : blanked text = before ++ ' ' :: filled more := by
    rw [blanked, parts, filled, List.map_append]
    exact congrArg (· ++ ' ' :: filled more) (filled_map_some before)
  rw [shape, beforeComment_append_blank stands (by decide)]

/-- Either only comments and blanks follow the first comment, and a text is cut with blanks for its comments
as it is without them, or else it goes on with more than blanks then. -/
theorem commentsLast_or_goesOn (text : List Char) :
    CommentsLast text ∧ strip (beforeComment (blanked text)) = strip (beforeComment text) ∨
      ¬ CommentsLast text ∧ ∃ more, beforeComment (blanked text) = beforeComment text ++ ' ' :: more ∧
        ¬ ∀ c ∈ more, isBlank c = true := by
  rcases exists_beforeFirst (by simp : CodePlace.code ≠ .comment) text with
    all | ⟨before, -, ⟨rest, parts⟩, cut⟩
  · have same : blanked text = text := by rw [blanked, all, filled_map_some]
    refine Or.inl ⟨fun before behind parts => ?_, by rw [same]⟩
    have member : none ∈ pieces .code text := by rw [parts]; simp
    rw [all] at member
    simp at member
  by_cases opens : OpensComment before
  · -- A mark between quotation marks cuts both texts in the same place.
    have cutBlanked : beforeComment (blanked text) = beforeComment text := by
      rw [cut, blanked, parts, filled, List.map_append, ← filled, filled_map_some]
      exact beforeComment_append_of_ne (opensComment_iff.mp opens) _
    exact Or.inl ⟨(commentsLast_iff parts).mpr (Or.inl opens), by rw [cutBlanked]⟩
  · have stands : beforeComment before = before := not_not.mp fun ne => opens (opensComment_iff.mpr ne)
    have cutBlanked := beforeComment_blanked parts stands
    rw [stands] at cut
    rw [cut, cutBlanked]
    by_cases blank : ∀ c ∈ beforeComment (filled (pieces .comment rest)), isBlank c = true
    · have last : CommentsLast text :=
        (commentsLast_iff parts).mpr (Or.inr (blank_of_pieces (Or.inr rfl) rest blank))
      exact Or.inl ⟨last, strip_append_of_blanks (List.forall_mem_cons.mpr ⟨by decide, blank⟩)⟩
    · refine Or.inr ⟨fun last => blank ?_, _, rfl, blank⟩
      exact beforeComment_filled_of_blank (((commentsLast_iff parts).mp last).resolve_left opens)

/-! ### Expressions -/

/-- A text with its numbers respelled by both rules. -/
def respelled (text : List Char) : List Char := respell markOctal? (respell dropSuffix? text)

theorem respelled_append (isGap : isBlank c = true) (text more : List Char) :
    respelled (text ++ c :: more) = respelled text ++ c :: respelled more := by
  have isMark := continuesWord_of_isBlank isGap
  rw [respelled, respell_append endsAtMarks_dropSuffix? isMark, respell_append endsAtMarks_markOctal? isMark]
  rfl

/-- Outer blanks do not count among the characters of what is respelled. -/
theorem inked_respelled_strip (text : List Char) :
    inked (respelled (strip text)) = inked (respelled text) := by
  obtain ⟨before, after, blankBefore, blankAfter, whole, -, -⟩ := exists_strip text
  have surrounded : respelled text = before ++ (respelled (strip text) ++ after) := by
    have dropped := respell_surrounded endsAtMarks_dropSuffix? blankBefore blankAfter (strip text)
    rw [← whole] at dropped
    rw [respelled, dropped, respell_surrounded endsAtMarks_markOctal? blankBefore blankAfter]
    rfl
  rw [surrounded, inked_append, inked_append, inked_eq_nil_iff.mpr blankBefore,
    inked_eq_nil_iff.mpr blankAfter, List.nil_append, List.append_nil]

/-- The tokens of two expressions that differ in what follows a blank are the same only if that is blank. -/
theorem blank_of_tokens_eq {more : List Char} (isGap : isBlank c = true)
    (same : tokens (respelled (strip text)) = tokens (respelled (strip (text ++ c :: more)))) :
    ∀ c ∈ more, isBlank c = true := by
  have sameInk : inked (respelled text) = inked (respelled text) ++ inked (c :: respelled more) :=
    calc inked (respelled text)
        = inked (tokens (respelled (strip text))).flatten := by
          rw [inked_flatten_tokens, inked_respelled_strip]
      _ = inked (respelled (text ++ c :: more)) := by rw [same, inked_flatten_tokens, inked_respelled_strip]
      _ = _ := by rw [respelled_append isGap, inked_append]
  have blank := inked_eq_nil_iff.mp (List.self_eq_append_right.mp sameInk)
  exact blank_of_respell solid_dropSuffix? (blank_of_respell solid_markOctal?
    fun c member => blank c (List.mem_cons_of_mem _ member))

/-! ### Literals -/

/-- A literal is read from two texts that differ in what follows a blank only if that is blank. -/
theorem blank_of_literals {more shown other : List Char} (isGap : isBlank c = true)
    (found : signed? (unwrapped (strip text)) = some shown)
    (foundOther : signed? (unwrapped (strip (text ++ c :: more))) = some other) :
    ∀ c ∈ more, isBlank c = true := by
  have nonempty {core shown : List Char} (found : signed? core = some shown) : core ≠ [] := by
    rintro rfl
    exact absurd found (by simp [signed?, splitSign, unsigned?, octal?, decimal?, hexadecimal?, binary?,
      floating?, mantissa?])
  exact (wraps_unwrapped text).blank_of_append (wraps_unwrapped _) isGap (nonempty found)
    (unbroken_of_signed? found) (nonempty foundOther) (unbroken_of_signed? foundOther)

end Spelling

open Spelling Text

/-- A text is read as it is with its comments replaced by blanks, as an expression and as a literal, just if
only comments and blanks follow its first comment; else the tokens of the expression differ, and a literal is
read from one of the two texts at most. -/
theorem comments_read_as_blanks_iff (text : String) :
    (tokens (expression text).toList = tokens (expression (String.ofList (blanked text.toList))).toList ↔
      CommentsLast text.toList) ∧
    (expression text = expression (String.ofList (blanked text.toList)) ↔ CommentsLast text.toList) ∧
    (literal? text = literal? (String.ofList (blanked text.toList)) ↔
      CommentsLast text.toList ∨
        literal? text = none ∧ literal? (String.ofList (blanked text.toList)) = none) := by
  rcases commentsLast_or_goesOn text.toList with ⟨last, same⟩ | ⟨notLast, more, goesOn, solid⟩
  · have sameExpression : expression (String.ofList (blanked text.toList)) = expression text := by
      rw [expression, expression, expressionChars, expressionChars, String.toList_ofList, same]
    have sameLiteral : literal? (String.ofList (blanked text.toList)) = literal? text := by
      rw [literal?, literal?, literalChars?, literalChars?, String.toList_ofList, same]
    simp [sameExpression, sameLiteral, last]
  · have isGap : isBlank ' ' = true := by decide
    have apart : tokens (expression text).toList
        ≠ tokens (expression (String.ofList (blanked text.toList))).toList := by
      intro same
      rw [expression, expression, expressionChars, expressionChars, String.toList_ofList,
        String.toList_ofList, String.toList_ofList, goesOn] at same
      exact solid (blank_of_tokens_eq isGap same)
    have unread (same : literal? text = literal? (String.ofList (blanked text.toList))) :
        literal? text = none := by
      rw [← Option.not_isSome_iff_eq_none, Option.isSome_iff_exists]
      rintro ⟨shown, found⟩
      have foundOther := same.symm.trans found
      rw [literal?, literalChars?] at found
      rw [literal?, literalChars?, String.toList_ofList, goesOn] at foundOther
      obtain ⟨chars, found, -⟩ := Option.map_eq_some_iff.mp found
      obtain ⟨otherChars, foundOther, -⟩ := Option.map_eq_some_iff.mp foundOther
      exact solid (blank_of_literals isGap found foundOther)
    refine ⟨iff_of_false apart notLast, iff_of_false (fun same => apart (by rw [← same])) notLast,
      ?_, ?_⟩
    · exact fun same => Or.inr ⟨unread same, same.symm.trans (unread same)⟩
    · rintro (last | ⟨none, noneOther⟩)
      · exact absurd last notLast
      · rw [none, noneOther]

/-- What follows a closed comment is lost: a literal is read from a text that is none with the comment
replaced by a blank. -/
theorem read_before_closed_comment :
    literal? "1 /* a */ + 1" = some "1" ∧
    literal? (String.ofList (blanked "1 /* a */ + 1".toList)) = none ∧
    tokens (expression "1 /* a */ + 1").toList = [['1']] ∧
    tokens (expression (String.ofList (blanked "1 /* a */ + 1".toList))).toList = [['1'], ['+'], ['1']] := by
  decide

end HeaderBindings
