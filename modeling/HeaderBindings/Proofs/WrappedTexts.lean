/-
Module: HeaderBindings.Proofs.WrappedTexts
Purpose: Texts within blanks and parentheses: what taking these off leaves of a text, and that it is settled
  by the text.
Main exports: Text.exists_strip, Text.strip_eq_self, Spelling.Wraps, Spelling.Bare, Spelling.wraps_unwrapped,
  Spelling.bare_unwrapped, Spelling.Wraps.unwrapped_eq, Spelling.Wraps.blank_of_append
-/
import Mathlib.Data.List.Induction
import HeaderBindings.Proofs.NameCharacters
import HeaderBindings.Spelling.Literal

namespace HeaderBindings

/-! ### Blanks at the ends of a text -/

namespace Text

variable {test : Char → Bool} {text : List Char}

theorem strip_cons_of_blank {c : Char} {text : List Char} (blank : isBlank c = true) :
    strip (c :: text) = strip text := by
  simp [strip, stripLeft, blank]

theorem strip_append_of_blank {c : Char} {text : List Char} (blank : isBlank c = true) :
    strip (text ++ [c]) = strip text := by
  unfold strip stripLeft stripRight dropEndWhile
  rw [List.dropWhile_append]
  cases left : text.dropWhile isBlank with
  | nil => simp [blank]
  | cons first rest => simp [blank]

/-- A text that neither begins nor ends with a blank stands as it is. -/
theorem strip_eq_self {text : List Char} (first : ∀ c ∈ text.head?, isBlank c = false)
    (last : ∀ c ∈ text.getLast?, isBlank c = false) : strip text = text := by
  have left : text.dropWhile isBlank = text := by
    cases text with
    | nil => rfl
    | cons c rest => simp [first c rfl]
  have right : text.reverse.dropWhile isBlank = text.reverse := by
    cases reversed : text.reverse with
    | nil => rfl
    | cons c rest =>
        have isLast : text.getLast? = some c := by
          rw [← List.head?_reverse, reversed, List.head?_cons]
        simp [last c isLast]
  rw [strip, stripLeft, stripRight, dropEndWhile, left, right, List.reverse_reverse]

theorem strip_eq_self_of_solid {text : List Char} (solid : ∀ c ∈ text, isBlank c = false) :
    strip text = text :=
  strip_eq_self (fun c head => solid c (List.mem_of_mem_head? head))
    fun c last => solid c (List.mem_of_mem_getLast? last)

theorem head?_dropWhile {α : Type} {test : α → Bool} {items : List α} {first : α}
    (head : first ∈ (items.dropWhile test).head?) : test first = false := by
  have fails := List.head?_dropWhile_not test items
  rw [Option.mem_def.mp head] at fails
  simpa using fails

/-- What passes a test at both ends of a list is taken off, up to an item on either side that fails it. -/
theorem exists_trimmed {α : Type} (test : α → Bool) (items : List α) :
    ∃ before core after, items = before ++ (core ++ after) ∧ (∀ item ∈ before, test item = true) ∧
      (∀ item ∈ after, test item = true) ∧ (∀ item ∈ core.head?, test item = false) ∧
      ∀ item ∈ core.getLast?, test item = false := by
  have cutRight : ((items.dropWhile test).reverse.dropWhile test).reverse
      ++ ((items.dropWhile test).reverse.takeWhile test).reverse = items.dropWhile test := by
    rw [← List.reverse_append, List.takeWhile_append_dropWhile, List.reverse_reverse]
  refine ⟨items.takeWhile test, ((items.dropWhile test).reverse.dropWhile test).reverse,
    ((items.dropWhile test).reverse.takeWhile test).reverse, ?_, fun _ => List.mem_takeWhile_imp,
    fun item member => List.mem_takeWhile_imp (List.mem_reverse.mp member), fun item head => ?_,
    fun item last => ?_⟩
  · rw [cutRight, List.takeWhile_append_dropWhile]
  · -- the kept items begin as the items without those before them do
    have starts : item ∈ (items.dropWhile test).head? := by
      rw [← cutRight, List.head?_append, Option.mem_def.mp head, Option.some_or]
      rfl
    exact head?_dropWhile starts
  · rw [List.getLast?_reverse] at last
    exact head?_dropWhile last

/-- Blanks behind a text are taken off. -/
theorem strip_append_of_blanks {after : List Char} (blank : ∀ c ∈ after, isBlank c = true) :
    strip (text ++ after) = strip text := by
  induction after using List.reverseRecOn with
  | nil => rw [List.append_nil]
  | append_singleton others last ih =>
      rw [← List.append_assoc, strip_append_of_blank (blank last (by simp))]
      exact ih fun c member => blank c (List.mem_append_left _ member)

/-- Blanks before and behind a text are taken off. -/
theorem strip_surrounded {before core after : List Char} (blankBefore : ∀ c ∈ before, isBlank c = true)
    (blankAfter : ∀ c ∈ after, isBlank c = true) : strip (before ++ (core ++ after)) = strip core := by
  induction before with
  | nil => exact strip_append_of_blanks blankAfter
  | cons c rest ih =>
      rw [List.cons_append, strip_cons_of_blank (blankBefore c List.mem_cons_self)]
      exact ih fun other member => blankBefore other (List.mem_cons_of_mem _ member)

/-- What is taken off a text are blanks before and after it, and it neither begins nor ends with one then. -/
theorem exists_strip (text : List Char) :
    ∃ before after, (∀ c ∈ before, isBlank c = true) ∧ (∀ c ∈ after, isBlank c = true) ∧
      text = before ++ (strip text ++ after) ∧ (∀ c ∈ (strip text).head?, isBlank c = false) ∧
      ∀ c ∈ (strip text).getLast?, isBlank c = false := by
  obtain ⟨before, core, after, parts, blankBefore, blankAfter, first, last⟩ :=
    exists_trimmed isBlank text
  have stripped : strip text = core := by
    rw [parts, strip_surrounded blankBefore blankAfter, strip_eq_self first last]
  rw [stripped]
  exact ⟨before, after, blankBefore, blankAfter, parts, first, last⟩

/-- A stripped text does not begin with a blank. -/
theorem head?_strip {c : Char} (head : c ∈ (strip text).head?) : isBlank c = false := by
  obtain ⟨_, _, -, -, -, first, -⟩ := exists_strip text
  exact first c head

/-- A stripped text does not end with a blank. -/
theorem getLast?_strip {c : Char} (last : c ∈ (strip text).getLast?) : isBlank c = false := by
  obtain ⟨_, _, -, -, -, -, ends⟩ := exists_strip text
  exact ends c last

theorem strip_strip (text : List Char) : strip (strip text) = strip text :=
  strip_eq_self (fun _ => head?_strip) fun _ => getLast?_strip

theorem length_strip_le (text : List Char) : (strip text).length ≤ text.length := by
  obtain ⟨before, after, -, -, whole, -⟩ := exists_strip text
  have lengths := congrArg List.length whole
  rw [List.length_append, List.length_append] at lengths
  omega

section Runs

variable {α : Type} {test : α → Bool} {run rest other others : List α}

/-- A run of items that pass a test ends where an item fails it. -/
theorem takeWhile_append_of_fails (passes : ∀ item ∈ run, test item = true)
    (fails : ∀ item ∈ rest.head?, test item = false) :
    (run ++ rest).takeWhile test = run ∧ (run ++ rest).dropWhile test = rest := by
  rw [List.takeWhile_append_of_pos passes, List.dropWhile_append_of_pos passes]
  cases rest with
  | nil => simp
  | cons first more => simp [fails first rfl]

/-- A list is cut in one way only into a run of items that pass a test and what begins with one that fails
it. -/
theorem eq_of_append_eq_append (passes : ∀ item ∈ run, test item = true)
    (fails : ∀ item ∈ rest.head?, test item = false) (passesOther : ∀ item ∈ other, test item = true)
    (failsOthers : ∀ item ∈ others.head?, test item = false) (same : run ++ rest = other ++ others) :
    run = other ∧ rest = others := by
  obtain ⟨taken, dropped⟩ := takeWhile_append_of_fails passes fails
  obtain ⟨takenOther, droppedOther⟩ := takeWhile_append_of_fails passesOther failsOthers
  rw [same] at taken dropped
  exact ⟨taken.symm.trans takenOther, dropped.symm.trans droppedOther⟩

end Runs

end Text

namespace Spelling

open Text

/-! ### Parentheses and blanks around a text -/

/-- Blanks and pairs of parentheses stand around a text. -/
inductive Wraps (core : List Char) : List Char → Prop where
  | bare : Wraps core core
  | parenthesised {inner : List Char} (wraps : Wraps core inner) : Wraps core ('(' :: (inner ++ [')']))
  | blankBefore {c : Char} {rest : List Char} (blank : isBlank c = true) (wraps : Wraps core rest) :
      Wraps core (c :: rest)
  | blankAfter {c : Char} {rest : List Char} (blank : isBlank c = true) (wraps : Wraps core rest) :
      Wraps core (rest ++ [c])

/-- Nothing can be taken off a text: it neither begins nor ends with a blank, and it does not both begin with
an opening parenthesis and end with a closing one. -/
structure Bare (text : List Char) : Prop where
  first : ∀ c ∈ text.head?, isBlank c = false
  last : ∀ c ∈ text.getLast?, isBlank c = false
  noPair : ∀ inner, text ≠ '(' :: (inner ++ [')'])

variable {core text : List Char}

theorem Wraps.characters (wraps : Wraps core text) :
    ∀ c ∈ text, c ∈ core ∨ c = '(' ∨ c = ')' ∨ isBlank c = true := by
  induction wraps with
  | bare => exact fun c member => Or.inl member
  | parenthesised _ ih =>
      intro c member
      rcases List.mem_cons.mp member with rfl | later
      · exact Or.inr (Or.inl rfl)
      · rcases List.mem_append.mp later with inner | last
        · exact ih c inner
        · exact Or.inr (Or.inr (Or.inl (List.mem_singleton.mp last)))
  | blankBefore blank _ ih =>
      intro c member
      rcases List.mem_cons.mp member with rfl | later
      · exact Or.inr (Or.inr (Or.inr blank))
      · exact ih c later
  | blankAfter blank _ ih =>
      intro c member
      rcases List.mem_append.mp member with before | last
      · exact ih c before
      · obtain rfl := List.mem_singleton.mp last
        exact Or.inr (Or.inr (Or.inr blank))

theorem Wraps.of_strip (wraps : Wraps core (strip text)) : Wraps core text := by
  obtain ⟨before, after, blankBefore, blankAfter, whole, -⟩ := exists_strip text
  have right : ∀ after : List Char,
      (∀ c ∈ after, isBlank c = true) → Wraps core (strip text ++ after) := by
    intro after blank
    induction after using List.reverseRecOn with
    | nil => rwa [List.append_nil]
    | append_singleton others last ih =>
        rw [← List.append_assoc]
        exact .blankAfter (blank last (by simp)) (ih fun c member => blank c (List.mem_append_left _ member))
  rw [whole]
  clear whole
  induction before with
  | nil => exact right after blankAfter
  | cons c rest ih =>
      exact .blankBefore (blankBefore c List.mem_cons_self)
        (ih fun other member => blankBefore other (List.mem_cons_of_mem _ member))

/-! ### What taking them off leaves -/

theorem unwrapOnce?_eq_some_iff {inner : List Char} :
    unwrapOnce? text = some inner ↔
      ∃ middle, text = '(' :: (middle ++ [')']) ∧ inner = strip middle := by
  constructor
  · intro unwraps
    unfold unwrapOnce? at unwraps
    split at unwraps
    · next rest =>
        split at unwraps
        · next closes =>
            obtain ⟨middle, rfl⟩ := List.getLast?_eq_some_iff.mp (beq_iff_eq.mp closes)
            rw [List.dropLast_concat] at unwraps
            exact ⟨middle, rfl, (Option.some.inj unwraps).symm⟩
        · cases unwraps
    · cases unwraps
  · rintro ⟨middle, rfl, rfl⟩
    simp [unwrapOnce?]

theorem Bare.unwrapTimes_eq (bare : Bare text) (steps : Nat) : unwrapTimes steps text = text := by
  cases steps with
  | zero => rfl
  | succ steps =>
      have none : unwrapOnce? text = none := by
        rw [← Option.not_isSome_iff_eq_none, Option.isSome_iff_exists]
        rintro ⟨inner, unwraps⟩
        obtain ⟨middle, pair, -⟩ := unwrapOnce?_eq_some_iff.mp unwraps
        exact bare.noPair middle pair
      rw [unwrapTimes, none]

/-- Enough steps take off all that stands around a bare text. -/
theorem Wraps.unwrapTimes_eq (wraps : Wraps core text) (bare : Bare core) {steps : Nat}
    (enough : (strip text).length ≤ steps) : unwrapTimes steps (strip text) = core := by
  induction wraps generalizing steps with
  | bare => rw [strip_eq_self bare.first bare.last, bare.unwrapTimes_eq]
  | @parenthesised inner _ ih =>
      have stands : strip ('(' :: (inner ++ [')'])) = '(' :: (inner ++ [')']) := by
        apply strip_eq_self
        · rintro c ⟨⟩
          decide
        · intro c last
          rw [← List.cons_append, List.getLast?_append] at last
          cases last
          decide
      rw [stands] at enough ⊢
      cases steps with
      | zero => cases enough
      | succ steps =>
          rw [unwrapTimes, unwrapOnce?_eq_some_iff.mpr ⟨inner, rfl, rfl⟩]
          apply ih
          have shorter := length_strip_le inner
          simp at enough
          omega
  | blankBefore blank _ ih =>
      rw [strip_cons_of_blank blank] at enough ⊢
      exact ih enough
  | blankAfter blank _ ih =>
      rw [strip_append_of_blank blank] at enough ⊢
      exact ih enough

theorem Wraps.unwrapped_eq (wraps : Wraps core text) (bare : Bare core) : unwrapped (strip text) = core :=
  wraps.unwrapTimes_eq bare (Nat.le_refl _)

theorem wraps_unwrapTimes (steps : Nat) (text : List Char) : Wraps (unwrapTimes steps text) text := by
  induction steps generalizing text with
  | zero => exact .bare
  | succ steps ih =>
      rw [unwrapTimes]
      cases unwraps : unwrapOnce? text with
      | none => exact .bare
      | some inner =>
          obtain ⟨middle, rfl, rfl⟩ := unwrapOnce?_eq_some_iff.mp unwraps
          exact .parenthesised (ih (strip middle)).of_strip

/-- What is left of a text is what blanks and parentheses stand around. -/
theorem wraps_unwrapped (text : List Char) : Wraps (unwrapped (strip text)) text :=
  (wraps_unwrapTimes _ (strip text)).of_strip

theorem bare_unwrapTimes {steps : Nat} (enough : text.length ≤ steps) (stripped : strip text = text) :
    Bare (unwrapTimes steps text) := by
  have bare {text : List Char} (stripped : strip text = text) (noPair : unwrapOnce? text = none) :
      Bare text := by
    rw [← stripped]
    refine ⟨fun _ => head?_strip, fun _ => getLast?_strip, fun inner pair => ?_⟩
    rw [stripped] at pair
    rw [unwrapOnce?_eq_some_iff.mpr ⟨inner, pair, rfl⟩] at noPair
    cases noPair
  induction steps generalizing text with
  | zero =>
      obtain rfl := List.eq_nil_of_length_eq_zero (Nat.le_zero.mp enough)
      exact bare stripped rfl
  | succ steps ih =>
      rw [unwrapTimes]
      cases unwraps : unwrapOnce? text with
      | none => exact bare stripped unwraps
      | some inner =>
          obtain ⟨middle, rfl, rfl⟩ := unwrapOnce?_eq_some_iff.mp unwraps
          refine ih ?_ (strip_strip middle)
          have shorter := length_strip_le middle
          simp at enough
          omega

/-- Nothing more can be taken off what is left of a text. -/
theorem bare_unwrapped (text : List Char) : Bare (unwrapped (strip text)) :=
  bare_unwrapTimes (Nat.le_refl _) (strip_strip text)

/-! ### Texts that begin alike -/

/-- What stands before a wrapped text opens, what stands behind it closes, and as much is closed as is
opened. -/
theorem Wraps.exists_around (wraps : Wraps core text) :
    ∃ front back, text = front ++ (core ++ back) ∧ (∀ c ∈ front, (c == '(' || isBlank c) = true) ∧
      (∀ c ∈ back, (c == ')' || isBlank c) = true) ∧ front.count '(' = back.count ')' := by
  induction wraps with
  | bare => exact ⟨[], [], by simp, by simp, by simp, rfl⟩
  | parenthesised _ ih =>
      obtain ⟨front, back, rfl, opens, closes, even⟩ := ih
      refine ⟨'(' :: front, back ++ [')'], by simp, ?_, ?_, by simp [even]⟩
      · intro c member
        rcases List.mem_cons.mp member with rfl | later
        · rfl
        · exact opens c later
      · intro c member
        rcases List.mem_append.mp member with inner | last
        · exact closes c inner
        · obtain rfl := List.mem_singleton.mp last
          rfl
  | @blankBefore c rest blank _ ih =>
      obtain ⟨front, back, rfl, opens, closes, even⟩ := ih
      have noParenthesis : c ≠ '(' := by
        rintro rfl
        exact absurd blank (by decide)
      refine ⟨c :: front, back, rfl, ?_, closes, by rw [List.count_cons_of_ne noParenthesis, even]⟩
      intro other member
      rcases List.mem_cons.mp member with rfl | later
      · rw [blank, Bool.or_true]
      · exact opens other later
  | @blankAfter c rest blank _ ih =>
      obtain ⟨front, back, rfl, opens, closes, even⟩ := ih
      have noParenthesis : c ≠ ')' := by
        rintro rfl
        exact absurd blank (by decide)
      refine ⟨front, back ++ [c], by simp, opens, ?_, by simp [even, noParenthesis]⟩
      intro other member
      rcases List.mem_append.mp member with inner | last
      · exact closes other inner
      · obtain rfl := List.mem_singleton.mp last
        rw [blank, Bool.or_true]

/-- A text in which neither blanks nor parentheses occur. -/
def Unbroken (text : List Char) : Prop := ∀ c ∈ text, isBlank c = false ∧ c ≠ '(' ∧ c ≠ ')'

theorem Unbroken.bare (unbroken : Unbroken text) : Bare text where
  first c head := (unbroken c (List.mem_of_mem_head? head)).1
  last c last := (unbroken c (List.mem_of_mem_getLast? last)).1
  noPair inner pair := (unbroken '(' (by rw [pair]; exact List.mem_cons_self)).2.1 rfl

/-- If blanks and parentheses stand around an unbroken text, and around another one once the text goes on
behind a blank, then it goes on with blanks only. -/
theorem Wraps.blank_of_append {other more : List Char} {gap : Char} (wraps : Wraps core text)
    (wrapsOther : Wraps other (text ++ gap :: more)) (isGap : isBlank gap = true) (nonempty : core ≠ [])
    (unbroken : Unbroken core) (otherNonempty : other ≠ []) (otherUnbroken : Unbroken other) :
    ∀ c ∈ more, isBlank c = true := by
  obtain ⟨front, back, rfl, opens, closes, even⟩ := wraps.exists_around
  obtain ⟨front', back', whole, opens', closes', even'⟩ := wrapsOther.exists_around
  have stopsOpening {core rest : List Char} (nonempty : core ≠ []) (unbroken : Unbroken core) :
      ∀ c ∈ (core ++ rest).head?, (c == '(' || isBlank c) = false := by
    obtain ⟨first, others, rfl⟩ := List.exists_cons_of_ne_nil nonempty
    rintro c ⟨⟩
    obtain ⟨solid, noOpening, -⟩ := unbroken first List.mem_cons_self
    simpa [solid] using noOpening
  have passes {core : List Char} (unbroken : Unbroken core) :
      ∀ c ∈ core, (!(c == ')' || isBlank c)) = true := by
    intro c member
    obtain ⟨solid, -, noClosing⟩ := unbroken c member
    simpa [solid] using noClosing
  have stopsClosing {back rest : List Char} (closes : ∀ c ∈ back, (c == ')' || isBlank c) = true)
      (closesRest : ∀ c ∈ rest.head?, (c == ')' || isBlank c) = true) :
      ∀ c ∈ (back ++ rest).head?, (!(c == ')' || isBlank c)) = false := by
    intro c head
    cases back with
    | nil => simp [closesRest c head]
    | cons first others =>
        cases head
        simp [closes c List.mem_cons_self]
  -- The same opens in front of both, so the same must be closed behind both.
  have whole' : front ++ (core ++ (back ++ gap :: more)) = front' ++ (other ++ back') := by
    simpa using whole
  obtain ⟨rfl, afterFront⟩ := eq_of_append_eq_append opens (stopsOpening nonempty unbroken) opens'
    (stopsOpening otherNonempty otherUnbroken) whole'
  have gapCloses : ∀ c ∈ (gap :: more).head?, (c == ')' || isBlank c) = true := by
    rintro c ⟨⟩
    rw [isGap, Bool.or_true]
  have backCloses : ∀ c ∈ back'.head?, (!(c == ')' || isBlank c)) = false := by
    rw [← List.append_nil back']
    exact stopsClosing closes' (by simp)
  obtain ⟨rfl, rfl⟩ := eq_of_append_eq_append (passes unbroken) (stopsClosing closes gapCloses)
    (passes otherUnbroken) backCloses afterFront
  have noneClosed : (gap :: more).count ')' = 0 := by
    rw [List.count_append, ← even, even] at even'
    omega
  intro c member
  have behind := closes' c (List.mem_append_right _ (List.mem_cons_of_mem _ member))
  rcases Bool.or_eq_true_iff.mp behind with closing | blank
  · obtain rfl : c = ')' := by simpa using closing
    exact absurd (List.mem_cons_of_mem gap member) (List.count_eq_zero.mp noneClosed)
  · exact blank

end Spelling
end HeaderBindings
