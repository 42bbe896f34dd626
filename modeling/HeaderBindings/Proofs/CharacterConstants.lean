/-
Module: HeaderBindings.Proofs.CharacterConstants
Purpose: Character constants of C with their values, and which of them the reader of literals reads with
  the value that C gives them: all but the universal character names.
Main exports: Spelling.SpellsCode, Spelling.UniversalName, Spelling.CharacterConstant,
  Spelling.integerValue_of_body, Spelling.integerValue_of_code
-/
import HeaderBindings.Proofs.IntegerLiterals

namespace HeaderBindings.Spelling

open Text Number

/-! ### Character constants of C -/

/-- The letters of the escapes that stand for one character each, with its code. -/
def escapeCodes : List (Char × Nat) :=
  [('n', 10), ('t', 9), ('r', 13), ('a', 7), ('b', 8), ('f', 12), ('v', 11), ('\\', 92), ('\'', 39),
   ('"', 34), ('?', 63)]

/-- What spells one character in a character constant, and its code: the character itself, an escape of one
letter, or an escape with digits. -/
inductive SpellsCode : List Char → Nat → Prop where
  | itself {c : Char} (noQuote : c ≠ '\'') (noBackslash : c ≠ '\\') (noBreak : c ≠ '\n') :
      SpellsCode [c] c.toNat
  | named {letter : Char} {code : Nat} (known : (letter, code) ∈ escapeCodes) :
      SpellsCode ['\\', letter] code
  | octal {digits : List Char} (nonempty : digits ≠ []) (short : digits.length ≤ 3)
      (inBase : ∀ c ∈ digits, c ∈ LiteralBase.octal.digits) :
      SpellsCode ('\\' :: digits) (ofDigits 8 (digits.map LiteralBase.octal.digitValue))
  | hexadecimal {digits : List Char} (nonempty : digits ≠ [])
      (inBase : ∀ c ∈ digits, c ∈ (LiteralBase.hexadecimal false).digits) :
      SpellsCode ('\\' :: 'x' :: digits)
        (ofDigits 16 (digits.map (LiteralBase.hexadecimal false).digitValue))

/-- A universal character name and the code that it gives: four or eight hexadecimal digits after a letter
that tells how many. -/
inductive UniversalName : List Char → Nat → Prop where
  | named {letter : Char} {digits : List Char} (sized : (letter, digits.length) ∈ [('u', 4), ('U', 8)])
      (inBase : ∀ c ∈ digits, c ∈ (LiteralBase.hexadecimal false).digits) :
      UniversalName ('\\' :: letter :: digits)
        (ofDigits 16 (digits.map (LiteralBase.hexadecimal false).digitValue))

/-- The letters that may stand before a character constant, each with the bound below which the value of the
constant is the code of its character wherever the constant is compiled. -/
def constantLeads : List (List Char × Nat) :=
  [([], 128), (['L'], 65536), (['u'], 65536), (['U'], 4294967296)]

/-- A character constant of C, and the value that C gives it. -/
inductive CharacterConstant : String → Nat → Prop where
  | spelled {lead body : List Char} {bound code : Nat} (isLead : (lead, bound) ∈ constantLeads)
      (small : code < bound) (spells : SpellsCode body code ∨ UniversalName body code) :
      CharacterConstant (String.ofList (lead ++ '\'' :: (body ++ ['\'']))) code

/-! ### What is read -/

theorem quotedBody?_escape {c : Char} {rest : List Char} (noBreak : c ≠ '\n') (noQuote : '\'' ∉ rest) :
    quotedBody? ('\\' :: c :: rest ++ ['\'']) = some ('\\' :: c :: rest) := by
  have last : (rest ++ ['\'']).getLast? = some '\'' := by simp
  have inner : rest.all (· != '\'') = true := by
    rw [List.all_eq_true]
    intro other member
    have different : other ≠ '\'' := by
      rintro rfl
      exact noQuote member
    simpa using different
  simp [quotedBody?, noBreak, inner]

theorem SpellsCode.quotedBody?_eq {body : List Char} {code : Nat} (spells : SpellsCode body code) :
    quotedBody? (body ++ ['\'']) = some body := by
  cases spells with
  | itself noQuote noBackslash noBreak => simp [quotedBody?, noQuote, noBackslash]
  | @named letter code known =>
      have noBreak : ∀ escape ∈ escapeCodes, escape.1 ≠ '\n' := by decide
      exact quotedBody?_escape (noBreak _ known) List.not_mem_nil
  | @octal digits nonempty short inBase =>
      have plain : ∀ c ∈ LiteralBase.octal.digits, c ≠ '\n' ∧ c ≠ '\'' := by decide
      cases digits with
      | nil => exact absurd rfl nonempty
      | cons first rest =>
          refine quotedBody?_escape (plain first (inBase first List.mem_cons_self)).1 fun member => ?_
          exact (plain _ (inBase _ (List.mem_cons_of_mem _ member))).2 rfl
  | hexadecimal nonempty inBase =>
      have plain : '\'' ∉ (LiteralBase.hexadecimal false).digits := by decide
      exact quotedBody?_escape (by decide) fun member => plain (inBase _ member)

theorem UniversalName.quotedBody?_eq {body : List Char} {code : Nat} (named : UniversalName body code) :
    quotedBody? (body ++ ['\'']) = some body := by
  cases named with
  | @named letter digits sized inBase =>
      have plain : '\'' ∉ (LiteralBase.hexadecimal false).digits := by decide
      have noBreak : ∀ name ∈ [('u', 4), ('U', 8)], name.1 ≠ '\n' := by decide
      exact quotedBody?_escape (noBreak _ sized) fun member => plain (inBase _ member)

/-- The body of a constant is found behind its letter. -/
theorem charBody?_eq {lead body : List Char} {bound : Nat} (isLead : (lead, bound) ∈ constantLeads)
    (quoted : quotedBody? (body ++ ['\'']) = some body) :
    charBody? (strip (lead ++ '\'' :: (body ++ ['\'']))) = some body := by
  have leads : lead ∈ [[], ['L'], ['u'], ['U']] := List.mem_map_of_mem (f := Prod.fst) isLead
  have stands : strip (lead ++ '\'' :: (body ++ ['\''])) = lead ++ '\'' :: (body ++ ['\'']) := by
    have solid : ∀ lead ∈ [[], ['L'], ['u'], ['U']], ∀ c ∈ lead, isBlank c = false := by decide
    apply strip_eq_self
    · intro c head
      rcases lead with _ | ⟨letter, others⟩
      · cases head
        decide
      · cases head
        exact solid _ leads _ List.mem_cons_self
    · intro c last
      have ends : lead ++ '\'' :: (body ++ ['\'']) = (lead ++ '\'' :: body) ++ ['\''] := by simp
      rw [ends, List.getLast?_append] at last
      cases last
      decide
  rw [stands]
  simp only [List.mem_cons, List.not_mem_nil, or_false] at leads
  rcases leads with rfl | rfl | rfl | rfl
  · exact quoted
  all_goals
    simp [charBody?, quoted]

/-- Digits that are read in a base of their own have the value that they spell. -/
theorem escapeNumber_digits (base : LiteralBase) (named : base ≠ .decimal) {digits : List Char}
    (nonempty : digits ≠ []) (inBase : ∀ c ∈ digits, c ∈ base.digits) :
    escapeNumber base.radix digits
      = .ok ((ofDigits base.radix (digits.map base.digitValue) : Nat) : Int) := by
  have settled : resolveBase base.radix digits = (base.radix, false) := by
    have positive : base.radix ≠ 0 := by
      rcases base with _ | _ | _ | _ <;> exact Nat.succ_ne_zero _
    unfold resolveBase
    split <;> simp [positive]
  have off : afterBaseLetters base.radix digits = digits := by
    have noLetter : ∀ c ∈ base.digits, baseOfLetter? c ≠ some base.radix := by
      rcases base with _ | _ | (_ | _) | (_ | _) <;> decide
    unfold afterBaseLetters
    split
    · next letter rest =>
        have other := noLetter letter (inBase _ (List.mem_cons_of_mem _ List.mem_cons_self))
        rw [if_neg (by simpa using other)]
    · rfl
  have letters : ∀ c ∈ digits, c ∈ IntegerLiteral.bodyLetters := by
    have contained : ∀ c ∈ base.digits, c ∈ IntegerLiteral.bodyLetters := by
      rcases base with _ | _ | (_ | _) | (_ | _) <;> decide
    exact fun c member => contained c (inBase c member)
  have signed : readInteger base.radix (LiteralSign.absent.text ++ digits)
      = (readMagnitude base.radix digits).map LiteralSign.absent.apply := readInteger_signed letters
  rw [LiteralSign.text, List.nil_append] at signed
  rw [escapeNumber, signed, readMagnitude_eq settled off nonempty inBase (by simp) (absurd · named)]
  rfl

/-- The code of a character is read from what spells it. -/
theorem SpellsCode.charValue_eq {body : List Char} {code : Nat} (spells : SpellsCode body code) :
    charValue body = .ok (code : Int) := by
  cases spells with
  | itself noQuote noBackslash noBreak =>
      unfold charValue
      split
      · next starts => exact absurd (List.cons.inj starts).1 noBackslash
      · next starts => rw [(List.cons.inj starts).1]
      · next ends => cases ends
  | @named letter code known =>
      have codes : ∀ escape ∈ escapeCodes, ¬ (escape.1 = 'x' ∨ escape.1 = 'X') ∧
          showsDigit escape.1 = false ∧ (simpleEscape escape.1).toNat = escape.2 := by decide
      obtain ⟨notX, noDigit, code⟩ := codes _ known
      simp [charValue, escapeValue, notX, noDigit, code]
  | @octal digits nonempty short inBase =>
      have shown : ∀ c ∈ LiteralBase.octal.digits,
          showsDigit c = true ∧ ¬ (c = 'x' ∨ c = 'X') := by decide
      cases digits with
      | nil => exact absurd rfl nonempty
      | cons first rest =>
          have all : (first :: rest).all showsDigit = true :=
            List.all_eq_true.mpr fun c member => (shown c (inBase c member)).1
          have notX := (shown first (inBase first List.mem_cons_self)).2
          rw [charValue, escapeValue]
          simp only [beq_iff_eq, Bool.or_eq_true, notX, if_false, all, if_true]
          exact escapeNumber_digits .octal (by decide) nonempty inBase
  | @hexadecimal digits nonempty inBase =>
      exact escapeNumber_digits (.hexadecimal false) (by decide) nonempty inBase

/-- Of a universal character name, only the letter is read. -/
theorem UniversalName.charValue_eq {letter : Char} {digits : List Char} {code : Nat}
    (named : UniversalName ('\\' :: letter :: digits) code) :
    charValue ('\\' :: letter :: digits) = .ok (letter.toNat : Int) := by
  cases named with
  | named sized inBase =>
      have letters : ∀ name ∈ [('u', 4), ('U', 8)],
          ¬ (name.1 = 'x' ∨ name.1 = 'X') ∧ showsDigit name.1 = false ∧ 0 < name.2 := by decide
      obtain ⟨notX, noDigit, some⟩ := letters _ sized
      have nonempty : digits ≠ [] := List.ne_nil_of_length_pos some
      simp [charValue, escapeValue, notX, noDigit, nonempty]

/-- A constant has the value of its body. -/
theorem integerValue_of_body {lead body : List Char} {bound : Nat} {value : Int}
    (isLead : (lead, bound) ∈ constantLeads) (quoted : quotedBody? (body ++ ['\'']) = some body)
    (valued : charValue body = .ok value) :
    integerValue (String.ofList (lead ++ '\'' :: (body ++ ['\'']))) = .ok (some value) := by
  rw [integerValue, String.toList_ofList, charBody?_eq isLead quoted]
  simp [valued, Except.map]

/-- A constant with a character that is no universal character name is read with the code of the
character. -/
theorem integerValue_of_code {lead body : List Char} {bound code : Nat}
    (isLead : (lead, bound) ∈ constantLeads) (spells : SpellsCode body code) :
    integerValue (String.ofList (lead ++ '\'' :: (body ++ ['\'']))) = .ok (some (code : Int)) :=
  integerValue_of_body isLead spells.quotedBody?_eq spells.charValue_eq

/-- What spells a code is no universal character name. -/
theorem SpellsCode.not_universalName {body : List Char} {code other : Nat} (spells : SpellsCode body code) :
    ¬ UniversalName body other := by
  rintro ⟨sized, inBase⟩
  have letters : ∀ name ∈ [('u', 4), ('U', 8)],
      name.1 ≠ 'x' ∧ name.1 ∉ LiteralBase.octal.digits ∧
      name.1 ∉ escapeCodes.map Prod.fst := by decide
  obtain ⟨notX, notOctal, notEscape⟩ := letters _ sized
  cases spells with
  | named known => exact notEscape (List.mem_map.mpr ⟨_, known, rfl⟩)
  | octal _ _ inOctal => exact notOctal (inOctal _ List.mem_cons_self)
  | hexadecimal => exact notX rfl

/-- A constant with a character that is no universal character name has no other value in C than the one
that is read. -/
theorem CharacterConstant.code_eq {lead body : List Char} {bound code other : Nat}
    (isLead : (lead, bound) ∈ constantLeads) (spells : SpellsCode body code)
    (constant : CharacterConstant (String.ofList (lead ++ '\'' :: (body ++ ['\'']))) other) :
    other = code := by
  have found := charBody?_eq isLead spells.quotedBody?_eq
  generalize whole : String.ofList (lead ++ '\'' :: (body ++ ['\''])) = text at constant
  cases constant with
  | @spelled lead' body' bound' _ isLead' small spelled =>
      have sameText : lead ++ '\'' :: (body ++ ['\'']) = lead' ++ '\'' :: (body' ++ ['\'']) := by
        simpa using congrArg String.toList whole
      rw [sameText] at found
      rcases spelled with spells' | universal
      · obtain rfl : body' = body :=
          Option.some.inj ((charBody?_eq isLead' spells'.quotedBody?_eq).symm.trans found)
        have values := spells'.charValue_eq.symm.trans spells.charValue_eq
        exact Int.ofNat_inj.mp (Except.ok.inj values)
      · obtain rfl : body' = body :=
          Option.some.inj ((charBody?_eq isLead' universal.quotedBody?_eq).symm.trans found)
        exact absurd universal spells.not_universalName

end HeaderBindings.Spelling
