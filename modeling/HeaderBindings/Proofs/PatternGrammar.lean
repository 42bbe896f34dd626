/-
Module: HeaderBindings.Proofs.PatternGrammar
Purpose: The grammar of the pattern language, and that the reader accepts exactly the texts that it
  derives patterns from.
Main exports: Pattern.Tokenized, Pattern.SpellsHead, Pattern.Derives, Pattern.Fragments.Read,
  Pattern.Spells, Pattern.Spells.exactly_read
-/
import HeaderBindings.Proofs.Compilation
import HeaderBindings.Proofs.FaultySteps

namespace HeaderBindings

open Text

/-- Cutting a text at a mark is Mathlib's way to split a list. -/
theorem Text.splitAtMark_eq_splitOn (mark : Char) (text : List Char) :
    splitAtMark mark text = text.splitOn mark := by
  induction text with
  | nil => rfl
  | cons c rest ih =>
      rw [splitAtMark, List.splitOn, List.splitOnP_cons_eq_if_modifyHead, ih, List.splitOn]
      split
      · rfl
      · cases isSplit : rest.splitOnP (· == mark) with
        | nil => exact absurd isSplit (List.splitOnP_ne_nil _ _)
        | cons part parts => rfl

/-- A text that joins parts by a mark that none of them has is cut into these parts. -/
theorem Text.splitAtMark_intercalate {mark : Char} {parts : List String} (some_ : parts ≠ [])
    (unmarked : ∀ part ∈ parts, mark ∉ part.toList) :
    splitAtMark mark (List.intercalate [mark] (parts.map String.toList)) = parts.map String.toList := by
  rw [splitAtMark_eq_splitOn]
  exact List.splitOn_intercalate mark (by simpa using unmarked) (by simpa using some_)

/-- What joined texts consist of: the separator, and the texts. -/
theorem Text.forall_mem_intercalate {holds : Char → Prop} {separator : List Char}
    {parts : List (List Char)} (inSeparator : ∀ c ∈ separator, holds c)
    (inParts : ∀ part ∈ parts, ∀ c ∈ part, holds c) :
    ∀ c ∈ separator.intercalate parts, holds c := by
  induction parts with
  | nil => simp [List.intercalate]
  | cons first rest ih =>
      obtain ⟨inFirst, inRest⟩ := List.forall_mem_cons.mp inParts
      cases rest with
      | nil => rwa [List.intercalate_singleton]
      | cons second others =>
          rw [List.intercalate_cons_cons]
          exact List.forall_mem_append.mpr
            ⟨List.forall_mem_append.mpr ⟨inFirst, inSeparator⟩, ih inRest⟩

theorem Head.toList_text (head : Head) : head.text.toList = (if head.recursive then ['^'] else [])
    ++ List.intercalate ['|'] (head.kinds.map String.toList) ++ head.quantifier.mark := by
  unfold Head.text Head.name
  cases head.recursive <;> simp [String.toList_intercalate]

namespace Pattern

/-! ### Tokens -/

/-- A character that a word may have: no parenthesis and no blank. -/
def InWord (c : Char) : Prop := c ≠ '(' ∧ c ≠ ')' ∧ isBlank c = false

instance (c : Char) : Decidable (InWord c) := inferInstanceAs (Decidable (_ ∧ _ ∧ _))

/-- A text consists of tokens: blanks are passed over, a parenthesis stands for itself, and a word goes on
as far as it can. -/
inductive Tokenized : List Char → List Token → Prop where
  | nothing : Tokenized [] []
  | blank {c : Char} {rest : List Char} {given : List Token} (blank : isBlank c = true)
      (later : Tokenized rest given) : Tokenized (c :: rest) given
  | opening {rest : List Char} {given : List Token} (later : Tokenized rest given) :
      Tokenized ('(' :: rest) (.opening :: given)
  | closing {rest : List Char} {given : List Token} (later : Tokenized rest given) :
      Tokenized (')' :: rest) (.closing :: given)
  | word {word rest : List Char} {given : List Token} (nonempty : word ≠ [])
      (letters : ∀ c ∈ word, InWord c) (ends : ∀ c ∈ rest.head?, ¬ InWord c)
      (later : Tokenized rest given) : Tokenized (word ++ rest) (.word word :: given)

theorem tokensFrom_cons_of_inWord {c : Char} (letter : InWord c) (current rest : List Char) :
    tokensFrom current (c :: rest) = tokensFrom (c :: current) rest := by
  obtain ⟨notOpening, notClosing, notBlank⟩ := letter
  simp [tokensFrom, notOpening, notClosing, notBlank]

theorem tokensFrom_append {word : List Char} (letters : ∀ c ∈ word, InWord c)
    (current rest : List Char) :
    tokensFrom current (word ++ rest) = tokensFrom (word.reverse ++ current) rest := by
  induction word generalizing current with
  | nil => rfl
  | cons c word ih =>
      rw [List.forall_mem_cons] at letters
      rw [List.cons_append, tokensFrom_cons_of_inWord letters.1, ih letters.2]
      simp

/-- Where no letter follows, the current word ends. -/
theorem tokensFrom_of_end {rest : List Char} (ends : ∀ c ∈ rest.head?, ¬ InWord c)
    (current : List Char) : tokensFrom current rest = wordToken current ++ tokens rest := by
  unfold tokens
  cases rest with
  | nil => simp [tokensFrom, wordToken]
  | cons c rest =>
      have noLetter : ¬ InWord c := ends c rfl
      unfold tokensFrom
      split
      · simp [wordToken]
      · split
        · simp [wordToken]
        · split
          · simp [wordToken]
          · simp_all [InWord]

theorem tokensFrom_append_of_end {front rest : List Char} (ends : ∀ c ∈ rest.head?, ¬ InWord c)
    (current : List Char) :
    tokensFrom current (front ++ rest) = tokensFrom current front ++ tokens rest := by
  induction front generalizing current with
  | nil => exact tokensFrom_of_end ends current
  | cons c front ih =>
      rw [List.cons_append, tokensFrom, tokensFrom]
      split
      · rw [ih, List.append_assoc, List.cons_append]
      · split
        · rw [ih, List.append_assoc, List.cons_append]
        · split
          · rw [ih, List.append_assoc]
          · exact ih (c :: current)

/-- Where no letter follows, what comes before has tokens of its own. -/
theorem tokens_append {front rest : List Char} (ends : ∀ c ∈ rest.head?, ¬ InWord c) :
    tokens (front ++ rest) = tokens front ++ tokens rest :=
  tokensFrom_append_of_end ends []

theorem tokens_of_letters {word : List Char} (nonempty : word ≠ []) (letters : ∀ c ∈ word, InWord c) :
    tokens word = [.word word] := by
  have whole := tokensFrom_append letters [] []
  rw [List.append_nil, List.append_nil] at whole
  rw [tokens, whole]
  simp [tokensFrom, wordToken, nonempty]

theorem tokens_word_append {word rest : List Char} (nonempty : word ≠ [])
    (letters : ∀ c ∈ word, InWord c) (ends : ∀ c ∈ rest.head?, ¬ InWord c) :
    tokens (word ++ rest) = .word word :: tokens rest := by
  rw [tokens_append ends, tokens_of_letters nonempty letters, List.singleton_append]

@[simp] theorem tokens_opening (rest : List Char) : tokens ('(' :: rest) = .opening :: tokens rest := rfl

@[simp] theorem tokens_closing (rest : List Char) : tokens (')' :: rest) = .closing :: tokens rest := rfl

theorem tokens_blank {c : Char} (blank : isBlank c = true) (rest : List Char) :
    tokens (c :: rest) = tokens rest := by
  have noLetter : ∀ d ∈ (c :: rest).head?, ¬ InWord d := by
    rintro _ ⟨⟩ ⟨_, _, notBlank⟩
    rw [blank] at notBlank
    cases notBlank
  have notOpening : c ≠ '(' := by
    rintro rfl
    exact absurd blank (by decide)
  have notClosing : c ≠ ')' := by
    rintro rfl
    exact absurd blank (by decide)
  simp [tokens, tokensFrom, notOpening, notClosing, blank, wordToken]

/-- The letters of a word in front of what is no letter are a token of their own. -/
theorem Tokenized.wordToken_append {current rest : List Char} {given : List Token}
    (letters : ∀ c ∈ current, InWord c) (ends : ∀ c ∈ rest.head?, ¬ InWord c)
    (later : Tokenized rest given) :
    Tokenized (current.reverse ++ rest) (wordToken current ++ given) := by
  unfold wordToken
  split
  · rename_i empty
    rw [List.isEmpty_iff.mp empty]
    exact later
  · rename_i nonempty
    refine .word ?_ ?_ ends later
    · simpa using nonempty
    · simpa using letters

theorem tokenized_tokensFrom (current : List Char) {text : List Char}
    (letters : ∀ c ∈ current, InWord c) :
    Tokenized (current.reverse ++ text) (tokensFrom current text) := by
  induction text generalizing current with
  | nil =>
      have ended := Tokenized.nothing.wordToken_append letters (by simp)
      rwa [List.append_nil (wordToken current)] at ended
  | cons c rest ih =>
      have later : Tokenized rest (tokens rest) := ih [] (by simp)
      by_cases letter : InWord c
      · rw [tokensFrom_cons_of_inWord letter]
        have longer : ∀ d ∈ c :: current, InWord d := List.forall_mem_cons.mpr ⟨letter, letters⟩
        simpa using ih (c :: current) longer
      · have ends : ∀ d ∈ (c :: rest).head?, ¬ InWord d := by
          rintro _ ⟨⟩
          exact letter
        rw [tokensFrom_of_end ends]
        refine Tokenized.wordToken_append letters ends ?_
        by_cases isOpening : c = '('
        · subst isOpening
          exact .opening later
        · by_cases isClosing : c = ')'
          · subst isClosing
            exact .closing later
          · have isBlank : isBlank c = true := by
              simpa [InWord, isOpening, isClosing] using letter
            rw [tokens_blank isBlank]
            exact .blank isBlank later

/-- A text consists of its tokens and of no others. -/
theorem tokenized_iff {text : List Char} {given : List Token} :
    Tokenized text given ↔ given = tokens text := by
  constructor
  · intro tokenized
    induction tokenized with
    | nothing => rfl
    | blank isBlank _ ih => rw [ih, tokens_blank isBlank]
    | opening _ ih => rw [ih, tokens_opening]
    | closing _ ih => rw [ih, tokens_closing]
    | word nonempty letters ends _ ih => rw [ih, tokens_word_append nonempty letters ends]
  · rintro rfl
    exact tokenized_tokensFrom [] (by simp)

/-! ### Heads -/

/-- A word spells a head: a caret if the head is recursive, its kinds, which are identifiers, with bars
between them, and the mark of its quantifier. -/
structure SpellsHead (word : List Char) (head : Head) : Prop where
  identifiers : ∀ kind ∈ head.kinds, isIdentifier kind.toList = true
  spelled : word = (if head.recursive then ['^'] else [])
    ++ List.intercalate ['|'] (head.kinds.map String.toList) ++ head.quantifier.mark

theorem isNameChar_of_isIdentifierStart {c : Char} (starts : isIdentifierStart c = true) :
    isNameChar c = true := by
  rcases Bool.or_eq_true_iff.mp starts with letter | underscore
  · simp [isNameChar, Char.isAlphanum, letter]
  · simp [isNameChar, underscore]

/-- The characters of an identifier are none that mean something else in a head. -/
theorem isNameChar_of_mem_identifier {name : List Char} (identifier : isIdentifier name = true)
    {c : Char} (member : c ∈ name) : isNameChar c = true := by
  cases name with
  | nil => cases identifier
  | cons first rest =>
      obtain ⟨starts, continues⟩ := Bool.and_eq_true_iff.mp identifier
      rcases List.mem_cons.mp member with rfl | later
      · exact isNameChar_of_isIdentifierStart starts
      · exact List.all_eq_true.mp continues c later

theorem ne_nil_of_identifier {name : List Char} (identifier : isIdentifier name = true) : name ≠ [] := by
  rintro rfl
  cases identifier

/-- The characters of kinds with bars between them. -/
theorem mem_intercalate_names {names : List (List Char)}
    (identifiers : ∀ name ∈ names, isIdentifier name = true)
    {c : Char} (member : c ∈ List.intercalate ['|'] names) : c = '|' ∨ isNameChar c = true := by
  have characters : ∀ c ∈ List.intercalate ['|'] names, c = '|' ∨ isNameChar c = true := by
    refine forall_mem_intercalate (by simp) ?_
    intro name isName c inName
    exact Or.inr (isNameChar_of_mem_identifier (identifiers name isName) inName)
  exact characters c member

theorem intercalate_names_eq_nil_iff {names : List (List Char)}
    (identifiers : ∀ name ∈ names, isIdentifier name = true) :
    List.intercalate ['|'] names = [] ↔ names = [] := by
  constructor
  · intro empty
    cases names with
    | nil => rfl
    | cons first rest =>
        have nonempty := ne_nil_of_identifier (identifiers first (by simp))
        cases rest with
        | nil => exact absurd (by simpa [List.intercalate_singleton] using empty) nonempty
        | cons second others => simp [List.intercalate_cons_cons] at empty
  · rintro rfl
    rfl

theorem bar_not_mem_identifier {name : List Char} (identifier : isIdentifier name = true) :
    '|' ∉ name := by
  intro member
  exact absurd (isNameChar_of_mem_identifier identifier member) (by decide)

/-- Kinds with bars between them are read back from their name. -/
theorem kindsOfName_intercalate {kinds : List String}
    (identifiers : ∀ kind ∈ kinds, isIdentifier kind.toList = true) :
    Head.kindsOfName (List.intercalate ['|'] (kinds.map String.toList)) = kinds := by
  have named : ∀ name ∈ kinds.map String.toList, isIdentifier name = true := by simpa using identifiers
  unfold Head.kindsOfName
  split
  · rename_i empty
    have none_ := (intercalate_names_eq_nil_iff named).mp (List.isEmpty_iff.mp empty)
    exact (List.map_eq_nil_iff.mp none_).symm
  · rename_i nonempty
    have some_ : kinds ≠ [] := by
      rintro rfl
      exact nonempty rfl
    rw [splitAtMark_intercalate some_ fun kind isKind => bar_not_mem_identifier (identifiers kind isKind)]
    simp

theorem isKindList_intercalate {names : List (List Char)} (some_ : names ≠ [])
    (identifiers : ∀ name ∈ names, isIdentifier name = true) :
    isKindList (List.intercalate ['|'] names) = true := by
  rw [isKindList, splitAtMark_eq_splitOn,
    List.splitOn_intercalate '|' (fun name isName => bar_not_mem_identifier (identifiers name isName)) some_]
  simpa using identifiers

theorem splitCaret_eq (word : List Char) :
    (if (splitCaret word).2 then ['^'] else []) ++ (splitCaret word).1 = word := by
  unfold splitCaret
  split <;> rfl

theorem splitCaret_append {body : List Char} (recursive : Bool) (plain : '^' ∉ body) :
    splitCaret ((if recursive then ['^'] else []) ++ body) = (body, recursive) := by
  cases recursive with
  | true => rfl
  | false =>
      unfold splitCaret
      split
      · rename_i rest isCaret
        have inBody : '^' ∈ body := by
          have isBody : body = '^' :: rest := isCaret
          simp [isBody]
        exact absurd inBody plain
      · rfl

theorem splitQuantifier_eq (word : List Char) :
    (splitQuantifier word).1 ++ (splitQuantifier word).2.mark = word := by
  unfold splitQuantifier
  split
  case h_5 => exact List.append_nil word
  all_goals
    rename_i isLast
    obtain ⟨before, rfl⟩ := List.getLast?_eq_some_iff.mp isLast
    simp [Quantifier.mark]

theorem splitQuantifier_append {name : List Char} (quantifier : Quantifier)
    (plain : ∀ c ∈ name, c ∉ ['+', '*', '?', '!']) :
    splitQuantifier (name ++ quantifier.mark) = (name, quantifier) := by
  cases quantifier with
  | one =>
      rw [Quantifier.mark, List.append_nil]
      unfold splitQuantifier
      split
      case h_5 => rfl
      all_goals
        rename_i isLast
        exact absurd (by decide) (plain _ (List.mem_of_getLast? isLast))
  | oneOrMore | zeroOrMore | zeroOrOne | alternative => simp [splitQuantifier, Quantifier.mark]

/-- The characters of a head's name are none that mean something else in the head. -/
theorem not_mem_intercalate_names {kinds : List String}
    (identifiers : ∀ kind ∈ kinds, isIdentifier kind.toList = true) {c : Char} (notBar : c ≠ '|')
    (other : isNameChar c = false) : c ∉ List.intercalate ['|'] (kinds.map String.toList) := by
  intro member
  have named : ∀ name ∈ kinds.map String.toList, isIdentifier name = true := by simpa using identifiers
  rcases mem_intercalate_names named member with bar | letter
  · exact notBar bar
  · rw [other] at letter
    cases letter

/-- A head that is read is spelled by its word. -/
theorem spellsHead_of_readHead? {word : List Char} {head : Head} (read : readHead? word = some head) :
    SpellsHead word head := by
  unfold readHead? at read
  have whole := splitCaret_eq word
  generalize splitCaret word = parts at read whole
  obtain ⟨body, recursive⟩ := parts
  have isBody := splitQuantifier_eq body
  dsimp only at read whole
  generalize splitQuantifier body = parts at read isBody
  obtain ⟨name, quantifier⟩ := parts
  dsimp only at read isBody
  split at read
  · rename_i isName
    obtain rfl := Option.some.inj read
    subst isBody
    subst whole
    unfold Head.kindsOfName
    by_cases empty : name.isEmpty = true
    · rw [if_pos empty, List.isEmpty_iff.mp empty]
      exact ⟨by simp, by simp⟩
    · rw [if_neg empty]
      have kinds : isKindList name = true := by simpa [empty] using isName
      refine ⟨by simpa [isKindList] using kinds, ?_⟩
      dsimp only
      rw [List.map_map, List.map_congr_left (g := id) (by simp), List.map_id, splitAtMark_eq_splitOn,
        List.intercalate_splitOn, List.append_assoc]
  · cases read

namespace SpellsHead

variable {word : List Char} {head : Head}

theorem caret_not_mem (spells : SpellsHead word head) :
    '^' ∉ List.intercalate ['|'] (head.kinds.map String.toList) ++ head.quantifier.mark := by
  rw [List.mem_append, not_or]
  refine ⟨not_mem_intercalate_names spells.identifiers (by decide) (by decide), ?_⟩
  cases head.quantifier <;> decide

theorem mark_not_mem (spells : SpellsHead word head) :
    ∀ c ∈ List.intercalate ['|'] (head.kinds.map String.toList), c ∉ ['+', '*', '?', '!'] := by
  have other : ∀ c ∈ ['+', '*', '?', '!'], c ≠ '|' ∧ isNameChar c = false := by
    intro c member
    simp only [List.mem_cons, List.not_mem_nil, or_false] at member
    rcases member with rfl | rfl | rfl | rfl <;> decide
  intro c member isMark
  exact not_mem_intercalate_names spells.identifiers (other c isMark).1 (other c isMark).2 member

theorem readHead?_eq (spells : SpellsHead word head) : readHead? word = some head := by
  have noCaret := spells.caret_not_mem
  have noMark := spells.mark_not_mem
  obtain ⟨identifiers, rfl⟩ := spells
  obtain ⟨kinds, quantifier, recursive⟩ := head
  dsimp only at identifiers noCaret noMark ⊢
  have named : ∀ name ∈ kinds.map String.toList, isIdentifier name = true := by simpa using identifiers
  unfold readHead?
  rw [List.append_assoc, splitCaret_append recursive noCaret]
  dsimp only
  rw [splitQuantifier_append quantifier noMark]
  dsimp only
  rw [kindsOfName_intercalate identifiers, if_pos]
  by_cases none_ : kinds.map String.toList = []
  · simp [none_]
  · rw [isKindList_intercalate none_ named, Bool.or_true]

end SpellsHead

/-- A word is read as the head that it spells. -/
theorem readHead?_eq_some_iff {word : List Char} {head : Head} :
    readHead? word = some head ↔ SpellsHead word head :=
  ⟨spellsHead_of_readHead?, SpellsHead.readHead?_eq⟩

/-- A word that spells a head is no reference to a fragment. -/
theorem SpellsHead.head?_ne {word : List Char} {head : Head} (spells : SpellsHead word head) :
    word.head? ≠ some '@' := by
  intro isReference
  have member := List.mem_of_head? isReference
  rw [spells.spelled, List.mem_append, List.mem_append] at member
  rcases member with (inCaret | inName) | inMark
  · exact absurd inCaret (by cases head.recursive <;> decide)
  · exact not_mem_intercalate_names spells.identifiers (by decide) (by decide) inName
  · exact absurd inMark (by cases head.quantifier <;> decide)

/-! ### Derivations -/

/-- Tokens from which sibling patterns are derived, one after another: a pattern in parentheses, with a head
or without, around what its children are derived from; or a reference to a fragment, for its patterns. -/
inductive Derives (fragments : Fragments) : List Token → List Pattern → Prop where
  | nothing : Derives fragments [] []
  | bare {inner rest : List Token} {children siblings : List Pattern}
      (below : Derives fragments inner children) (later : Derives fragments rest siblings) :
      Derives fragments (.opening :: (inner ++ .closing :: rest)) (node Head.any children :: siblings)
  | headed {word : List Char} {head : Head} {inner rest : List Token}
      {children siblings : List Pattern} (spells : SpellsHead word head)
      (below : Derives fragments inner children) (later : Derives fragments rest siblings) :
      Derives fragments (.opening :: .word word :: (inner ++ .closing :: rest))
        (node head children :: siblings)
  | spliced {name : List Char} {rest : List Token} {patterns siblings : List Pattern}
      (identifier : isIdentifier name = true)
      (defined : fragments.lookup (String.ofList name) = some patterns)
      (later : Derives fragments rest siblings) :
      Derives fragments (.word ('@' :: name) :: rest) (patterns ++ siblings)

variable {fragments : Fragments} {given rest : List Token} {siblings patterns result : List Pattern}
variable {outer : List Unclosed} {word : List Char} {head : Head}

/-- Tokens that derive siblings may stand in front of others that do. -/
theorem Derives.append (derives : Derives fragments given patterns)
    (later : Derives fragments rest siblings) :
    Derives fragments (given ++ rest) (patterns ++ siblings) := by
  induction derives with
  | nothing => exact later
  | bare below _ _ ih => simpa using Derives.bare below ih
  | headed spells below _ _ ih => simpa using Derives.headed spells below ih
  | spliced identifier defined _ ih => simpa using Derives.spliced identifier defined ih

/-! ### What is derived is read -/

theorem readSequence_opening (notHead : ∀ word, rest.head? = some (.word word) → word.head? = some '@') :
    readSequence fragments siblings outer (.opening :: rest)
      = readSequence fragments [] (⟨Head.any, siblings⟩ :: outer) rest := by
  cases rest with
  | nil =>
      generalize isLater : readSequence fragments [] (⟨Head.any, siblings⟩ :: outer) [] = later
      rw [readSequence, isLater]
      simp
  | cons token rest =>
      cases token with
      | word word => rw [readSequence, if_pos (by simpa using notHead word rfl)]
      | opening | closing =>
          generalize isLater :
            readSequence fragments [] (⟨Head.any, siblings⟩ :: outer) (_ :: rest) = later
          rw [readSequence, isLater]
          simp

theorem readSequence_headed (spells : SpellsHead word head) :
    readSequence fragments siblings outer (.opening :: .word word :: rest)
      = readSequence fragments [] (⟨head, siblings⟩ :: outer) rest := by
  rw [readSequence, if_neg (by simpa using spells.head?_ne), readHead?_eq_some_iff.mpr spells]

theorem readSequence_closing {unclosed : Unclosed} (closable : endsOpen siblings = false) :
    readSequence fragments siblings (unclosed :: outer) (.closing :: rest)
      = readSequence fragments (unclosed.before ++ [node unclosed.head siblings]) outer rest := by
  rw [readSequence, if_neg (by simp [closable])]

theorem fragmentName?_eq_some_iff {name : List Char} :
    fragmentName? word = some name ↔ isIdentifier name = true ∧ word = '@' :: name := by
  constructor
  · intro isName
    unfold fragmentName? at isName
    split at isName
    · split at isName
      · rename_i identifier
        obtain rfl := Option.some.inj isName
        exact ⟨identifier, rfl⟩
      · cases isName
    · cases isName
  · rintro ⟨identifier, rfl⟩
    rw [fragmentName?, if_pos identifier]

theorem readSequence_spliced {name : List Char} (identifier : isIdentifier name = true)
    (defined : fragments.lookup (String.ofList name) = some patterns) :
    readSequence fragments siblings outer (.word ('@' :: name) :: rest)
      = readSequence fragments (siblings ++ patterns) outer rest := by
  rw [readSequence]
  simp [fragmentName?, identifier, defined]

/-- What children are derived from does not begin with a head. -/
theorem Derives.not_head (derives : Derives fragments given patterns) (word : List Char)
    (isFirst : (given ++ .closing :: rest).head? = some (.word word)) : word.head? = some '@' := by
  cases derives with
  | nothing => cases isFirst
  | bare | headed => cases isFirst
  | spliced =>
      cases isFirst
      rfl

/-- The reader takes derived patterns for siblings, and goes on behind the tokens that they are derived
from, whatever these are. -/
theorem Derives.readSequence_append (derives : Derives fragments given patterns)
    (closed : ∀ pattern ∈ patterns, pattern.Closed) (before : List Pattern) (outer : List Unclosed)
    (after : List Token) : readSequence fragments before outer (given ++ after)
      = readSequence fragments (before ++ patterns) outer after := by
  induction derives generalizing before outer after with
  | nothing => simp
  | bare below _ ihBelow ihLater =>
      obtain ⟨first, others⟩ := List.forall_mem_cons.mp closed
      obtain ⟨closable, children⟩ := closed_node_iff.mp first
      rw [List.cons_append, List.append_assoc, List.cons_append,
        readSequence_opening (fun word => below.not_head word), ihBelow children, List.nil_append,
        readSequence_closing closable, ihLater others]
      simp
  | headed spells below _ ihBelow ihLater =>
      obtain ⟨first, others⟩ := List.forall_mem_cons.mp closed
      obtain ⟨closable, children⟩ := closed_node_iff.mp first
      rw [List.cons_append, List.cons_append, List.append_assoc, List.cons_append,
        readSequence_headed spells, ihBelow children, List.nil_append, readSequence_closing closable,
        ihLater others]
      simp
  | spliced identifier defined _ ih =>
      have others := fun pattern member => closed pattern (List.mem_append_right _ member)
      rw [List.cons_append, readSequence_spliced identifier defined, ih others, List.append_assoc]

/-! ### What is read is derived -/

/-- From a point in the middle of reading, after some siblings inside unclosed patterns, the tokens left
derive the rest of each unclosed pattern, the innermost first, up to its closing parenthesis. -/
def Completes (fragments : Fragments) (result : List Pattern) :
    List Unclosed → List Pattern → List Token → Prop
  | [], siblings, given => ∃ patterns, Derives fragments given patterns ∧ result = siblings ++ patterns
  | unclosed :: outer, siblings, given => ∃ inner children rest,
      given = inner ++ .closing :: rest ∧ Derives fragments inner children ∧
      Completes fragments result outer
        (unclosed.before ++ [node unclosed.head (siblings ++ children)]) rest

/-- Tokens in front that derive siblings of their own. -/
theorem Completes.after (front : List Token) {patterns : List Pattern}
    (derives : ∀ {given patterns'}, Derives fragments given patterns' →
      Derives fragments (front ++ given) (patterns ++ patterns'))
    (completes : Completes fragments result outer (siblings ++ patterns) given) :
    Completes fragments result outer siblings (front ++ given) := by
  cases outer with
  | nil =>
      obtain ⟨later, derived, rfl⟩ := completes
      exact ⟨_, derives derived, by rw [List.append_assoc]⟩
  | cons unclosed outer =>
      obtain ⟨inner, children, rest, rfl, derived, completes⟩ := completes
      refine ⟨front ++ inner, patterns ++ children, rest, by rw [List.append_assoc], derives derived, ?_⟩
      rwa [← List.append_assoc]

/-- A pattern whose children come first is a sibling of its own. -/
theorem Completes.opened (front : List Token)
    (derives : ∀ {inner children rest later}, Derives fragments inner children →
      Derives fragments rest later →
      Derives fragments (front ++ (inner ++ .closing :: rest)) (node head children :: later))
    (completes : Completes fragments result (⟨head, siblings⟩ :: outer) [] given) :
    Completes fragments result outer siblings (front ++ given) := by
  obtain ⟨inner, children, rest, rfl, derived, completes⟩ := completes
  have inFront : Completes fragments result outer siblings ((front ++ inner ++ [.closing]) ++ rest) := by
    refine .after _ ?_ completes
    intro given later derivesLater
    simpa using derives derived derivesLater
  simpa using inFront

theorem completes_of_readSequence
    (read : readSequence fragments siblings outer given = .ok result) :
    Completes fragments result outer siblings given := by
  -- By the recursion of the reader, which hands its result on unchanged, so that all of its steps are
  -- about the same patterns.
  fun_induction readSequence fragments siblings outer given with
  | case1 siblings =>
      cases read
      exact ⟨[], .nothing, by simp⟩
  | case2 => cases read
  | case3 => cases read
  | case4 => cases read
  | case5 siblings unclosed outer rest _ ih =>
      exact ⟨[], [], rest, rfl, .nothing, by simpa using ih read⟩
  | case6 siblings outer word rest _ ih =>
      exact Completes.opened [.opening] (fun below later => .bare below later) (ih read)
  | case7 siblings outer word rest _ head isHead ih =>
      have spells := readHead?_eq_some_iff.mp isHead
      exact Completes.opened [.opening, .word word] (fun below later => .headed spells below later)
        (ih read)
  | case8 => cases read
  | case9 siblings outer rest _ ih =>
      exact Completes.opened [.opening] (fun below later => .bare below later) (ih read)
  | case10 => cases read
  | case11 siblings outer word rest name isName patterns found ih =>
      obtain ⟨identifier, rfl⟩ := fragmentName?_eq_some_iff.mp isName
      exact Completes.after [.word ('@' :: name)]
        (fun later => .spliced identifier found later) (ih read)
  | case12 => cases read

/-! ### Texts and fragments -/

/-- A text spells sibling patterns: its characters are ASCII, its tokens derive the patterns, and no child
list in these, with all that was spliced into it, ends with an alternative. -/
structure Spells (fragments : Fragments) (text : String) (patterns : List Pattern) : Prop where
  ascii : ∀ c ∈ text.toList, c.toNat < 128
  derived : ∃ given, Tokenized text.toList given ∧ Derives fragments given patterns
  closed : ∀ pattern ∈ patterns, pattern.Closed

/-- Fragments that were themselves read: each name stands for a run of patterns or for one pattern, read
from a text with fragments that were read. -/
inductive Fragments.Read : Fragments → Prop where
  | nothing : Fragments.Read []
  | run {fragments known : Fragments} {name text : String} {patterns : List Pattern}
      (others : Fragments.Read fragments) (knownRead : Fragments.Read known)
      (parsed : parseFragment text known = .ok patterns) : Fragments.Read ((name, patterns) :: fragments)
  | single {fragments known : Fragments} {name text : String} {pattern : Pattern}
      (others : Fragments.Read fragments) (knownRead : Fragments.Read known)
      (parsed : parse text known = .ok pattern) : Fragments.Read ((name, [pattern]) :: fragments)

theorem Fragments.Read.closed (read : fragments.Read) :
    ∀ fragment ∈ fragments, ∀ pattern ∈ fragment.2, pattern.Closed := by
  induction read with
  | nothing => simp
  | run _ _ parsed others known =>
      exact List.forall_mem_cons.mpr ⟨closed_of_parseFragment known parsed, others⟩
  | single _ _ parsed others known =>
      exact List.forall_mem_cons.mpr
        ⟨closed_of_parseFragment known (parseFragment_of_parse parsed), others⟩

theorem find?_nonAscii_eq_none_iff {text : String} :
    text.toList.find? (·.toNat ≥ 128) = none ↔ ∀ c ∈ text.toList, c.toNat < 128 := by
  simp [List.find?_eq_none]

/-- A fragment is read from a text if its characters are ASCII and its tokens are read. -/
theorem parseFragment_eq_ok_iff {text : String} : parseFragment text fragments = .ok patterns ↔
    (∀ c ∈ text.toList, c.toNat < 128) ∧
      readSequence fragments [] [] (tokens text.toList) = .ok patterns := by
  rw [← find?_nonAscii_eq_none_iff]
  unfold parseFragment
  cases text.toList.find? (·.toNat ≥ 128) with
  | some c => simp
  | none =>
      cases readSequence fragments [] [] (tokens text.toList) <;> simp

theorem Spells.parseFragment_eq {text : String} (spells : Spells fragments text patterns) :
    parseFragment text fragments = .ok patterns := by
  obtain ⟨given, tokenized, derives⟩ := spells.derived
  obtain rfl := tokenized_iff.mp tokenized
  refine parseFragment_eq_ok_iff.mpr ⟨spells.ascii, ?_⟩
  have whole := derives.readSequence_append spells.closed [] [] []
  rw [List.append_nil, List.nil_append, readSequence] at whole
  exact whole

theorem Fragments.Read.spells (read : fragments.Read) {text : String}
    (parsed : parseFragment text fragments = .ok patterns) : Spells fragments text patterns := by
  obtain ⟨ascii, readTokens⟩ := parseFragment_eq_ok_iff.mp parsed
  obtain ⟨derivedPatterns, derives, isResult⟩ := completes_of_readSequence readTokens
  rw [List.nil_append] at isResult
  subst isResult
  exact ⟨ascii, ⟨_, tokenized_iff.mpr rfl, derives⟩, closed_of_parseFragment read.closed parsed⟩

/-- A report is about the text that was to be read. -/
theorem parseFragment_error {text : String} {error : PatternError}
    (failed : parseFragment text fragments = .error error) : ∃ fault, error = ⟨fault, text⟩ := by
  unfold parseFragment at failed
  split at failed
  · exact ⟨_, (Except.error.inj failed).symm⟩
  · cases result : readSequence fragments [] [] (tokens text.toList) with
    | ok patterns =>
        rw [result] at failed
        cases failed
    | error fault =>
        rw [result] at failed
        exact ⟨fault, (Except.error.inj failed).symm⟩

theorem parse_error {text : String} {error : PatternError}
    (failed : parse text fragments = .error error) : ∃ fault, error = ⟨fault, text⟩ := by
  unfold parse at failed
  split at failed
  · rename_i earlier
    obtain rfl := Except.error.inj failed
    exact parseFragment_error earlier
  · cases failed
  · exact ⟨_, (Except.error.inj failed).symm⟩

theorem parse_eq_ok_iff {text : String} {pattern : Pattern} :
    parse text fragments = .ok pattern ↔ parseFragment text fragments = .ok [pattern] := by
  constructor
  · exact parseFragment_of_parse
  · intro single
    rw [parse, single]

/-- With fragments that were read, reading a text returns sibling patterns exactly if the text spells them;
every other text is reported as the text of a pattern error. One pattern is returned exactly if it is the
only one that the text spells. -/
theorem Spells.exactly_read (read : fragments.Read) (text : String) :
    (∀ patterns, parseFragment text fragments = .ok patterns ↔ Spells fragments text patterns) ∧
    ((¬ ∃ patterns, Spells fragments text patterns) ↔
      ∃ fault, parseFragment text fragments = .error ⟨fault, text⟩) ∧
    (∀ pattern, parse text fragments = .ok pattern ↔ Spells fragments text [pattern]) ∧
    ((¬ ∃ pattern, Spells fragments text [pattern]) ↔
      ∃ fault, parse text fragments = .error ⟨fault, text⟩) := by
  have siblings : ∀ patterns,
      parseFragment text fragments = .ok patterns ↔ Spells fragments text patterns :=
    fun patterns => ⟨read.spells, Spells.parseFragment_eq⟩
  have single : ∀ pattern, parse text fragments = .ok pattern ↔ Spells fragments text [pattern] :=
    fun pattern => parse_eq_ok_iff.trans (siblings [pattern])
  refine ⟨siblings, ?_, single, ?_⟩
  · simp only [← siblings]
    cases result : parseFragment text fragments with
    | ok patterns => simp
    | error error =>
        obtain ⟨fault, rfl⟩ := parseFragment_error result
        simp
  · simp only [← single]
    cases result : parse text fragments with
    | ok pattern => simp
    | error error =>
        obtain ⟨fault, rfl⟩ := parse_error result
        simp

/-- A run that ends with an alternative, and a pattern into which the run is spliced in front of a
sibling. -/
def openRun : Fragments :=
  [("whole", [.node ⟨[], .one, true⟩
      [.node ⟨["b"], .oneOrMore, false⟩ [], .node ⟨["a"], .alternative, false⟩ [],
        .node ⟨["c", "d"], .one, false⟩ []]]),
    ("run", [.node ⟨["b"], .oneOrMore, false⟩ [], .node ⟨["a"], .alternative, false⟩ []])]

theorem read_openRun : openRun.Read := by
  have run : parseFragment "(b+) (a!)" []
      = .ok [.node ⟨["b"], .oneOrMore, false⟩ [], .node ⟨["a"], .alternative, false⟩ []] := by rfl
  have runRead : Fragments.Read
      [("run", [.node ⟨["b"], .oneOrMore, false⟩ [], .node ⟨["a"], .alternative, false⟩ []])] :=
    .run .nothing .nothing run
  have whole : parse "(^ @run (c|d))"
      [("run", [.node ⟨["b"], .oneOrMore, false⟩ [], .node ⟨["a"], .alternative, false⟩ []])]
      = .ok (.node ⟨[], .one, true⟩
      [.node ⟨["b"], .oneOrMore, false⟩ [], .node ⟨["a"], .alternative, false⟩ [],
        .node ⟨["c", "d"], .one, false⟩ []]) := by rfl
  exact .single runRead runRead whole

/-- The run may stand in front of a sibling, in a text as well as in a fragment, and at the top; as the end
of a child list it spells nothing. -/
theorem Spells.exactly_read_openRun :
    openRun.Read ∧
    Spells openRun "@whole(x\t@run ()) @run"
      [.node ⟨[], .one, true⟩
          [.node ⟨["b"], .oneOrMore, false⟩ [], .node ⟨["a"], .alternative, false⟩ [],
            .node ⟨["c", "d"], .one, false⟩ []],
        .node ⟨["x"], .one, false⟩
          [.node ⟨["b"], .oneOrMore, false⟩ [], .node ⟨["a"], .alternative, false⟩ [],
            .node Head.any []],
        .node ⟨["b"], .oneOrMore, false⟩ [], .node ⟨["a"], .alternative, false⟩ []] ∧
    ¬ ∃ pattern, Spells openRun "(x (c) @run)" [pattern] := by
  obtain ⟨_, _, _, rejected⟩ := Spells.exactly_read read_openRun "(x (c) @run)"
  exact ⟨read_openRun, ((Spells.exactly_read read_openRun _).1 _).mp (by rfl),
    rejected.mpr ⟨_, by rfl⟩⟩

end Pattern

end HeaderBindings
