/-
Module: HeaderBindings.Proofs.SplicedTexts
Purpose: Patterns that are spliced in while a text is read are the ones that are read once their text
  stands in the place of each reference.
Main exports: Pattern.splice, Pattern.Fragments.written, Pattern.Fragments.Defined, Pattern.expanded,
  Pattern.Fragments.Read.parseFragment_splice
-/
import HeaderBindings.Proofs.PatternRoundTrip
import HeaderBindings.Rules
import Mathlib.Data.List.Forall2

namespace HeaderBindings.Pattern

open Text

/-! ### Texts in the place of references -/

/-- Texts by name, the latest of a name first. -/
abbrev NamedTexts := List (String × String)

/-- The text of the fragment that a word refers to, if it refers to one that has a text. -/
def referenceText? (texts : NamedTexts) (word : List Char) : Option (List Char) := do
  let name ← fragmentName? word
  let text ← texts.lookup (String.ofList name)
  return text.toList

/-- What stands in the place of a word: the text of the fragment that it refers to, or the word itself. -/
def wordText (texts : NamedTexts) (word : List Char) : List Char :=
  (referenceText? texts word).getD word

/-- A text with the texts of fragments in the place of the references to them, after the letters of the
current word, last letter first. -/
def spliceFrom (texts : NamedTexts) (current : List Char) : List Char → List Char
  | [] => wordText texts current.reverse
  | c :: rest =>
      if InWord c then spliceFrom texts (c :: current) rest
      else wordText texts current.reverse ++ c :: spliceFrom texts [] rest

/-- A text with the text of its fragment in the place of each word that refers to one. All else stays. -/
def splice (texts : NamedTexts) (text : String) : String :=
  String.ofList (spliceFrom texts [] text.toList)

/-- The text that each fragment is written as: the written forms of its patterns, joined by blanks. -/
def Fragments.written (gap : String) (indent : Int) (fragments : Fragments) : NamedTexts :=
  fragments.map fun fragment => (fragment.1, gap.intercalate (fragment.2.map (render · indent)))

/-- The texts of definitions, the latest first, with the texts of the earlier ones in the place of the
references to them. -/
def expanded : NamedTexts → NamedTexts
  | [] => []
  | definition :: earlier =>
      (definition.1, splice (expanded earlier) definition.2) :: expanded earlier

/-- Fragments read from the texts of their definitions one after another, each a run of patterns or one
pattern: the references in a text are to the definitions before it. -/
inductive Fragments.Defined : NamedTexts → Fragments → Prop where
  | nothing : Fragments.Defined [] []
  | run {definitions : NamedTexts} {fragments : Fragments} {name text : String} {patterns : List Pattern}
      (earlier : Fragments.Defined definitions fragments)
      (parsed : parseFragment text fragments = .ok patterns) :
      Fragments.Defined ((name, text) :: definitions) ((name, patterns) :: fragments)
  | single {definitions : NamedTexts} {fragments : Fragments} {name text : String} {pattern : Pattern}
      (earlier : Fragments.Defined definitions fragments) (parsed : parse text fragments = .ok pattern) :
      Fragments.Defined ((name, text) :: definitions) ((name, [pattern]) :: fragments)

variable {texts definitions : NamedTexts} {fragments : Fragments} {current word rest text : List Char}
variable {given : List Token} {patterns : List Pattern} {c : Char}

theorem Fragments.Defined.read (defined : Fragments.Defined definitions fragments) : fragments.Read := by
  induction defined with
  | nothing => exact .nothing
  | run _ parsed earlier => exact .run earlier earlier parsed
  | single _ parsed earlier => exact .single earlier earlier parsed

/-- Definitions that are read in order, each with the fragments that are known by then. -/
theorem Fragments.Defined.of_foldlM {added : NamedTexts} {all : Fragments}
    (defined : Fragments.Defined definitions fragments)
    (isAll : added.foldlM (fun known entry => known.define entry.1 entry.2) fragments = .ok all) :
    Fragments.Defined (added.reverse ++ definitions) all := by
  induction added generalizing definitions fragments with
  | nil =>
      obtain rfl := Except.ok.inj isAll
      exact defined
  | cons entry added ih =>
      rw [List.foldlM_cons, Fragments.define] at isAll
      cases parsed : parseFragment entry.2 fragments with
      | error error =>
          rw [parsed] at isAll
          cases isAll
      | ok patterns =>
          rw [parsed] at isAll
          simpa using ih (.run defined parsed) isAll

/-- The shared parts of the claimed shapes are defined one through another, in the order of their texts. -/
theorem Fragments.defined_of_rules (isAll : Rules.fragments = .ok fragments) :
    Fragments.Defined Rules.fragmentTexts.reverse fragments := by
  have inOrder := Fragments.Defined.of_foldlM .nothing isAll
  rwa [List.append_nil] at inOrder

/-! ### Tokens of the resulting text -/

theorem referenceText?_eq_some_iff : referenceText? texts word = some text ↔
    ∃ name written, isIdentifier name = true ∧ word = '@' :: name ∧
      texts.lookup (String.ofList name) = some written ∧ written.toList = text := by
  simp [referenceText?, Option.bind_eq_some_iff, fragmentName?_eq_some_iff, and_assoc]

theorem referenceText?_of_head?_ne (noReference : word.head? ≠ some '@') :
    referenceText? texts word = none := by
  rw [Option.eq_none_iff_forall_not_mem]
  intro text found
  obtain ⟨name, _, _, rfl, _⟩ := referenceText?_eq_some_iff.mp found
  exact noReference rfl

@[simp] theorem wordText_nil : wordText texts [] = [] := rfl

theorem forall_mem_wordText {holds : Char → Prop}
    (inTexts : ∀ entry ∈ texts, ∀ c ∈ entry.2.toList, holds c)
    (inWord : ∀ c ∈ word, holds c) : ∀ c ∈ wordText texts word, holds c := by
  unfold wordText
  cases found : referenceText? texts word with
  | none => exact inWord
  | some text =>
      obtain ⟨name, written, _, _, isText, rfl⟩ := referenceText?_eq_some_iff.mp found
      obtain ⟨before, after, rfl, _⟩ := List.lookup_eq_some_iff.mp isText
      exact inTexts (String.ofList name, written) (by simp)

theorem spliceFrom_append (letters : ∀ c ∈ word, InWord c) :
    spliceFrom texts current (word ++ rest) = spliceFrom texts (word.reverse ++ current) rest := by
  induction word generalizing current with
  | nil => rfl
  | cons c word ih =>
      rw [List.forall_mem_cons] at letters
      rw [List.cons_append, spliceFrom, if_pos letters.1, ih letters.2]
      simp

theorem spliceFrom_of_end (ends : ∀ c ∈ rest.head?, ¬ InWord c) :
    spliceFrom texts current rest = wordText texts current.reverse ++ spliceFrom texts [] rest := by
  cases rest with
  | nil => simp [spliceFrom]
  | cons c rest =>
      have noLetter : ¬ InWord c := ends c rfl
      simp [spliceFrom, noLetter]

theorem spliceFrom_cons_of_not_inWord (noLetter : ¬ InWord c) :
    spliceFrom texts [] (c :: rest) = c :: spliceFrom texts [] rest := by
  simp [spliceFrom, noLetter]

/-- A word that ends still ends where texts stand in the place of what follows. -/
theorem spliceFrom_ends (ends : ∀ c ∈ rest.head?, ¬ InWord c) :
    ∀ c ∈ (spliceFrom texts [] rest).head?, ¬ InWord c := by
  cases rest with
  | nil => simp [spliceFrom]
  | cons c rest =>
      have noLetter : ¬ InWord c := ends c rfl
      rw [spliceFrom_cons_of_not_inWord noLetter]
      simpa using noLetter

theorem forall_mem_spliceFrom {holds : Char → Prop}
    (inTexts : ∀ entry ∈ texts, ∀ c ∈ entry.2.toList, holds c)
    (inCurrent : ∀ c ∈ current, holds c)
    (inText : ∀ c ∈ text, holds c) : ∀ c ∈ spliceFrom texts current text, holds c := by
  induction text generalizing current with
  | nil => exact forall_mem_wordText inTexts (by simpa using inCurrent)
  | cons first rest ih =>
      obtain ⟨isFirst, inRest⟩ := List.forall_mem_cons.mp inText
      rw [spliceFrom]
      split
      · exact ih (List.forall_mem_cons.mpr ⟨isFirst, inCurrent⟩) inRest
      · have inWord : ∀ c ∈ wordText texts current.reverse, holds c :=
          forall_mem_wordText inTexts (by simpa using inCurrent)
        have inLater : ∀ c ∈ spliceFrom texts [] rest, holds c := ih (by simp) inRest
        exact List.forall_mem_append.mpr ⟨inWord, List.forall_mem_cons.mpr ⟨isFirst, inLater⟩⟩

/-- The tokens that come of one token. -/
def splicedTokens (texts : NamedTexts) : Token → List Token
  | .word word => ((referenceText? texts word).map tokens).getD [.word word]
  | token => [token]

theorem tokens_wordText (nonempty : word ≠ []) (letters : ∀ c ∈ word, InWord c) :
    tokens (wordText texts word) = splicedTokens texts (.word word) := by
  rw [wordText, splicedTokens]
  cases referenceText? texts word with
  | none => exact tokens_of_letters nonempty letters
  | some text => rfl

/-- The tokens of a text with others in the place of its references are the tokens that come of each of its
tokens: no letter of a text that is put in can join a word beside it. -/
theorem tokens_spliceFrom (tokenized : Tokenized text given) :
    tokens (spliceFrom texts [] text) = given.flatMap (splicedTokens texts) := by
  induction tokenized with
  | nothing => rfl
  | @blank c rest given blank _ ih =>
      have noLetter : ¬ InWord c := by simp [InWord, blank]
      rw [spliceFrom_cons_of_not_inWord noLetter, tokens_blank blank, ih]
  | opening _ ih =>
      rw [spliceFrom_cons_of_not_inWord (by decide), tokens_opening, ih]
      rfl
  | closing _ ih =>
      rw [spliceFrom_cons_of_not_inWord (by decide), tokens_closing, ih]
      rfl
  | word nonempty letters ends _ ih =>
      rw [spliceFrom_append letters, spliceFrom_of_end ends, tokens_append (spliceFrom_ends ends), ih,
        List.append_nil, List.reverse_reverse, tokens_wordText nonempty letters, List.flatMap_cons]

/-! ### What the resulting text spells -/

/-- Texts of fragments, each of which spells what its fragment stands for, with no reference. -/
def SpellEach (texts : NamedTexts) (fragments : Fragments) : Prop :=
  List.Forall₂ (fun entry fragment => entry.1 = fragment.1 ∧
    Spells [] entry.2 fragment.2) texts fragments

theorem SpellEach.lookup (each : SpellEach texts fragments) {name : String}
    (isFragment : fragments.lookup name = some patterns) :
    ∃ text, texts.lookup name = some text ∧ Spells [] text patterns := by
  induction each with
  | nil => cases isFragment
  | @cons entry fragment texts fragments first _ ih =>
      obtain ⟨key, text⟩ := entry
      obtain ⟨_, run⟩ := fragment
      obtain ⟨rfl, spells⟩ := first
      rw [List.lookup_cons] at isFragment ⊢
      cases isKey : name == key with
      | true =>
          rw [isKey] at isFragment
          obtain rfl := Option.some.inj isFragment
          exact ⟨text, rfl, spells⟩
      | false =>
          rw [isKey] at isFragment
          exact ih isFragment

theorem SpellEach.ascii (each : SpellEach texts fragments) :
    ∀ entry ∈ texts, ∀ c ∈ entry.2.toList, c.toNat < 128 := by
  induction each with
  | nil => simp
  | cons first _ ih => exact List.forall_mem_cons.mpr ⟨first.2.ascii, ih⟩

/-- The tokens that come of those that patterns are derived from derive the same patterns, and no fragment
is needed. -/
theorem Derives.splicedTokens (derives : Derives fragments given patterns)
    (each : SpellEach texts fragments) : Derives [] (given.flatMap (splicedTokens texts)) patterns := by
  induction derives with
  | nothing => exact .nothing
  | bare _ _ children siblings => simpa [Pattern.splicedTokens] using Derives.bare children siblings
  | headed spells _ _ children siblings =>
      have stays : referenceText? texts _ = none := referenceText?_of_head?_ne spells.head?_ne
      simpa [Pattern.splicedTokens, stays] using Derives.headed spells children siblings
  | @spliced name _ _ _ identifier defined _ siblings =>
      obtain ⟨text, found, spells⟩ := each.lookup defined
      obtain ⟨run, tokenized, derives⟩ := spells.derived
      obtain rfl := tokenized_iff.mp tokenized
      have isText : referenceText? texts ('@' :: name) = some text.toList :=
        referenceText?_eq_some_iff.mpr ⟨name, text, identifier, rfl, found, rfl⟩
      simpa [Pattern.splicedTokens, isText] using derives.append siblings

/-- A text still spells the same once texts that spell the fragments stand in the place of the references. -/
theorem Spells.splice {text : String} (spells : Spells fragments text patterns)
    (each : SpellEach texts fragments) : Spells [] (Pattern.splice texts text) patterns where
  ascii := by
    rw [Pattern.splice, String.toList_ofList]
    exact forall_mem_spliceFrom each.ascii (by simp) spells.ascii
  derived := by
    obtain ⟨given, tokenized, derives⟩ := spells.derived
    refine ⟨given.flatMap (splicedTokens texts), tokenized_iff.mpr ?_, derives.splicedTokens each⟩
    rw [Pattern.splice, String.toList_ofList, tokens_spliceFrom tokenized]
  closed := spells.closed

/-- Written fragments that were read spell each what the fragment stands for. -/
theorem Fragments.Read.spellEach_written (read : fragments.Read) {gap : String}
    (blanks : ∀ c ∈ gap.toList, isBlank c = true ∧ c.toNat < 128) (indent : Int) :
    SpellEach (fragments.written gap indent) fragments := by
  rw [SpellEach, Fragments.written, List.forall₂_map_left_iff, List.forall₂_same]
  intro fragment member
  exact ⟨rfl, spells_intercalate (read.wellSpelled fragment member) (read.closed fragment member)
    blanks indent⟩

/-- Expanded definitions spell each what the fragment was defined to stand for. -/
theorem Fragments.Defined.spellEach_expanded (defined : Fragments.Defined definitions fragments) :
    SpellEach (expanded definitions) fragments := by
  induction defined with
  | nothing => exact .nil
  | run earlier parsed each => exact .cons ⟨rfl, (earlier.read.spells parsed).splice each⟩ each
  | single earlier parsed each =>
      exact .cons ⟨rfl, (earlier.read.spells (parseFragment_of_parse parsed)).splice each⟩ each

/-- Reading a text with fragments that were read comes to the same patterns as reading it without
fragments, once the written forms of a fragment's patterns, joined by any ASCII blanks, stand in the place
of each reference to the fragment. And if the fragments were defined one through another, each of them and
the text come to the same patterns once the texts of the definitions, expanded in the same way, stand in
the place of the references. -/
theorem Fragments.Read.parseFragment_splice (read : fragments.Read) {text : String}
    (parsed : parseFragment text fragments = .ok patterns) :
    (∀ (gap : String) (indent : Int), (∀ c ∈ gap.toList, isBlank c = true ∧ c.toNat < 128) →
      parseFragment (splice (fragments.written gap indent) text) [] = .ok patterns) ∧
    (∀ definitions : NamedTexts, Fragments.Defined definitions fragments →
      parseFragment (splice (expanded definitions) text) [] = .ok patterns ∧
      ∀ name run, fragments.lookup name = some run → ∃ alone,
        (expanded definitions).lookup name = some alone ∧ parseFragment alone [] = .ok run) := by
  have spells : Spells fragments text patterns := read.spells parsed
  refine ⟨?_, ?_⟩
  · intro gap indent blanks
    exact (spells.splice (read.spellEach_written blanks indent)).parseFragment_eq
  · intro definitions defined
    have each := defined.spellEach_expanded
    refine ⟨(spells.splice each).parseFragment_eq, ?_⟩
    intro name run isFragment
    obtain ⟨alone, found, spellsRun⟩ := each.lookup isFragment
    exact ⟨alone, found, spellsRun.parseFragment_eq⟩

/-- Definitions of a run that ends with an alternative, of a pattern into which the run is spliced in front
of a sibling, and of nothing; the latest comes first. -/
def openTexts : NamedTexts :=
  [("none", " "), ("whole", "(^ @run (c|d))"), ("run", "(b+) (a!)")]

/-- What these definitions stand for. -/
def openFragments : Fragments :=
  ("none", []) :: openRun

/-- What is read where the run comes at the top in front of one more pattern. -/
def openSiblings : List Pattern :=
  [.node Head.any
      [.node ⟨[], .one, true⟩
        [.node ⟨["b"], .oneOrMore, false⟩ [], .node ⟨["a"], .alternative, false⟩ [],
          .node ⟨["c", "d"], .one, false⟩ []],
        .node Head.any []],
    .node ⟨["b"], .oneOrMore, false⟩ [], .node ⟨["a"], .alternative, false⟩ [],
    .node ⟨["y"], .one, false⟩ []]

/-- References right after a parenthesis, to nothing, and between parentheses without a blank. -/
theorem Fragments.Read.parseFragment_splice_openFragments :
    openFragments.Read ∧ Fragments.Defined openTexts openFragments ∧
    parseFragment "(@whole(@none))@run(y)" openFragments = .ok openSiblings ∧
    splice (openFragments.written "\t" 0) "(@whole(@none))@run(y)"
      = "((^\n (b+)\n (a!)\n (c|d))())(b+)\t(a!)(y)" ∧
    parseFragment "((^\n (b+)\n (a!)\n (c|d))())(b+)\t(a!)(y)" [] = .ok openSiblings ∧
    splice (expanded openTexts) "(@whole(@none))@run(y)" = "((^ (b+) (a!) (c|d))( ))(b+) (a!)(y)" ∧
    parseFragment "((^ (b+) (a!) (c|d))( ))(b+) (a!)(y)" [] = .ok openSiblings ∧
    parseFragment "(^ (b+) (a!) (c|d))" []
      = .ok [.node ⟨[], .one, true⟩
          [.node ⟨["b"], .oneOrMore, false⟩ [], .node ⟨["a"], .alternative, false⟩ [],
            .node ⟨["c", "d"], .one, false⟩ []]] := by
  have defined : Fragments.Defined openTexts openFragments := by
    have inOrder : Fragments.Defined (openTexts.reverse.reverse ++ []) openFragments :=
      .of_foldlM .nothing (by rfl)
    exact inOrder
  have parsed : parseFragment "(@whole(@none))@run(y)" openFragments = .ok openSiblings := by rfl
  have asWritten : splice (openFragments.written "\t" 0) "(@whole(@none))@run(y)"
      = "((^\n (b+)\n (a!)\n (c|d))())(b+)\t(a!)(y)" := by decide +kernel
  have asDefined : splice (expanded openTexts) "(@whole(@none))@run(y)"
      = "((^ (b+) (a!) (c|d))( ))(b+) (a!)(y)" := by decide +kernel
  obtain ⟨ofWritten, ofDefined⟩ := Fragments.Read.parseFragment_splice defined.read parsed
  obtain ⟨ofTexts, ofEach⟩ := ofDefined openTexts defined
  obtain ⟨alone, found, ofWhole⟩ := ofEach "whole" _ (by rfl)
  have isAlone : (expanded openTexts).lookup "whole" = some "(^ (b+) (a!) (c|d))" := by decide +kernel
  obtain rfl := Option.some.inj (isAlone.symm.trans found)
  refine ⟨defined.read, defined, parsed, asWritten, ?_, asDefined, ?_, ofWhole⟩
  · rw [← asWritten]
    exact ofWritten "\t" 0 (List.forall_mem_singleton.mpr (by decide))
  · rwa [← asDefined]

end HeaderBindings.Pattern
