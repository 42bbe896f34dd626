/-
Module: HeaderBindings.Proofs.PatternRoundTrip
Purpose: A pattern that was read is read back from its written form, whatever its indent.
Main exports: Pattern.WellSpelled, Pattern.FromText, Pattern.FromText.parse_render
-/
import HeaderBindings.Pattern.Printer
import HeaderBindings.Proofs.PatternGrammar

namespace HeaderBindings.Pattern

open Text

/-! ### Patterns that were read -/

/-- A pattern whose kinds are identifiers, at every depth. -/
def WellSpelled (pattern : Pattern) : Prop :=
  ∀ below ∈ pattern.descendants, ∀ kind ∈ below.head.kinds, isIdentifier kind.toList = true

theorem wellSpelled_node_iff {head : Head} {children : List Pattern} :
    (node head children).WellSpelled ↔
      (∀ kind ∈ head.kinds, isIdentifier kind.toList = true) ∧
        ∀ child ∈ children, child.WellSpelled := by
  unfold WellSpelled
  simp only [descendants, List.forall_mem_cons, mem_descendantsOfList, Pattern.head]
  constructor
  · rintro ⟨top, below⟩
    exact ⟨top, fun child member pattern inside => below pattern ⟨child, member, inside⟩⟩
  · rintro ⟨top, below⟩
    refine ⟨top, ?_⟩
    rintro pattern ⟨child, member, inside⟩
    exact below child member pattern inside

/-- What is derived has identifiers for kinds, if the fragments that are spliced have. -/
theorem Derives.wellSpelled {fragments : Fragments} {given : List Token} {patterns : List Pattern}
    (fragmentsSpelled : ∀ fragment ∈ fragments, ∀ pattern ∈ fragment.2, pattern.WellSpelled)
    (derives : Derives fragments given patterns) : ∀ pattern ∈ patterns, pattern.WellSpelled := by
  induction derives with
  | nothing => simp
  | bare _ _ children siblings =>
      exact List.forall_mem_cons.mpr
        ⟨wellSpelled_node_iff.mpr ⟨by simp [Head.any], children⟩, siblings⟩
  | headed spells _ _ children siblings =>
      exact List.forall_mem_cons.mpr
        ⟨wellSpelled_node_iff.mpr ⟨spells.identifiers, children⟩, siblings⟩
  | @spliced name _ patterns _ _ defined _ siblings =>
      obtain ⟨_, _, parts, _⟩ := List.lookup_eq_some_iff.mp defined
      have isFragment : (String.ofList name, patterns) ∈ fragments := by simp [parts]
      exact List.forall_mem_append.mpr ⟨fragmentsSpelled _ isFragment, siblings⟩

theorem wellSpelled_of_parseFragment {fragments : Fragments} {text : String} {patterns : List Pattern}
    (fragmentsSpelled : ∀ fragment ∈ fragments, ∀ pattern ∈ fragment.2, pattern.WellSpelled)
    (read : fragments.Read) (parsed : parseFragment text fragments = .ok patterns) :
    ∀ pattern ∈ patterns, pattern.WellSpelled := by
  obtain ⟨_, _, derives⟩ := (read.spells parsed).derived
  exact derives.wellSpelled fragmentsSpelled

theorem Fragments.Read.wellSpelled {fragments : Fragments} (read : fragments.Read) :
    ∀ fragment ∈ fragments, ∀ pattern ∈ fragment.2, pattern.WellSpelled := by
  induction read with
  | nothing => simp
  | run _ knownRead parsed others known =>
      exact List.forall_mem_cons.mpr ⟨wellSpelled_of_parseFragment known knownRead parsed, others⟩
  | single _ knownRead parsed others known =>
      exact List.forall_mem_cons.mpr
        ⟨wellSpelled_of_parseFragment known knownRead (parseFragment_of_parse parsed), others⟩

/-- A pattern that was read from a text, with fragments that were read. -/
def FromText (pattern : Pattern) : Prop :=
  ∃ (fragments : Fragments) (text : String), fragments.Read ∧ parse text fragments = .ok pattern

theorem FromText.wellSpelled {pattern : Pattern} (fromText : pattern.FromText) :
    pattern.WellSpelled := by
  obtain ⟨fragments, text, read, parsed⟩ := fromText
  exact wellSpelled_of_parseFragment read.wellSpelled read (parseFragment_of_parse parsed) _ (by simp)

theorem FromText.closed {pattern : Pattern} (fromText : pattern.FromText) : pattern.Closed := by
  obtain ⟨fragments, text, read, parsed⟩ := fromText
  exact closed_of_parseFragment read.closed (parseFragment_of_parse parsed) _ (by simp)

/-! ### Tokens of the written form -/

mutual

/-- The tokens of a pattern: its head, unless nothing is written for it, and those of its children,
between parentheses. -/
def writtenTokens : Pattern → List Token
  | node head children =>
      .opening :: wordToken head.text.toList.reverse ++ (writtenTokensOfList children ++ [.closing])

/-- The tokens of patterns in order. -/
def writtenTokensOfList : List Pattern → List Token
  | [] => []
  | first :: rest => first.writtenTokens ++ writtenTokensOfList rest

end

theorem toNat_of_isNameChar {c : Char} (letter : isNameChar c = true) :
    48 ≤ c.toNat ∧ c.toNat ≤ 122 := by
  delta isNameChar Char.isAlphanum Char.isAlpha Char.isUpper Char.isLower Char.isDigit at letter
  simp only [Bool.or_eq_true, Bool.and_eq_true, decide_eq_true_eq, beq_iff_eq, ge_iff_le,
    UInt32.le_iff_toNat_le] at letter
  rcases letter with ((⟨low, high⟩ | ⟨low, high⟩) | ⟨low, high⟩) | rfl
  · exact ⟨Nat.le_trans (by decide) low, Nat.le_trans high (by decide)⟩
  · exact ⟨Nat.le_trans (by decide) low, high⟩
  · exact ⟨low, Nat.le_trans high (by decide)⟩
  · decide

theorem of_isNameChar {c : Char} (letter : isNameChar c = true) : InWord c ∧ c.toNat < 128 := by
  obtain ⟨low, high⟩ := toNat_of_isNameChar letter
  refine ⟨⟨?_, ?_, ?_⟩, Nat.lt_of_le_of_lt high (by decide)⟩
  · rintro rfl
    exact absurd low (by decide)
  · rintro rfl
    exact absurd low (by decide)
  · simp only [isBlank]
    rw [if_pos (by omega)]
    simp only [Bool.or_eq_false_iff, Bool.and_eq_false_iff, decide_eq_false_iff_not]
    omega

theorem isWord_of_isNameChar {c : Char} (letter : isNameChar c = true) : isWord c = true := by
  have ascii := (of_isNameChar letter).2
  rw [isWord, if_pos ascii]
  exact letter

/-- A head's characters are ASCII, and none is a parenthesis or a blank. -/
theorem of_mem_text {head : Head} (identifiers : ∀ kind ∈ head.kinds, isIdentifier kind.toList = true)
    {c : Char} (member : c ∈ head.text.toList) : InWord c ∧ c.toNat < 128 := by
  have marks : ∀ c ∈ ['^', '|', '+', '*', '?', '!'], InWord c ∧ c.toNat < 128 := by
    intro c member
    simp only [List.mem_cons, List.not_mem_nil, or_false] at member
    rcases member with rfl | rfl | rfl | rfl | rfl | rfl <;> decide
  have named : ∀ name ∈ head.kinds.map String.toList, isIdentifier name = true := by
    simpa using identifiers
  rw [Head.toList_text, List.mem_append, List.mem_append] at member
  rcases member with (inCaret | inName) | inMark
  · exact marks c (by cases recursive : head.recursive <;> simp_all)
  · rcases mem_intercalate_names named inName with rfl | letter
    · exact marks _ (by decide)
    · exact of_isNameChar letter
  · exact marks c (by cases quantifier : head.quantifier <;> simp_all [Quantifier.mark])

/-! ### Reading the written form -/

theorem tokens_append_blanks {blanks : List Char} (areBlanks : ∀ c ∈ blanks, isBlank c = true)
    (rest : List Char) : tokens (blanks ++ rest) = tokens rest := by
  induction blanks with
  | nil => rfl
  | cons c blanks ih =>
      obtain ⟨isBlank, others⟩ := List.forall_mem_cons.mp areBlanks
      rw [List.cons_append, tokens_blank isBlank, ih others]

/-- A written head in front of its children or of the closing parenthesis is one token, or none. -/
theorem tokens_text_append {head : Head}
    (identifiers : ∀ kind ∈ head.kinds, isIdentifier kind.toList = true)
    {rest : List Char} (ends : ∀ c ∈ rest.head?, ¬ InWord c) :
    tokens (head.text.toList ++ rest) = wordToken head.text.toList.reverse ++ tokens rest := by
  rw [tokens, tokensFrom_append fun c member => (of_mem_text identifiers member).1, List.append_nil,
    tokensFrom_of_end ends]

mutual

theorem tokens_renderChars : ∀ (pattern : Pattern) (indent : Int) (rest : List Char),
    pattern.WellSpelled → tokens (renderChars indent pattern ++ rest)
      = pattern.writtenTokens ++ tokens rest
  | node head children, indent, rest, spelled => by
      obtain ⟨identifiers, below⟩ := wellSpelled_node_iff.mp spelled
      have ends : ∀ c ∈ (renderChildren (indent + 1) children ++ ')' :: rest).head?, ¬ InWord c := by
        cases children with
        | nil => simp [renderChildren, InWord]
        | cons first others =>
            simp only [renderChildren, List.cons_append, List.head?_cons, Option.mem_some_iff]
            rintro _ rfl
            decide
      have blanks : ∀ c ∈ List.replicate indent.toNat ' ', isBlank c = true := by
        intro c member
        rw [List.eq_of_mem_replicate member]
        decide
      rw [renderChars, writtenTokens]
      simp only [List.append_assoc, List.cons_append, List.nil_append]
      rw [tokens_append_blanks blanks, tokens_opening, tokens_text_append identifiers ends,
        tokens_renderChildren children _ _ below, tokens_closing]

theorem tokens_renderChildren : ∀ (patterns : List Pattern) (indent : Int) (rest : List Char),
    (∀ pattern ∈ patterns, pattern.WellSpelled) →
      tokens (renderChildren indent patterns ++ rest) = writtenTokensOfList patterns ++ tokens rest
  | [], _, _, _ => rfl
  | first :: others, indent, rest, spelled => by
      rw [List.forall_mem_cons] at spelled
      rw [renderChildren, writtenTokensOfList]
      simp only [List.append_assoc, List.cons_append]
      rw [tokens_blank (by decide), tokens_renderChars first _ _ spelled.1,
        tokens_renderChildren others _ _ spelled.2]

end

mutual

/-- The tokens of a written pattern in front of others derive it in front of what the others derive. -/
theorem derives_writtenTokens : ∀ (pattern : Pattern) {given : List Token} {patterns : List Pattern},
    pattern.WellSpelled → Derives [] given patterns →
      Derives [] (pattern.writtenTokens ++ given) (pattern :: patterns)
  | node head children, given, patterns, spelled, later => by
      obtain ⟨identifiers, below⟩ := wellSpelled_node_iff.mp spelled
      have inner := derives_writtenTokensOfList children below
      have spells : SpellsHead head.text.toList head := ⟨identifiers, head.toList_text⟩
      rw [writtenTokens]
      cases isText : head.text.toList with
      | nil =>
          -- Only the head for any kind that is no more than that is written as nothing.
          rw [isText, ← readHead?_eq_some_iff] at spells
          obtain rfl : Head.any = head := Option.some.inj spells
          simpa [wordToken] using Derives.bare inner later
      | cons c word =>
          rw [isText] at spells
          simpa [wordToken] using Derives.headed spells inner later

theorem derives_writtenTokensOfList : ∀ (patterns : List Pattern),
    (∀ pattern ∈ patterns, pattern.WellSpelled) → Derives [] (writtenTokensOfList patterns) patterns
  | [], _ => .nothing
  | first :: others, spelled => by
      rw [List.forall_mem_cons] at spelled
      exact derives_writtenTokens first spelled.1 (derives_writtenTokensOfList others spelled.2)

end

mutual

theorem ascii_renderChars : ∀ (pattern : Pattern) (indent : Int), pattern.WellSpelled →
    ∀ c ∈ renderChars indent pattern, c.toNat < 128
  | node head children, indent, spelled => by
      obtain ⟨identifiers, below⟩ := wellSpelled_node_iff.mp spelled
      have inChildren := ascii_renderChildren children (indent + 1) below
      rw [renderChars]
      intro c member
      simp only [List.mem_append, List.mem_cons, List.mem_replicate, List.not_mem_nil, or_false] at member
      rcases member with ((⟨_, rfl⟩ | rfl | inHead) | inside) | rfl
      · decide
      · decide
      · exact (of_mem_text identifiers inHead).2
      · exact inChildren c inside
      · decide

theorem ascii_renderChildren : ∀ (patterns : List Pattern) (indent : Int),
    (∀ pattern ∈ patterns, pattern.WellSpelled) →
      ∀ c ∈ renderChildren indent patterns, c.toNat < 128
  | [], _, _ => by simp [renderChildren]
  | first :: others, indent, spelled => by
      rw [List.forall_mem_cons] at spelled
      have inFirst := ascii_renderChars first indent spelled.1
      have inOthers := ascii_renderChildren others indent spelled.2
      rw [renderChildren]
      intro c member
      rcases List.mem_append.mp member with front | later
      · rcases List.mem_cons.mp front with rfl | front
        · decide
        · exact inFirst c front
      · exact inOthers c later

end

/-- The tokens of written patterns with blanks between them. -/
theorem tokens_intercalate {patterns : List Pattern}
    (spelled : ∀ pattern ∈ patterns, pattern.WellSpelled)
    {gap : List Char} (blanks : ∀ c ∈ gap, isBlank c = true) (indent : Int) :
    tokens (gap.intercalate (patterns.map (renderChars indent))) = writtenTokensOfList patterns := by
  induction patterns with
  | nil => rfl
  | cons first others ih =>
      obtain ⟨firstSpelled, othersSpelled⟩ := List.forall_mem_cons.mp spelled
      rw [writtenTokensOfList, ← ih othersSpelled]
      cases others with
      | nil =>
          have alone := tokens_renderChars first indent [] firstSpelled
          rw [List.append_nil] at alone
          rw [List.map_singleton, List.intercalate_singleton, alone]
          rfl
      | cons second others =>
          rw [List.map_cons, List.map_cons, List.intercalate_cons_cons, List.append_assoc,
            tokens_renderChars first _ _ firstSpelled, tokens_append_blanks blanks]

/-- The written forms of patterns with identifiers for kinds, with ASCII blanks between them, spell the
patterns, if these are closed. -/
theorem spells_intercalate {patterns : List Pattern}
    (spelled : ∀ pattern ∈ patterns, pattern.WellSpelled)
    (closed : ∀ pattern ∈ patterns, pattern.Closed) {gap : String}
    (blanks : ∀ c ∈ gap.toList, isBlank c = true ∧ c.toNat < 128) (indent : Int) :
    Spells [] (gap.intercalate (patterns.map (render · indent))) patterns := by
  have characters : (gap.intercalate (patterns.map (render · indent))).toList
      = gap.toList.intercalate (patterns.map (renderChars indent)) := by
    simp [String.toList_intercalate, render, Function.comp_def]
  refine ⟨?_, ⟨_, tokenized_iff.mpr ?_, derives_writtenTokensOfList patterns spelled⟩, closed⟩
  · rw [characters]
    refine forall_mem_intercalate (fun c member => (blanks c member).2) ?_
    rw [List.forall_mem_map]
    intro pattern member
    exact ascii_renderChars pattern indent (spelled pattern member)
  · rw [characters, tokens_intercalate spelled (fun c member => (blanks c member).1)]

/-- The written form of a pattern with identifiers for kinds spells the pattern, if it is closed. -/
theorem spells_render {pattern : Pattern} (spelled : pattern.WellSpelled) (closed : pattern.Closed)
    (indent : Int) : Spells [] (pattern.render indent) [pattern] := by
  have alone : Spells [] (String.intercalate "" ([pattern].map (render · indent))) [pattern] :=
    spells_intercalate (by simpa using spelled) (by simpa using closed) (by simp) indent
  simpa using alone

/-- A pattern that was read is read back from its written form with any indent, without fragments, so that
patterns that were read and have a written form in common are the same. -/
theorem FromText.parse_render {pattern : Pattern} (fromText : pattern.FromText) (indent : Int) :
    parse (pattern.render indent) [] = .ok pattern ∧
    ∀ (other : Pattern) (otherIndent : Int), other.FromText →
      other.render otherIndent = pattern.render indent → other = pattern := by
  have readBack : ∀ {pattern : Pattern}, pattern.FromText → ∀ indent,
      parse (pattern.render indent) [] = .ok pattern := by
    intro pattern fromText indent
    exact parse_eq_ok_iff.mpr (spells_render fromText.wellSpelled fromText.closed indent).parseFragment_eq
  refine ⟨readBack fromText indent, ?_⟩
  intro other otherIndent otherFromText same
  have both := readBack otherFromText otherIndent
  rw [same, readBack fromText indent] at both
  exact (Except.ok.inj both).symm

/-- A recursive pattern for any kinds, with an alternative for any kind among its children and a spliced
run that ends with one. -/
def namelessHeads : Pattern :=
  .node ⟨[], .oneOrMore, true⟩
    [.node ⟨[], .alternative, false⟩ [], .node Head.any [.node ⟨["a", "b"], .zeroOrOne, false⟩ []],
      .node ⟨["b"], .oneOrMore, false⟩ [], .node ⟨["a"], .alternative, false⟩ [],
      .node ⟨[], .one, true⟩ []]

theorem FromText.parse_render_namelessHeads :
    namelessHeads.FromText ∧
    namelessHeads.render 2
      = "  (^+\n   (!)\n   (\n    (a|b?))\n   (b+)\n   (a!)\n   (^))" ∧
    parse (namelessHeads.render 2) [] = .ok namelessHeads ∧
    ∀ (other : Pattern) (otherIndent : Int), other.FromText →
      other.render otherIndent = namelessHeads.render 2 → other = namelessHeads := by
  have run : parseFragment "(b+) (a!)" []
      = .ok [.node ⟨["b"], .oneOrMore, false⟩ [], .node ⟨["a"], .alternative, false⟩ []] := by rfl
  have runRead : Fragments.Read
      [("run", [.node ⟨["b"], .oneOrMore, false⟩ [], .node ⟨["a"], .alternative, false⟩ []])] :=
    .run .nothing .nothing run
  have fromText : namelessHeads.FromText :=
    ⟨_, "(^+ (!) ((a|b?)) @run (^))", runRead, by rfl⟩
  have readBack := FromText.parse_render fromText 2
  exact ⟨fromText, by decide +kernel, readBack.1, readBack.2⟩

end HeaderBindings.Pattern
