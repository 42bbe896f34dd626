/-
Module: HeaderBindings.Proofs.ComposedPatterns
Purpose: Which names a composed pattern may have, and which composed patterns are read back from their
  written forms.
Main exports: Pattern.PartFromText, Pattern.IsName, Pattern.IsOpenName, Pattern.compose_cases,
  Pattern.compose_reads_back_iff
-/
import HeaderBindings.Pattern.Compose
import HeaderBindings.Proofs.PatternRoundTrip

namespace HeaderBindings

open Text

theorem Text.mem_intercalate_of_mem {separator part : List Char} {parts : List (List Char)} {c : Char}
    (isPart : part ∈ parts) (member : c ∈ part) : c ∈ separator.intercalate parts := by
  induction parts with
  | nil => cases isPart
  | cons first rest ih =>
      cases rest with
      | nil =>
          rw [List.mem_singleton.mp isPart] at member
          rwa [List.intercalate_singleton]
      | cons second others =>
          rw [List.intercalate_cons_cons, List.mem_append, List.mem_append]
          rcases List.mem_cons.mp isPart with rfl | later
          · exact Or.inl (Or.inl member)
          · exact Or.inr (ih later)

/-- The kinds that a name is made of, with bars between them, are the name. -/
theorem Head.intercalate_kindsOfName (name : List Char) :
    List.intercalate ['|'] ((kindsOfName name).map String.toList) = name := by
  unfold kindsOfName
  split
  · rename_i empty
    rw [List.isEmpty_iff.mp empty]
    rfl
  · rw [List.map_map, List.map_congr_left (g := id) (by simp), List.map_id, splitAtMark_eq_splitOn,
      List.intercalate_splitOn]

namespace Pattern

/-! ### Names -/

/-- A name of the pattern language: identifiers of ASCII characters with bars between them, or nothing. -/
def IsName (name : String) : Prop :=
  ∃ kinds : List String, (∀ kind ∈ kinds, isIdentifier kind.toList = true) ∧
    name = String.intercalate "|" kinds

/-- A name that a composed pattern may have: nothing, or parts with bars between them, each of which
begins as an identifier does and goes on with word characters of any script; a line feed may follow the
last one. -/
def IsOpenName (name : String) : Prop :=
  name = "" ∨ ∃ kinds : List String,
    kinds ≠ [] ∧ (∀ kind ∈ kinds, isComposedKind kind.toList = true) ∧
    (name = String.intercalate "|" kinds ∨ name = String.intercalate "|" kinds ++ "\n")

variable {name : String} {kinds : List String} {c : Char}

theorem toList_intercalate_bars (kinds : List String) : (String.intercalate "|" kinds).toList
    = List.intercalate ['|'] (kinds.map String.toList) := by
  simp [String.toList_intercalate]

theorem isName_iff : IsName name ↔
    ∀ kind ∈ Head.kindsOfName name.toList, isIdentifier kind.toList = true := by
  constructor
  · rintro ⟨kinds, identifiers, rfl⟩
    rwa [toList_intercalate_bars, kindsOfName_intercalate identifiers]
  · intro identifiers
    refine ⟨_, identifiers, ?_⟩
    rw [← String.toList_inj, toList_intercalate_bars, Head.intercalate_kindsOfName]

instance (name : String) : Decidable (IsName name) := decidable_of_iff _ isName_iff.symm

/-- The characters of ASCII that a word may have are those that an identifier may have. -/
theorem isWord_eq_isNameChar (ascii : c.toNat < 128) : isWord c = isNameChar c := by
  rw [isWord, if_pos ascii, isNameChar]

theorem isWord_of_mem_composedKind {kind : List Char} (composed : isComposedKind kind = true)
    (member : c ∈ kind) : isWord c = true := by
  cases kind with
  | nil => cases member
  | cons first rest =>
      obtain ⟨starts, continues⟩ := Bool.and_eq_true_iff.mp composed
      rcases List.mem_cons.mp member with rfl | later
      · exact isWord_of_isNameChar (isNameChar_of_isIdentifierStart starts)
      · exact List.all_eq_true.mp continues c later

/-- A part of a composed name is an identifier if all of its characters are ASCII. -/
theorem isIdentifier_iff_of_composedKind {kind : List Char} :
    isIdentifier kind = true ↔ isComposedKind kind = true ∧ ∀ c ∈ kind, c.toNat < 128 := by
  cases kind with
  | nil => simp [isIdentifier, isComposedKind]
  | cons first rest =>
      constructor
      · intro identifier
        have letters := fun c member => isNameChar_of_mem_identifier identifier (c := c) member
        obtain ⟨starts, continues⟩ := Bool.and_eq_true_iff.mp identifier
        refine ⟨Bool.and_eq_true_iff.mpr ⟨starts, List.all_eq_true.mpr ?_⟩,
          fun c member => (of_isNameChar (letters c member)).2⟩
        exact fun c later => isWord_of_isNameChar (List.all_eq_true.mp continues c later)
      · rintro ⟨composed, ascii⟩
        obtain ⟨starts, continues⟩ := Bool.and_eq_true_iff.mp composed
        refine Bool.and_eq_true_iff.mpr ⟨starts, List.all_eq_true.mpr fun c later => ?_⟩
        rw [← isWord_eq_isNameChar (ascii c (List.mem_cons_of_mem _ later))]
        exact List.all_eq_true.mp continues c later

/-- Neither a bar nor a line feed is a word character. -/
theorem not_mem_composedKind {mark : Char} (isMark : isWord mark = false) {kind : List Char}
    (composed : isComposedKind kind = true) : mark ∉ kind := by
  intro member
  rw [isWord_of_mem_composedKind composed member] at isMark
  cases isMark

theorem lineFeed_not_mem_composedName (composed : ∀ kind ∈ kinds, isComposedKind kind.toList = true) :
    '\n' ∉ List.intercalate ['|'] (kinds.map String.toList) := by
  have noLineFeed : ∀ c ∈ List.intercalate ['|'] (kinds.map String.toList), c ≠ '\n' := by
    refine forall_mem_intercalate (List.forall_mem_singleton.mpr (by decide)) ?_
    simp only [List.forall_mem_map]
    rintro kind isKind c member rfl
    exact not_mem_composedKind (by decide) (composed kind isKind) member
  exact fun member => noLineFeed _ member rfl

theorem splitAtMark_composedName (some_ : kinds ≠ [])
    (composed : ∀ kind ∈ kinds, isComposedKind kind.toList = true) :
    splitAtMark '|' (List.intercalate ['|'] (kinds.map String.toList)) = kinds.map String.toList :=
  splitAtMark_intercalate some_ fun kind isKind =>
    not_mem_composedKind (by decide) (composed kind isKind)

/-- The test on names lets through the names that a composed pattern may have, and no others. -/
theorem isComposedName_iff : isComposedName name.toList = true ↔ IsOpenName name := by
  unfold isComposedName
  dsimp only
  rw [Bool.or_eq_true, List.isEmpty_iff, String.toList_eq_nil_iff, IsOpenName]
  refine or_congr_right ⟨?_, ?_⟩
  · intro composed
    refine ⟨(splitAtMark '|' _).map String.ofList, ?_, by simpa using composed, ?_⟩
    · simp [splitAtMark_eq_splitOn]
    · have joined : ∀ body : List Char,
          String.intercalate "|" ((splitAtMark '|' body).map String.ofList) = String.ofList body := by
        intro body
        apply String.ext
        rw [toList_intercalate_bars, List.map_map, List.map_congr_left (g := id) (by simp), List.map_id,
          splitAtMark_eq_splitOn, List.intercalate_splitOn, String.toList_ofList]
      rw [joined]
      split
      · rename_i lineFeed
        obtain ⟨body, isBody⟩ := List.getLast?_eq_some_iff.mp lineFeed
        exact Or.inr (String.ext (by simp [isBody]))
      · exact Or.inl String.ofList_toList.symm
  · rintro ⟨kinds, some_, composed, rfl | rfl⟩
    · have noLineFeed := lineFeed_not_mem_composedName composed
      rw [toList_intercalate_bars, if_neg, splitAtMark_composedName some_ composed]
      · simpa using composed
      · rw [beq_iff_eq]
        exact fun isLast => noLineFeed (List.mem_of_getLast? isLast)
    · rw [String.toList_append, toList_intercalate_bars]
      have isLineFeed : "\n".toList = ['\n'] := rfl
      rw [isLineFeed, List.getLast?_concat, if_pos (by simp), List.dropLast_concat,
        splitAtMark_composedName some_ composed]
      simpa using composed

/-- The names of the language are those names of composed patterns that are ASCII and do not end with a line
feed. -/
theorem isName_iff_of_openName : IsName name ↔
    IsOpenName name ∧ (∀ c ∈ name.toList, c.toNat < 128) ∧ name.toList.getLast? ≠ some '\n' := by
  constructor
  · rintro ⟨kinds, identifiers, rfl⟩
    have parts := fun kind isKind => isIdentifier_iff_of_composedKind.mp (identifiers kind isKind)
    rw [toList_intercalate_bars]
    refine ⟨?_, ?_, ?_⟩
    · by_cases none_ : kinds = []
      · subst none_
        exact Or.inl rfl
      · exact Or.inr ⟨kinds, none_, fun kind isKind => (parts kind isKind).1, Or.inl rfl⟩
    · refine forall_mem_intercalate (List.forall_mem_singleton.mpr (by decide)) ?_
      simpa only [List.forall_mem_map] using fun kind isKind => (parts kind isKind).2
    · exact fun isLast => lineFeed_not_mem_composedName (fun kind isKind => (parts kind isKind).1)
        (List.mem_of_getLast? isLast)
  · rintro ⟨rfl | ⟨kinds, _, composed, rfl | rfl⟩, ascii, noLineFeed⟩
    · exact ⟨[], by simp, rfl⟩
    · refine ⟨kinds, fun kind isKind =>
        isIdentifier_iff_of_composedKind.mpr ⟨composed kind isKind, ?_⟩, rfl⟩
      intro c member
      apply ascii
      rw [toList_intercalate_bars]
      exact mem_intercalate_of_mem (List.mem_map_of_mem isKind) member
    · refine absurd ?_ noLineFeed
      rw [String.toList_append]
      exact List.getLast?_concat

/-! ### Composed patterns -/

/-- A part of a composed pattern that was read, with fragments that were read: one pattern, or a run of
siblings. -/
inductive PartFromText : List Pattern → Prop where
  | pattern {pattern : Pattern} (fromText : pattern.FromText) : PartFromText [pattern]
  | run {fragments : Fragments} {text : String} {patterns : List Pattern} (read : fragments.Read)
      (parsed : parseFragment text fragments = .ok patterns) : PartFromText patterns

theorem PartFromText.wellSpelled {part : List Pattern} (fromText : PartFromText part) :
    ∀ pattern ∈ part, pattern.WellSpelled := by
  cases fromText with
  | pattern fromText => simpa using fromText.wellSpelled
  | run read parsed => exact wellSpelled_of_parseFragment read.wellSpelled read parsed

theorem PartFromText.closed {part : List Pattern} (fromText : PartFromText part) :
    ∀ pattern ∈ part, pattern.Closed := by
  cases fromText with
  | pattern fromText => simpa using fromText.closed
  | run read parsed => exact closed_of_parseFragment read.closed parsed

variable {parts : List (List Pattern)} {quantifier : Quantifier} {pattern : Pattern}

/-- Composing fails for a name that no composed pattern may have, or for an alternative at the end of
the last part that has any pattern; else its result is the pattern over the parts. -/
theorem compose_cases (name : String) (parts : List (List Pattern)) (quantifier : Quantifier) :
    let composed := node ⟨Head.kindsOfName name.toList, quantifier, false⟩ parts.flatten
    ¬ IsOpenName name ∧ compose name parts quantifier
      = .error ⟨.invalidName name, composed.render 0⟩ ∨
    IsOpenName name ∧ endsOpen parts.flatten = true ∧
      compose name parts quantifier = .error ⟨.danglingAlternative name, composed.render 0⟩ ∨
    IsOpenName name ∧ endsOpen parts.flatten = false ∧ compose name parts quantifier = .ok composed := by
  intro composed
  have isName : composed.head.name = name := by
    rw [← String.toList_inj, Head.name, toList_intercalate_bars]
    exact Head.intercalate_kindsOfName _
  have result : compose name parts quantifier =
      if !isComposedName name.toList then .error ⟨.invalidName name, composed.render 0⟩
      else if endsOpen parts.flatten then
        .error ⟨.danglingAlternative composed.head.name, composed.render 0⟩
      else .ok composed := rfl
  rw [result, isName]
  by_cases isOpen : IsOpenName name
  · rw [isComposedName_iff.mpr isOpen]
    cases ends : endsOpen parts.flatten with
    | true => exact Or.inr (Or.inl ⟨isOpen, rfl, rfl⟩)
    | false => exact Or.inr (Or.inr ⟨isOpen, rfl, rfl⟩)
  · have fails : isComposedName name.toList = false :=
      Bool.eq_false_iff.mpr fun passes => isOpen (isComposedName_iff.mp passes)
    rw [fails]
    exact Or.inl ⟨isOpen, rfl⟩

/-- A pattern over parts that were read is read back exactly if its name is one of the language. -/
theorem parse_render_iff_isName (fromText : ∀ part ∈ parts, PartFromText part)
    (closable : endsOpen parts.flatten = false) (indent : Int) :
    let composed := node ⟨Head.kindsOfName name.toList, quantifier, false⟩ parts.flatten
    parse (composed.render indent) [] = .ok composed ↔ IsName name := by
  intro composed
  rw [isName_iff]
  constructor
  · intro readBack
    have read : composed.FromText := ⟨[], _, .nothing, readBack⟩
    exact (wellSpelled_node_iff.mp read.wellSpelled).1
  · intro identifiers
    have spelled : composed.WellSpelled := wellSpelled_node_iff.mpr ⟨identifiers,
      List.forall_mem_flatten.mpr fun part isPart => (fromText part isPart).wellSpelled⟩
    have closed : composed.Closed := closed_node_iff.mpr ⟨closable,
      List.forall_mem_flatten.mpr fun part isPart => (fromText part isPart).closed⟩
    exact parse_eq_ok_iff.mpr (spells_render spelled closed indent).parseFragment_eq

/-- With parts that were read, composing returns a pattern exactly if its name may be one of a composed
pattern and the parts do not end with an alternative, and reports every other name. What it returns is read
back from its written form, with any indent, exactly if its name is one of the language; of the names that it
may have, those that are not are the ones with a character beyond ASCII or with a line feed at the end. -/
theorem compose_reads_back_iff (fromText : ∀ part ∈ parts, PartFromText part) (name : String)
    (quantifier : Quantifier) :
    ((∃ pattern, compose name parts quantifier = .ok pattern) ↔
      IsOpenName name ∧ endsOpen parts.flatten = false) ∧
    (¬ IsOpenName name ↔ ∃ text,
      compose name parts quantifier = .error ⟨.invalidName name, text⟩) ∧
    (∀ pattern, compose name parts quantifier = .ok pattern → ∀ indent,
      (parse (pattern.render indent) [] = .ok pattern ↔ IsName name)) ∧
    (IsName name ↔
      IsOpenName name ∧ (∀ c ∈ name.toList, c.toNat < 128) ∧
        name.toList.getLast? ≠ some '\n') := by
  rw [← and_assoc, ← and_assoc]
  refine ⟨?_, isName_iff_of_openName⟩
  rcases compose_cases name parts quantifier with ⟨closed, result⟩ | ⟨isOpen, ends, result⟩ |
    ⟨isOpen, ends, result⟩
  · simp [result, closed]
  · simp [result, isOpen, ends]
  · refine ⟨by simp [result, isOpen, ends], fun pattern returned indent => ?_⟩
    obtain rfl := Except.ok.inj (result.symm.trans returned)
    exact parse_render_iff_isName fromText ends indent

/-- A recursive pattern with a run spliced into it, the run itself, which ends with an alternative, and a
pattern after it. -/
def openParts : List (List Pattern) :=
  [[.node ⟨[], .one, true⟩
      [.node ⟨["b"], .oneOrMore, false⟩ [], .node ⟨["a"], .alternative, false⟩ [],
        .node ⟨["c", "d"], .one, false⟩ []]],
    [.node ⟨["b"], .oneOrMore, false⟩ [], .node ⟨["a"], .alternative, false⟩ []],
    [.node Head.any []]]

/-- The run may end with an alternative where a part follows that has a pattern; a name with a blank in it is
reported. -/
theorem compose_reads_back_iff_openParts :
    (∀ part ∈ openParts, PartFromText part) ∧ IsName "a|_b1" ∧
    (∃ pattern, compose "a|_b1" openParts .zeroOrMore = .ok pattern ∧
      parse (pattern.render 1) [] = .ok pattern) ∧
    ¬ IsOpenName "a b" ∧ ∃ text,
      compose "a b" openParts .one = .error ⟨.invalidName "a b", text⟩ := by
  have whole : parse "(^ @run (c|d))" openRun = .ok (.node ⟨[], .one, true⟩
      [.node ⟨["b"], .oneOrMore, false⟩ [], .node ⟨["a"], .alternative, false⟩ [],
        .node ⟨["c", "d"], .one, false⟩ []]) := by rfl
  have run : parseFragment "@run" openRun
      = .ok [.node ⟨["b"], .oneOrMore, false⟩ [], .node ⟨["a"], .alternative, false⟩ []] := by rfl
  have last : parseFragment "()" [] = .ok [.node Head.any []] := by rfl
  have fromText : ∀ part ∈ openParts, PartFromText part :=
    List.forall_mem_cons.mpr ⟨.pattern ⟨_, _, read_openRun, whole⟩, List.forall_mem_cons.mpr
      ⟨.run read_openRun run, List.forall_mem_singleton.mpr (.run .nothing last)⟩⟩
  obtain ⟨returns, _, readsBack, names⟩ := compose_reads_back_iff fromText "a|_b1" .zeroOrMore
  obtain ⟨_, reports, _⟩ := compose_reads_back_iff fromText "a b" .one
  have isName : IsName "a|_b1" := by decide
  have noName : ¬ IsOpenName "a b" := by
    rw [← isComposedName_iff]
    decide
  obtain ⟨pattern, returned⟩ := returns.mpr ⟨(names.mp isName).1, by rfl⟩
  exact ⟨fromText, isName, ⟨pattern, returned, (readsBack pattern returned 1).mpr isName⟩, noName,
    reports.mp noName⟩

/-- Composing lets through a letter beyond ASCII, though no text with it is read, and a line feed after the
name, without which the written form is read back. -/
theorem composed_not_read_back :
    (¬ IsName "a\u00e9" ∧ compose "a\u00e9" [] .one = .ok (.node ⟨["a\u00e9"], .one, false⟩ []) ∧
      parse (render (.node ⟨["a\u00e9"], .one, false⟩ []) 0) []
        = .error ⟨.nonAscii '\u00e9', "(a\u00e9)"⟩) ∧
    ¬ IsName "a\n" ∧ compose "a\n" [] .one = .ok (.node ⟨["a\n"], .one, false⟩ []) ∧
    parse (render (.node ⟨["a\n"], .one, false⟩ []) 0) [] = .ok (.node ⟨["a"], .one, false⟩ []) :=
  ⟨⟨by decide, by rfl, by rfl⟩, by decide, by rfl, by rfl⟩

end Pattern

end HeaderBindings
