/-
Module: HeaderBindings.Proofs.NameSpellings
Purpose: A bound name is a normal form: texts that differ only in underscores around them and in the lengths
  of runs of underscores are bound alike, no others are, and a bound name is bound as itself.
Main exports: Spelling.LosesUnderscore, Spelling.Respelled, Spelling.respelled_bindingChars,
  Spelling.bindingChars_eq_iff, Spelling.declaredName_eq_some_iff, Spelling.bindingName_normal
-/
import Mathlib.Logic.Relation
import HeaderBindings.Binding.Enumeration
import HeaderBindings.Binding.Record
import HeaderBindings.Binding.Simple
import HeaderBindings.Proofs.FieldCaptures
import HeaderBindings.Proofs.UnreadableTexts
import HeaderBindings.Proofs.WrappedTexts

namespace HeaderBindings.Spelling

open Relation Text

/-! ### Spellings of a name -/

/-- A text loses one underscore: at its start, at its end, or in a run of underscores, of which one is
left. -/
inductive LosesUnderscore : List Char → List Char → Prop where
  | front (text : List Char) : LosesUnderscore ('_' :: text) text
  | back (text : List Char) : LosesUnderscore (text ++ ['_']) text
  | run (before after : List Char) :
      LosesUnderscore (before ++ '_' :: '_' :: after) (before ++ '_' :: after)

/-- Two texts differ only in the underscores around them, and in how many underscores stand in a row where
there are some. -/
def Respelled : List Char → List Char → Prop := EqvGen LosesUnderscore

namespace Respelled

variable {text other third : List Char}

theorem refl (text : List Char) : Respelled text text := EqvGen.refl text

theorem symm (same : Respelled text other) : Respelled other text := EqvGen.symm _ _ same

theorem trans (first : Respelled text other) (second : Respelled other third) : Respelled text third :=
  EqvGen.trans _ _ _ first second

theorem of_loses (loses : LosesUnderscore text other) : Respelled text other := EqvGen.rel _ _ loses

theorem append_front {underscores : List Char} (are : ∀ c ∈ underscores, c = '_') :
    Respelled (underscores ++ text) text := by
  induction underscores with
  | nil => exact refl text
  | cons c rest ih =>
      rw [List.forall_mem_cons] at are
      obtain ⟨rfl, are⟩ := are
      exact (of_loses (.front _)).trans (ih are)

theorem append_back {underscores : List Char} (are : ∀ c ∈ underscores, c = '_') :
    Respelled (text ++ underscores) text := by
  induction underscores using List.reverseRecOn with
  | nil =>
      rw [List.append_nil]
      exact refl text
  | append_singleton rest c ih =>
      obtain rfl : c = '_' := are c (by simp)
      rw [← List.append_assoc]
      exact (of_loses (.back _)).trans (ih fun d member => are d (List.mem_append_left _ member))

/-- A blank is no underscore, so no spelling gains or loses one. -/
theorem mem_iff {c : Char} (letter : c ≠ '_') (same : Respelled text other) : c ∈ text ↔
    c ∈ other := by
  induction same with
  | rel _ _ loses => cases loses <;> simp [letter]
  | refl => exact Iff.rfl
  | symm _ _ _ ih => exact ih.symm
  | trans _ _ _ _ _ first second => exact first.trans second

end Respelled

/-! ### Underscores around a text -/

section

variable {test : Char → Bool} {front back text : List Char}

theorem dropEndWhile_append_of_back (pass : ∀ c ∈ back, test c = true) :
    dropEndWhile test (front ++ back) = dropEndWhile test front := by
  rw [dropEndWhile, List.reverse_append,
    List.dropWhile_append_of_pos fun c member => pass c (List.mem_reverse.mp member), ← dropEndWhile]

theorem dropEndWhile_append (front : List Char) (kept : dropEndWhile test back ≠ []) :
    dropEndWhile test (front ++ back) = front ++ dropEndWhile test back := by
  have nonempty : (back.reverse.dropWhile test).isEmpty = false := by
    simpa [dropEndWhile] using kept
  rw [dropEndWhile, List.reverse_append, List.dropWhile_append, nonempty]
  simp [dropEndWhile]

theorem stripUnderscores_append_of_front (are : ∀ c ∈ front, c = '_') :
    stripUnderscores (front ++ back) = stripUnderscores back := by
  rw [stripUnderscores, List.dropWhile_append_of_pos fun c member => beq_iff_eq.mpr (are c member),
    ← stripUnderscores]

theorem stripUnderscores_append_of_back (are : ∀ c ∈ back, c = '_') :
    stripUnderscores (front ++ back) = stripUnderscores front := by
  have pass : ∀ c ∈ back, (c == '_') = true := fun c member => beq_iff_eq.mpr (are c member)
  rw [stripUnderscores, List.dropWhile_append, stripUnderscores]
  split
  · rename_i nothing
    rw [List.isEmpty_iff.mp nothing, List.dropWhile_eq_nil_iff.mpr pass]
  · exact dropEndWhile_append_of_back pass

/-- Between two letters everything is kept. -/
theorem stripUnderscores_append (letterBefore : ∃ c ∈ front, c ≠ '_')
    (letterAfter : ∃ c ∈ back, c ≠ '_') :
    stripUnderscores (front ++ back)
      = front.dropWhile (· == '_') ++ dropEndWhile (· == '_') back := by
  have nonempty : (front.dropWhile (· == '_')).isEmpty = false := by
    simpa [List.dropWhile_eq_nil_iff] using letterBefore
  have kept : dropEndWhile (· == '_') back ≠ [] := by
    simpa [dropEndWhile, List.dropWhile_eq_nil_iff] using letterAfter
  rw [stripUnderscores, List.dropWhile_append, nonempty, if_neg Bool.false_ne_true,
    dropEndWhile_append _ kept]

/-- Underscores are taken off a text at both ends, up to its first letter and behind its last one. -/
theorem exists_stripUnderscores (text : List Char) :
    ∃ before after, (∀ c ∈ before, c = '_') ∧ (∀ c ∈ after, c = '_') ∧
      text = before ++ (stripUnderscores text ++ after) ∧
      (stripUnderscores text).getLast? ≠ some '_' := by
  obtain ⟨before, core, after, parts, areBefore, areAfter, first, last⟩ :=
    exists_trimmed (· == '_') text
  have underscores : ∀ {run : List Char}, (∀ c ∈ run, (c == '_') = true) → ∀ c ∈ run, c = '_' :=
    fun are c member => beq_iff_eq.mp (are c member)
  have noFirst : core.dropWhile (· == '_') = core := by
    cases core with
    | nil => rfl
    | cons c rest => rw [List.dropWhile_cons_of_neg (by simp [first c rfl])]
  have noLast : dropEndWhile (· == '_') core = core := by
    cases reversed : core.reverse with
    | nil =>
        rw [List.reverse_eq_nil_iff.mp reversed]
        rfl
    | cons c rest =>
        have isLast : core.getLast? = some c := by
          rw [← List.head?_reverse, reversed, List.head?_cons]
        rw [dropEndWhile, reversed, List.dropWhile_cons_of_neg (by simp [last c isLast]), ← reversed,
          List.reverse_reverse]
  have isCore : stripUnderscores text = core := by
    rw [parts, stripUnderscores_append_of_front (underscores areBefore),
      stripUnderscores_append_of_back (underscores areAfter), stripUnderscores, noFirst, noLast]
  rw [isCore]
  refine ⟨before, after, underscores areBefore, underscores areAfter, parts, fun isLast => ?_⟩
  exact absurd (last '_' isLast) (by decide)

/-! ### Runs of underscores -/

theorem collapseUnderscores_cons (c : Char) (text : List Char) :
    collapseUnderscores (c :: text)
      = if c = '_' ∧ text.head? = some '_' then collapseUnderscores text
        else c :: collapseUnderscores text := by
  cases text with
  | nil => simp [collapseUnderscores]
  | cons d rest =>
      by_cases both : c = '_' ∧ d = '_'
      · obtain ⟨rfl, rfl⟩ := both
        simp [collapseUnderscores]
      · rw [collapseUnderscores, if_neg (by simpa using both)]
        intro others isUnderscore begins
        exact both ⟨isUnderscore, (List.cons.inj begins).1⟩

theorem collapseUnderscores_run (before after : List Char) :
    collapseUnderscores (before ++ '_' :: '_' :: after) = collapseUnderscores (before ++ '_' :: after) := by
  induction before with
  | nil => simp [collapseUnderscores]
  | cons c rest ih =>
      have head : (rest ++ '_' :: '_' :: after).head? = (rest ++ '_' :: after).head? := by
        cases rest <;> rfl
      rw [List.cons_append, List.cons_append, collapseUnderscores_cons, collapseUnderscores_cons, head, ih]

theorem getLast?_collapseUnderscores (text : List Char) :
    (collapseUnderscores text).getLast? = text.getLast? := by
  induction text with
  | nil => rfl
  | cons c rest ih =>
      rw [collapseUnderscores_cons]
      split
      · rename_i inRun
        cases rest with
        | nil => cases inRun.2
        | cons d others => rw [ih, List.getLast?_cons_cons]
      · rw [List.getLast?_cons, List.getLast?_cons, ih]

/-- No two underscores are left side by side. -/
theorem no_run_collapseUnderscores (text : List Char) : ¬ ['_', '_'] <:+: collapseUnderscores text := by
  induction text with
  | nil => decide
  | cons c rest ih =>
      rw [collapseUnderscores_cons]
      split
      · exact ih
      · rename_i single
        rw [List.infix_cons_iff, not_or]
        refine ⟨fun begins => single ?_, ih⟩
        obtain ⟨isUnderscore, later⟩ := List.cons_prefix_cons.mp begins
        refine ⟨isUnderscore.symm, ?_⟩
        rw [← head?_collapseUnderscores]
        obtain ⟨others, isNext⟩ := later
        rw [← isNext]
        rfl

end

/-! ### Normal forms -/

/-- A text without the underscores around it, and with one underscore for each run of them. -/
def bareName (text : List Char) : List Char := collapseUnderscores (stripUnderscores text)

variable {text other name : List Char}

theorem bindingChars_eq (text : List Char) : bindingChars text
    = if isKeyword (bareName (strip text)) then bareName (strip text) ++ ['_']
      else bareName (strip text) := rfl

theorem getLast?_bareName (text : List Char) : (bareName text).getLast? ≠ some '_' := by
  obtain ⟨_, _, _, _, _, last⟩ := exists_stripUnderscores text
  rwa [bareName, getLast?_collapseUnderscores]

theorem LosesUnderscore.bareName_eq (loses : LosesUnderscore text other) :
    bareName text = bareName other := by
  unfold bareName
  cases loses with
  | front => rw [← List.singleton_append, stripUnderscores_append_of_front (by simp)]
  | back => rw [stripUnderscores_append_of_back (by simp)]
  | run before after =>
      -- The run is at the start of the text, at its end, or between two letters.
      by_cases letterBefore : ∃ c ∈ before, c ≠ '_'
      · by_cases letterAfter : ∃ c ∈ after, c ≠ '_'
        · have kept : dropEndWhile (· == '_') after ≠ [] := by
            simpa [dropEndWhile, List.dropWhile_eq_nil_iff] using letterAfter
          have inside : ∀ run, (∃ c ∈ run ++ after, c ≠ '_') →
              stripUnderscores (before ++ (run ++ after))
              = before.dropWhile (· == '_') ++ (run ++ dropEndWhile (· == '_') after) := by
            intro run letter
            rw [stripUnderscores_append letterBefore letter, dropEndWhile_append run kept]
          have letter : ∀ run, ∃ c ∈ run ++ after, c ≠ '_' := by
            obtain ⟨c, member, letter⟩ := letterAfter
            exact fun run => ⟨c, List.mem_append_right run member, letter⟩
          have two := inside ['_', '_'] (letter _)
          have one := inside ['_'] (letter _)
          simp only [List.cons_append, List.nil_append] at one two
          rw [one, two, collapseUnderscores_run]
        · simp only [not_exists, not_and, not_not] at letterAfter
          rw [stripUnderscores_append_of_back (by simpa using letterAfter),
            stripUnderscores_append_of_back (by simpa using letterAfter)]
      · simp only [not_exists, not_and, not_not] at letterBefore
        have atStart : ∀ run, (∀ c ∈ run, c = '_') →
            stripUnderscores (before ++ (run ++ after)) = stripUnderscores after := by
          intro run are
          rw [stripUnderscores_append_of_front letterBefore, stripUnderscores_append_of_front are]
        have two := atStart ['_', '_'] (by simp)
        have one := atStart ['_'] (by simp)
        simp only [List.cons_append, List.nil_append] at one two
        rw [one, two]

/-- Collapsing runs, whatever stands before them, changes the spelling only. -/
theorem Respelled.of_collapse (before text : List Char) :
    Respelled (before ++ text) (before ++ collapseUnderscores text) := by
  induction text generalizing before with
  | nil => exact refl _
  | cons c rest ih =>
      rw [collapseUnderscores_cons]
      split
      · rename_i inRun
        obtain ⟨rfl, isNext⟩ := inRun
        obtain ⟨others, rfl⟩ := List.head?_eq_some_iff.mp isNext
        exact (of_loses (.run before others)).trans (ih before)
      · rw [List.append_cons before c rest, List.append_cons before c (collapseUnderscores rest)]
        exact ih (before ++ [c])

theorem respelled_bareName (text : List Char) : Respelled text (bareName text) := by
  obtain ⟨before, after, areBefore, areAfter, parts, _⟩ := exists_stripUnderscores text
  have stripped : Respelled text (stripUnderscores text) := by
    conv => lhs; rw [parts]
    exact (Respelled.append_front areBefore).trans (Respelled.append_back areAfter)
  exact stripped.trans (Respelled.of_collapse [] _)

theorem Respelled.bareName_eq (same : Respelled text other) : bareName text = bareName other := by
  induction same with
  | rel _ _ loses => exact loses.bareName_eq
  | refl => rfl
  | symm _ _ _ ih => exact ih.symm
  | trans _ _ _ _ _ first second => exact first.trans second

theorem respelled_bindingChars (text : List Char) : Respelled (strip text) (bindingChars text) := by
  rw [bindingChars_eq]
  split
  · exact (respelled_bareName _).trans (Respelled.of_loses (.back _)).symm
  · exact respelled_bareName _

/-- Two texts are bound alike exactly if, without outer blanks, they are spellings of one name. -/
theorem bindingChars_eq_iff :
    bindingChars text = bindingChars other ↔ Respelled (strip text) (strip other) := by
  constructor
  · intro same
    apply (respelled_bindingChars text).trans
    rw [same]
    exact (respelled_bindingChars other).symm
  · intro same
    rw [bindingChars_eq, bindingChars_eq, same.bareName_eq]

/-- No two underscores of a bound name are side by side: the one that marks a keyword follows a letter. -/
theorem no_run_bindingChars (text : List Char) : ¬ ['_', '_'] <:+: bindingChars text := by
  rw [bindingChars_eq]
  split
  · rw [List.infix_concat_iff, not_or]
    refine ⟨fun atEnd => ?_, no_run_collapseUnderscores _⟩
    obtain ⟨before, ends⟩ := atEnd
    apply getLast?_bareName (strip text)
    have isFront : before ++ ['_'] = bareName (strip text) := by
      apply (List.append_left_inj ['_']).mp
      rw [← ends, List.append_assoc]
      rfl
    rw [← isFront, List.getLast?_concat]
  · exact no_run_collapseUnderscores _

/-- A bound name ends with an underscore only as the mark of a keyword. -/
theorem isKeyword_of_bindingChars_concat (ends : bindingChars text = name ++ ['_']) :
    isKeyword name = true := by
  rw [bindingChars_eq] at ends
  split at ends
  · rename_i keyword
    rwa [← List.append_cancel_right ends]
  · exfalso
    apply getLast?_bareName (strip text)
    rw [ends, List.getLast?_concat]

theorem Respelled.solid (same : Respelled text other) (solid : ∀ c ∈ text, isBlank c = false) :
    ∀ c ∈ other, isBlank c = false := by
  intro c member
  by_cases underscore : c = '_'
  · rw [underscore]
    rfl
  · exact solid c ((same.mem_iff underscore).mpr member)

/-! ### The keys of a registry -/

/-- A C type refers to a declared type by its last word exactly if the bound name of that word is none of
the library. -/
theorem declaredName_eq_some_iff {use key : String} :
    declaredName use = .ok (some key) ↔
      key.startsWith "ctypes." = false ∧
        ∃ word, RefersBy (baseWords use) word ∧ key = bindingName word := by
  rw [declaredName, ← baseWords]
  constructor
  · intro declared
    cases named : nameOfWords (baseWords use) with
    | error size =>
        rw [named] at declared
        cases declared
    | ok name =>
        rw [named] at declared
        obtain ⟨isName, notLibrary⟩ := Option.filter_eq_some_iff.mp (Except.ok.inj declared)
        rw [isName] at named
        have declaredHere : key.startsWith "ctypes." = false := by simpa using notLibrary
        refine ⟨declaredHere, (nameOfWords_cases named).resolve_left ?_⟩
        rw [declaredHere]
        exact Bool.false_ne_true
  · rintro ⟨notLibrary, word, refers, rfl⟩
    rw [refers.nameOfWords_eq]
    simp [Except.map, Option.filter, notLibrary]

/-- Two identifiers are the same key: as the name of a macro, of an enumerator, of a type, as the tag of
a struct, a union or an enumeration, and as a constant that gives an enumerator its value or an array
its length. -/
structure KeyedAlike (first second : String) : Prop where
  name : bindingName first = bindingName second
  macroName : ∀ kind rest,
    defineConstant (⟨kind, first⟩ :: rest) = defineConstant (⟨kind, second⟩ :: rest)
  enumerator : ∀ known next before tree trees kind rest,
    readMembers known next before (tree :: trees) (⟨kind, first⟩ :: rest)
      = readMembers known next before (tree :: trees) (⟨kind, second⟩ :: rest)
  typeName : ∀ type kind rest, declareAlias (type :: ⟨kind, first⟩ :: rest)
    = declareAlias (type :: ⟨kind, second⟩ :: rest)
  recordTag : ∀ cursor : Cursor, cursor.focus.hasName = true → ∀ kind rest,
    declareRecord cursor (⟨kind, first⟩ :: rest)
      = emitRecord (bindingName second) ((if cursor.focus.isUnion then "union " else "struct ") ++ first)
        cursor.focus.isUnion rest
  enumerationTag : ∀ cursor : Cursor, cursor.focus.hasName = true → ∀ kind rest,
    declareEnumeration cursor (⟨kind, first⟩ :: rest)
      = declareEnumeration cursor (⟨kind, second⟩ :: rest)
  value : ∀ known next, namedValue known next first = namedValue known next second
  length : (⟨"identifier", first⟩ : Capture).arrayLength
    = (⟨"identifier", second⟩ : Capture).arrayLength

/-- An identifier is known by its bound name only. -/
theorem keyedAlike_of_bindingName_eq {first second : String}
    (same : bindingName first = bindingName second) : KeyedAlike first second where
  name := same
  macroName kind rest := by
    cases rest with
    | nil => rfl
    | cons value rest => simp only [defineConstant, same]
  enumerator known next before tree trees kind rest := by
    simp only [readMembers, Run.capture, List.getElem?_cons_zero, List.getElem?_cons_succ, pure_bind, same]
    cases tree.hasValue <;> rfl
  typeName type kind rest := by simp only [declareAlias, same]
  recordTag cursor tagged kind rest := by
    simp only [declareRecord, tagged, if_true, Run.capture, List.getElem?_cons_zero, pure_bind,
      List.drop_one, List.tail_cons, same]
  enumerationTag cursor tagged kind rest := by
    simp only [declareEnumeration, tagged, if_true, Run.capture, List.getElem?_cons_zero, pure_bind,
      List.drop_one, List.tail_cons, same]
  value known next := by simp only [namedValue, same]
  length := same

theorem solid_of_mem_baseWords {use word : String} (member : word ∈ baseWords use) :
    ∀ c ∈ word.toList, isBlank c = false := by
  obtain ⟨isWord, _⟩ := List.mem_filter.mp member
  obtain ⟨chars, found, rfl⟩ := List.mem_map.mp isWord
  rw [String.toList_ofList]
  exact (mem_wordsFrom (by simp) found).2

/-- Binding a name without blanks yields a normal form, which is one name for all spellings of it and for no
other name: for declarations, for values and for the types that refer to it. -/
theorem bindingName_normal {spelled : String} (solid : ∀ c ∈ spelled.toList, isBlank c = false) :
    bindingName (bindingName spelled) = bindingName spelled ∧
      (bindingName spelled).toList.head? ≠ some '_' ∧
      ¬ ['_', '_'] <:+: (bindingName spelled).toList ∧
      (∀ name, (bindingName spelled).toList = name ++ ['_'] → isKeyword name = true) ∧
      (∀ other, Respelled spelled.toList other.toList → KeyedAlike spelled other) ∧
      KeyedAlike spelled (bindingName spelled) ∧
      (∀ other, bindingName spelled = bindingName other →
        Respelled spelled.toList (strip other.toList)) ∧
      ∀ use word, RefersBy (baseWords use) word →
        (declaredName use = .ok (some (bindingName spelled)) ↔
          (bindingName spelled).startsWith "ctypes." = false ∧ Respelled spelled.toList word.toList) := by
  have bound_iff : ∀ other, bindingName spelled = bindingName other ↔
      Respelled spelled.toList (strip other.toList) := by
    intro other
    rw [bindingName, bindingName, String.ofList_inj, bindingChars_eq_iff, strip_eq_self_of_solid solid]
  have sameKey : ∀ other, Respelled spelled.toList other.toList →
      bindingName spelled = bindingName other := by
    intro other same
    rw [bound_iff, strip_eq_self_of_solid (same.solid solid)]
    exact same
  -- A bound name is one of the spellings, the underscore behind a keyword included.
  have stays : bindingName spelled = bindingName (bindingName spelled) := by
    apply sameKey
    have same := respelled_bindingChars spelled.toList
    rwa [strip_eq_self_of_solid solid, ← String.toList_ofList (l := bindingChars spelled.toList)] at same
  have isChars : (bindingName spelled).toList = bindingChars spelled.toList := String.toList_ofList
  refine ⟨stays.symm, ?_, ?_, ?_, ?_, keyedAlike_of_bindingName_eq stays,
    fun other => (bound_iff other).mp,
    ?_⟩
  · rw [isChars]
    exact head?_bindingChars_ne _
  · rw [isChars]
    exact no_run_bindingChars _
  · intro name ends
    apply isKeyword_of_bindingChars_concat
    rw [← isChars]
    exact ends
  · intro other same
    exact keyedAlike_of_bindingName_eq (sameKey other same)
  · intro use word refers
    have wordSolid := solid_of_mem_baseWords (List.mem_of_getLast? refers.last)
    rw [declaredName_eq_some_iff, ← strip_eq_self_of_solid wordSolid, ← bound_iff]
    apply and_congr_right
    intro _
    constructor
    · rintro ⟨last, refersToo, same⟩
      obtain rfl : last = word := Option.some.inj (refersToo.last.symm.trans refers.last)
      exact same
    · intro same
      exact ⟨word, refers, same⟩

/-- The keyword `lambda`, with any underscores around it, is one name. -/
theorem bindingName_normal_lambda :
    bindingName "__lambda_" = "lambda_" ∧ bindingName "lambda_" = "lambda_" ∧
      KeyedAlike "__lambda_" "lambda" ∧ declaredName "const struct _lambda *" = .ok (some "lambda_") := by
  have solid : ∀ c ∈ "__lambda_".toList, isBlank c = false := by decide
  obtain ⟨stays, _, _, _, alike, _, _, refers⟩ := bindingName_normal solid
  have bound : bindingName "__lambda_" = "lambda_" := by decide
  have marked : Respelled "__lambda_".toList "_lambda".toList := by
    have parts : "__lambda_".toList = '_' :: ("_lambda".toList ++ ['_']) := by decide
    rw [parts]
    exact (Respelled.of_loses (.front _)).trans (Respelled.of_loses (.back _))
  have unmarked : Respelled "_lambda".toList "lambda".toList := by
    have parts : "_lambda".toList = '_' :: "lambda".toList := by decide
    rw [parts]
    exact Respelled.of_loses (.front _)
  have notLibrary : "lambda_".startsWith "ctypes." = false := by
    rw [← Bool.not_eq_true, String.startsWith_string_iff]
    decide
  rw [bound] at stays refers
  refine ⟨bound, stays, alike "lambda" (marked.trans unmarked),
    (refers _ "_lambda" ?_).mpr ⟨notLibrary, marked⟩⟩
  exact ⟨by decide, by decide, by decide, by decide⟩

end HeaderBindings.Spelling
