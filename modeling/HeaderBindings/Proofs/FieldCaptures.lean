/-
Module: HeaderBindings.Proofs.FieldCaptures
Purpose: A record's captures spell the fields that its tree declares, one after another.
Main exports: Capture.SpellsType, FieldShape.captures, DeclaresAll.capturesAfter_eq,
  DeclaresFields.capturesAfter_eq, Cursor.Adds, capturesAfter_record_of_adds
-/
import Mathlib.Data.List.Forall2
import HeaderBindings.Proofs.CaptureWalk
import HeaderBindings.Proofs.FieldShapes

namespace HeaderBindings

/-! ### Text of types -/

namespace Text

theorem mem_wordsFrom {current text word : List Char} (whole : ∀ c ∈ current, isBlank c = false)
    (member : word ∈ wordsFrom current text) : word ≠ [] ∧ ∀ c ∈ word, isBlank c = false := by
  have finished : ∀ {current : List Char}, current.isEmpty = false →
      (∀ c ∈ current, isBlank c = false) →
      current.reverse ≠ [] ∧ ∀ c ∈ current.reverse, isBlank c = false := by
    intro current nonempty whole
    simp only [List.isEmpty_eq_false_iff] at nonempty
    exact ⟨by simpa using nonempty, by simpa using whole⟩
  induction text generalizing current with
  | nil =>
      unfold wordsFrom at member
      split at member
      · cases member
      · rename_i nonempty
        rw [List.mem_singleton.mp member]
        exact finished (by simpa using nonempty) whole
  | cons c rest ih =>
      unfold wordsFrom at member
      split at member
      · split at member
        · exact ih (by simp) member
        · rename_i nonempty
          rcases List.mem_cons.mp member with rfl | later
          · exact finished (by simpa using nonempty) whole
          · exact ih (by simp) later
      · rename_i letter
        exact ih (List.forall_mem_cons.mpr ⟨by simpa using letter, whole⟩) member

/-- A text on one line does not end with a blank. -/
theorem isBlank_of_getLast?_collapsed {text : String} {last : Char}
    (isLast : (collapsed text).toList.getLast? = some last) : isBlank last = false := by
  have joined : ∀ parts : List (List Char), (∀ part ∈ parts, part ≠ [] ∧
      ∀ c ∈ part, isBlank c = false) → (List.intercalate [' '] parts).getLast? = some last →
      isBlank last = false := by
    intro parts
    induction parts with
    | nil => simp [List.intercalate]
    | cons part rest ih =>
        intro whole isLast
        rw [List.forall_mem_cons] at whole
        cases rest with
        | nil => exact whole.1.2 _ (List.mem_of_getLast? (by simpa [List.intercalate] using isLast))
        | cons next rest =>
            have more : List.intercalate [' '] (next :: rest) ≠ [] := by
              have first := (List.forall_mem_cons.mp whole.2).1.1
              cases rest <;> simp [List.intercalate_cons_cons, first]
            rw [List.intercalate_cons_cons, List.getLast?_append_of_ne_nil _ more] at isLast
            exact ih whole.2 isLast
  rw [collapsed, String.toList_ofList] at isLast
  exact joined _ (fun part member => mem_wordsFrom (by simp) member) isLast

theorem dropEndWhile_append {test : Char → Bool} {text extra : List Char}
    (dropped : ∀ c ∈ extra, test c = true)
    (kept : ∀ last, text.getLast? = some last → test last = false) :
    dropEndWhile test (text ++ extra) = text := by
  unfold dropEndWhile
  rw [List.reverse_append, List.dropWhile_append_of_pos (by simpa using dropped)]
  cases reversed : text.reverse with
  | nil =>
      rw [List.reverse_eq_nil_iff.mp reversed]
      rfl
  | cons last earlier =>
      have isLast : text.getLast? = some last := by
        rw [List.getLast?_eq_head?_reverse, reversed, List.head?_cons]
      rw [List.dropWhile_cons, if_neg (by simp [kept last isLast]), ← reversed, List.reverse_reverse]

end Text

namespace Capture

/-- A capture that spells a type, without a star or a blank at its end. -/
structure SpellsType (type : Capture) : Prop where
  isType : type.kind ∈ typeNames
  unstarred : type.text.toList.getLast? ≠ some '*'
  unblank : type.text.toList.getLast? ≠ some ' '

/-- The type that a later declarator finds is the one that was declared: the pointers of the declarator
before it fall away. -/
theorem SpellsType.latestType?_cons {type : Capture} (spells : SpellsType type) (depth : Nat)
    (earlier : List Capture) : latestType? (type.pointers depth :: earlier) = some type := by
  have trimmed : Text.dropEndWhile (fun c => c == ' ' || c == '*')
      (type.text ++ stars depth).toList = type.text.toList := by
    rw [String.toList_append]
    refine Text.dropEndWhile_append ?_ ?_
    · intro c member
      unfold stars at member
      split at member
      · simp at member
      · simp only [String.toList_ofList, List.mem_cons, List.mem_replicate] at member
        rcases member with rfl | ⟨_, rfl⟩ <;> rfl
    · intro last isLast
      have star : last ≠ '*' := fun isStar => spells.unstarred (isStar ▸ isLast)
      have blank : last ≠ ' ' := fun isBlank => spells.unblank (isBlank ▸ isLast)
      simp [star, blank]
  have isType : typeNames.contains (type.pointers depth).kind = true :=
    List.contains_iff_mem.mpr spells.isType
  have first : (type.pointers depth :: earlier).find? (fun capture => typeNames.contains capture.kind)
      = some (type.pointers depth) := List.find?_cons_of_pos isType
  rw [latestType?, first, Option.map_some]
  simp only [pointers, trimmed, String.ofList_toList]

theorem latestType?_cons_of_other {capture : Capture} (other : capture.kind ∉ typeNames)
    (earlier : List Capture) : latestType? (capture :: earlier) = latestType? earlier := by
  rw [latestType?, List.find?_cons_of_neg (by simpa using other), latestType?]

/-- A node that is no field, and no name with pointers, adds one capture and changes none. -/
theorem add_of_plain {bytes : List UInt8} {cursor : Cursor} (notField : cursor.kind ≠ "field_identifier")
    (plain : cursor.kind ∈ declaratorNames → cursor.pointerDepth = 0) (latestFirst : List Capture) :
    add bytes cursor latestFirst = cursor.leaf bytes :: latestFirst := by
  unfold add
  congr 1
  cases latestFirst with
  | nil => rfl
  | cons latest earlier =>
      by_cases isName : cursor.kind ∈ declaratorNames
      · simp [notePointers, isName, notField, plain isName, stars]
      · simp [notePointers, isName]

/-- Where a declarator's name finds its type: it comes right after the type, or after captures of
declarators that share the type. -/
inductive Awaits (type : Capture) : List Capture → List Capture → Prop where
  | typed {earlier : List Capture} : Awaits type (type :: earlier) earlier
  | shared {latest : Capture} {earlier : List Capture} (other : latest.kind ∉ typeNames)
      (found : latestType? (latest :: earlier) = some type) :
      Awaits type (latest :: earlier) (latest :: earlier)

theorem latestType?_append_of_others {others : List Capture}
    (other : ∀ capture ∈ others, capture.kind ∉ typeNames) (earlier : List Capture) :
    latestType? (others ++ earlier) = latestType? earlier := by
  induction others with
  | nil => rfl
  | cons first rest ih =>
      rw [List.forall_mem_cons] at other
      rw [List.cons_append, latestType?_cons_of_other other.1, ih other.2]

/-- After some captures that are no types, the next declarator finds the type before them. -/
theorem Awaits.of_others {type : Capture} (spells : SpellsType type) {others : List Capture}
    (some_ : others ≠ []) (other : ∀ capture ∈ others, capture.kind ∉ typeNames) (depth : Nat)
    (earlier : List Capture) :
    Awaits type (others ++ type.pointers depth :: earlier)
      (others ++ type.pointers depth :: earlier) := by
  have found : latestType? (others ++ type.pointers depth :: earlier) = some type := by
    rw [latestType?_append_of_others other, spells.latestType?_cons]
  cases others with
  | nil => exact absurd rfl some_
  | cons latest rest => exact .shared (other latest List.mem_cons_self) found

/-- A field's name adds its type with its pointers, and itself. -/
theorem Awaits.add_name {type : Capture} (spells : SpellsType type) {bytes : List UInt8}
    {name : Cursor} {latestFirst earlier : List Capture} (awaits : Awaits type latestFirst earlier)
    (isField : name.kind = "field_identifier") :
    add bytes name latestFirst
      = ⟨"field_identifier", name.textIn bytes⟩ :: type.pointers name.pointerDepth :: earlier := by
  have isType : typeNames.contains type.kind = true := List.contains_iff_mem.mpr spells.isType
  have isName : declaratorNames.contains "field_identifier" = true := by decide
  unfold add
  rw [isField]
  congr 1
  cases awaits with
  | typed => simp only [notePointers, isName, isType, Bool.not_true, Bool.false_eq_true, if_false,
      Bool.and_false, pointers]
  | @shared latest _ other found =>
      have notType : typeNames.contains latest.kind = false := by simpa using other
      simp only [notePointers, isName, notType, Bool.not_true, Bool.not_false, Bool.false_eq_true,
        if_false, BEq.rfl, Bool.and_true, if_true, found, pointers]

end Capture

/-! ### Captures of fields -/

namespace FieldShape

/-- The captures that spell a field. -/
def captures : FieldShape → List Capture
  | named type name lengths width => type :: ⟨"field_identifier", name⟩ :: lengths ++ width.toList
  | padding type width => [type, width]

end FieldShape

namespace Cursor

variable {bytes : List UInt8}

theorem foldl_capturesAfter_silent {cursors : List Cursor}
    (silent : ∀ cursor ∈ cursors, cursor.kind ∈ Capture.silentKinds) (latestFirst : List Capture) :
    cursors.foldl (capturesAfter bytes) latestFirst = latestFirst := by
  induction cursors with
  | nil => rfl
  | cons first rest ih =>
      rw [List.forall_mem_cons] at silent
      rw [List.foldl_cons, capturesAfter_silent silent.1, ih silent.2]

/-- Qualifiers add no captures. -/
theorem silent_qualifiers (cursor : Cursor) :
    ∀ qualifier ∈ cursor.ofKinds ["type_qualifier"], qualifier.kind ∈ Capture.silentKinds := by
  intro qualifier member
  rw [List.mem_singleton.mp (Cursor.mem_ofKinds.mp member).2]
  decide

theorem foldl_capturesAfter_leaves {cursors : List Cursor}
    (leaves : ∀ cursor ∈ cursors, ∀ latestFirst,
      cursor.capturesAfter bytes latestFirst = cursor.leaf bytes :: latestFirst)
    (latestFirst : List Capture) :
    cursors.foldl (capturesAfter bytes) latestFirst
      = (cursors.map (leaf bytes)).reverse ++ latestFirst := by
  induction cursors generalizing latestFirst with
  | nil => rfl
  | cons first rest ih =>
      rw [List.forall_mem_cons] at leaves
      rw [List.foldl_cons, leaves.1, ih leaves.2]
      simp

end Cursor

open Pattern Rules

/-- A node inside a field declaration that is a field's name, or whose children are matched against
those of the declarators. -/
def FoundDeclarator (alphabet : Alphabet) (cursor : Cursor) : Prop :=
  cursor.kind = "field_identifier" ∨ ∃ enclosing pattern, Finds alphabet enclosing pattern cursor ∧
    pattern.shape enclosing = fieldDeclarators

theorem unmixed_fieldDeclarators : Unmixed fieldDeclarators.children := by decide

section

variable {alphabet : Alphabet} {bytes : List UInt8} {declarator name : Cursor}
  {lengths latestFirst : List Capture} {depth : Nat}

/-- In a declarator, first come qualifiers, then the declarators that it wraps, then lengths. -/
theorem FoundDeclarator.named_eq (found : FoundDeclarator alphabet declarator)
    (wraps : declarator.kind ≠ "field_identifier") :
    declarator.named = declarator.ofKinds ["type_qualifier"] ++ declarator.ofKinds declaratorKinds
        ++ declarator.ofKinds arrayLengthKinds ∧
      ∀ inner ∈ declarator.ofKinds declaratorKinds, FoundDeclarator alphabet inner := by
  obtain ⟨enclosing, pattern, finds, shape⟩ := found.resolve_left wraps
  have children : (pattern.shape enclosing).children = fieldDeclarators.children := by rw [shape]
  obtain ⟨sorted, parts⟩ := finds.siblings children (by decide) unmixed_fieldDeclarators
  have grouped : declarator.ofKinds declaratorKinds
      = declarator.ofKinds ["pointer_declarator", "array_declarator"]
        ++ declarator.ofKinds ["field_identifier"] := by
    have group := Unmixed.ofKinds_group [leaf ["type_qualifier"] .zeroOrMore]
      [nested ["pointer_declarator", "array_declarator"] .zeroOrOne,
        leaf ["field_identifier"] .zeroOrOne]
      [leaf ["identifier", "number_literal"] .zeroOrOne] unmixed_fieldDeclarators sorted
    simpa [declaratorKinds] using group
  constructor
  · rw [grouped]
    simpa [fieldDeclarators, arrayLengthKinds] using sorted
  · intro inner member
    rw [grouped] at member
    rcases List.mem_append.mp member with wrapped | field
    · have inside : nested ["pointer_declarator", "array_declarator"] .zeroOrOne
          ∈ fieldDeclarators.children := by decide
      refine Or.inr ⟨_, _, (parts _ inside).2 inner wrapped, ?_⟩
      exact shape
    · exact Or.inl (by simpa using (Cursor.mem_ofKinds.mp field).2)

/-- Captures of a declarator around another: the other's, and then those of the lengths. -/
theorem FoundDeclarator.capturesAfter_wrapping (found : FoundDeclarator alphabet declarator)
    (kind : declarator.kind ∈ ["pointer_declarator", "array_declarator"]) {inner : Cursor}
    (wraps : declarator.ofKinds declaratorKinds = [inner]) :
    declarator.capturesAfter bytes latestFirst
        = (declarator.ofKinds arrayLengthKinds).foldl (Cursor.capturesAfter bytes)
          (inner.capturesAfter bytes latestFirst) ∧
      FoundDeclarator alphabet inner := by
  have loud : ∀ kind ∈ ["pointer_declarator", "array_declarator"], kind ≠ "field_identifier" ∧
      Capture.isCaptured kind = false ∧ kind ∉ Capture.silentKinds := by decide
  obtain ⟨notField, uncaptured, notSilent⟩ := loud _ kind
  obtain ⟨sorted, wrapped⟩ := found.named_eq notField
  refine ⟨?_, wrapped inner (by simp [wraps])⟩
  rw [Cursor.capturesAfter_children uncaptured notSilent, sorted, List.foldl_append,
    List.foldl_append, Cursor.foldl_capturesAfter_silent declarator.silent_qualifiers, wraps,
    List.foldl_cons, List.foldl_nil]

/-- A length does not stand where the declarator of its array does, so it has no pointers. -/
theorem capturesAfter_arrayLength (kind : declarator.kind = "array_declarator") {inner : Cursor}
    (wraps : declarator.ofKinds declaratorKinds = [inner]) (fills : inner.FillsDeclarator) :
    ∀ length ∈ declarator.ofKinds arrayLengthKinds, ∀ latestFirst,
      length.capturesAfter bytes latestFirst = length.leaf bytes :: latestFirst := by
  intro length member latestFirst
  obtain ⟨inside, isLength⟩ := Cursor.mem_ofKinds.mp member
  have captured : ∀ kind ∈ arrayLengthKinds, Capture.isCaptured kind = true ∧
      kind ≠ "field_identifier" ∧ kind ∉ declaratorKinds := by decide
  obtain ⟨isCaptured, notField, notWrapped⟩ := captured _ isLength
  rw [Cursor.capturesAfter_captured isCaptured]
  refine Capture.add_of_plain notField (fun _ => ?_) latestFirst
  obtain ⟨isInner, innerKind⟩ : inner ∈ declarator.named ∧ inner.kind ∈ declaratorKinds :=
    Cursor.mem_ofKinds.mp (by simp [wraps])
  obtain ⟨index, above, found⟩ := Cursor.exists_index_of_mem_named inside
  obtain ⟨innerIndex, innerAbove, innerFound⟩ := Cursor.exists_index_of_mem_named isInner
  obtain ⟨frame, isFrame, filled⟩ := fills
  rw [innerAbove, List.head?_cons, Option.mem_some_iff] at isFrame
  subst isFrame
  have elsewhere : innerIndex ≠ index := by
    rintro rfl
    have same := Option.some.inj (found.symm.trans innerFound)
    rw [Cursor.kind, ← same] at innerKind
    exact notWrapped innerKind
  rw [Cursor.pointerDepth, above, Cursor.pointersAbove_cons_of_array kind, if_neg]
  rw [filled]
  simpa using elsewhere

/-- Captures of a name in arrays: the name's, and then the lengths. -/
theorem ArraysAround.capturesAfter_eq (around : ArraysAround bytes declarator name lengths)
    (found : FoundDeclarator alphabet declarator) :
    declarator.capturesAfter bytes latestFirst
      = lengths.reverse ++ Capture.add bytes name latestFirst := by
  induction around with
  | name kind =>
      rw [Cursor.capturesAfter_captured (by rw [kind]; decide)]
      rfl
  | array kind wraps fills around ih =>
      obtain ⟨captures, innerFound⟩ := found.capturesAfter_wrapping (by simp [kind]) wraps
      rw [captures, ih innerFound,
        Cursor.foldl_capturesAfter_leaves (capturesAfter_arrayLength kind wraps fills),
        List.reverse_append, List.append_assoc]

/-- Captures of a declarator: the name's, and then the lengths of its arrays. -/
theorem Declares.capturesAfter_eq (declares : Declares bytes declarator depth name lengths)
    (found : FoundDeclarator alphabet declarator) :
    declarator.capturesAfter bytes latestFirst
      = lengths.reverse ++ Capture.add bytes name latestFirst := by
  induction declares with
  | arrays around => exact around.capturesAfter_eq found
  | pointer kind wraps plain _ ih =>
      obtain ⟨captures, innerFound⟩ := found.capturesAfter_wrapping (by simp [kind]) wraps
      rw [captures, plain, List.foldl_nil, ih innerFound]

end

/-! ### Captures of a field declaration -/

section

variable {alphabet : Alphabet} {bytes : List UInt8} {declaration : Cursor} {type : Capture}

/-- A node that spells a type adds one capture, unless it is the child of a declarator. -/
theorem capturesAfter_typeNode {parent node : Cursor} (inside : node ∈ parent.named)
    (plain : parent.kind ∉ ["function_declarator", "array_declarator", "pointer_declarator"])
    (isType : node.kind ∈ Capture.typeNames) (latestFirst : List Capture) :
    node.capturesAfter bytes latestFirst = node.leaf bytes :: latestFirst := by
  have typeName : ∀ kind ∈ Capture.typeNames, Capture.isCaptured kind = true ∧
      kind ≠ "field_identifier" := by decide
  rw [Cursor.capturesAfter_captured (typeName _ isType).1]
  exact Capture.add_of_plain (typeName _ isType).2
    (fun _ => Cursor.pointerDepth_eq_zero inside plain) latestFirst

/-- A tag, or a name that is defined, adds one capture. -/
theorem capturesAfter_tag {parent node : Cursor} (isTag : node ∈ parent.ofKinds ["type_identifier"])
    (plain : parent.kind ∉ ["function_declarator", "array_declarator", "pointer_declarator"])
    (latestFirst : List Capture) :
    node.capturesAfter bytes latestFirst = node.leaf bytes :: latestFirst := by
  obtain ⟨inside, isIdentifier⟩ := Cursor.mem_ofKinds.mp isTag
  apply capturesAfter_typeNode inside plain
  rw [List.mem_singleton.mp isIdentifier]
  decide

/-- The width of a bit field adds one capture. -/
theorem capturesAfter_width {width : Cursor} (isWidth : width.kind = "bitfield_clause")
    (latestFirst : List Capture) :
    width.capturesAfter bytes latestFirst = width.leaf bytes :: latestFirst := by
  rw [Cursor.capturesAfter_captured (by rw [isWidth]; decide)]
  refine Capture.add_of_plain (by simp [isWidth]) (fun isName => ?_) latestFirst
  rw [isWidth] at isName
  exact absurd isName (by decide)

/-- A declarator of a field declaration adds its type with its own pointers, its name and its
lengths. -/
theorem Declares.capturesAfter_of_awaits {declarator name : Cursor} {depth : Nat}
    {lengths latestFirst earlier : List Capture}
    (declares : Declares bytes declarator depth name lengths)
    (found : FoundDeclarator alphabet declarator) (inside : declarator ∈ declaration.named)
    (isDeclaration : declaration.kind = "field_declaration") (spells : type.SpellsType)
    (awaits : Capture.Awaits type latestFirst earlier) :
    declarator.capturesAfter bytes latestFirst
      = (FieldShape.named (type.pointers depth) (name.textIn bytes) lengths none).captures.reverse
        ++ earlier := by
  obtain ⟨index, above, _⟩ := Cursor.exists_index_of_mem_named inside
  have parent : declaration.focus.kind = "field_declaration" := isDeclaration
  have other : declaration.focus.kind ≠ "function_declarator" ∧
      declaration.focus.kind ≠ "array_declarator" := by simp [parent]
  have none_ : Cursor.pointerRun declarator.above = 0 := by
    simp [above, Cursor.pointerRun, parent]
  have pointers : name.pointerDepth = depth := by
    have counted := declares.pointersAbove_eq (by
      rw [above]
      exact Cursor.pointersAbove_cons_of_other other)
    rwa [none_, Nat.add_zero] at counted
  rw [declares.capturesAfter_eq found, awaits.add_name spells declares.name_kind, pointers]
  simp [FieldShape.captures]

/-- After a field, the next declarator finds the type as it was declared. -/
theorem Declares.awaits_next {declarator name : Cursor} {depth : Nat} {lengths : List Capture}
    (declares : Declares bytes declarator depth name lengths) (spells : type.SpellsType)
    (width : Option Capture) (isWidth : ∀ capture ∈ width, capture.kind = "bitfield_clause")
    (earlier : List Capture) :
    Capture.Awaits type
      ((FieldShape.named (type.pointers depth) (name.textIn bytes) lengths width).captures.reverse
        ++ earlier)
      ((FieldShape.named (type.pointers depth) (name.textIn bytes) lengths width).captures.reverse
        ++ earlier) := by
  have other : ∀ capture ∈ (⟨"field_identifier", name.textIn bytes⟩ :: lengths
      ++ width.toList).reverse, capture.kind ∉ Capture.typeNames := by
    intro capture member
    rcases List.mem_append.mp (List.mem_reverse.mp member) with named | isLast
    · rcases List.mem_cons.mp named with rfl | length
      · simp [Capture.typeNames]
      · have apart : ∀ kind ∈ arrayLengthKinds, kind ∉ Capture.typeNames := by decide
        exact apart _ (List.contains_iff_mem.mp (declares.isArrayLength capture length))
    · rw [isWidth capture (Option.mem_toList.mp isLast)]
      decide
  have next := Capture.Awaits.of_others spells (by simp) other depth earlier
  simpa [FieldShape.captures] using next

/-- Declarators that share a type add the captures of their fields, each with the type. -/
theorem DeclaresAll.capturesAfter_eq {declarators : List Cursor} {shapes : List FieldShape}
    {latestFirst earlier : List Capture} (declares : DeclaresAll bytes type declarators shapes)
    (isDeclaration : declaration.kind = "field_declaration") (spells : type.SpellsType)
    (inside : ∀ declarator ∈ declarators,
      declarator ∈ declaration.named ∧ FoundDeclarator alphabet declarator)
    (awaits : Capture.Awaits type latestFirst earlier)
    (some_ : declarators = [] → latestFirst = earlier) :
    declarators.foldl (Cursor.capturesAfter bytes) latestFirst
      = (shapes.flatMap FieldShape.captures).reverse ++ earlier := by
  induction declares generalizing latestFirst earlier with
  | nil => simpa using some_ rfl
  | field declares _ ih =>
      rw [List.forall_mem_cons] at inside
      have next := declares.awaits_next spells none (by simp) earlier
      rw [List.foldl_cons, declares.capturesAfter_of_awaits inside.1.2 inside.1.1 isDeclaration spells
        awaits, ih inside.2 next (fun _ => rfl), List.flatMap_cons, List.reverse_append,
        List.append_assoc]
  | @bitField declarator name width rest depth lengths shapes declares isWidth _ ih =>
      rw [List.forall_mem_cons, List.forall_mem_cons] at inside
      have next := declares.awaits_next spells (some (width.leaf bytes))
        (by simpa [Cursor.leaf] using isWidth) earlier
      have joined : width.leaf bytes :: ((FieldShape.named (type.pointers depth)
            (name.textIn bytes) lengths none).captures.reverse ++ earlier)
          = (FieldShape.named (type.pointers depth) (name.textIn bytes) lengths
            (some (width.leaf bytes))).captures.reverse ++ earlier := by
        simp [FieldShape.captures]
      rw [List.foldl_cons, List.foldl_cons, declares.capturesAfter_of_awaits inside.1.2 inside.1.1
        isDeclaration spells awaits, capturesAfter_width isWidth, joined,
        ih inside.2.2 next (fun _ => rfl), List.flatMap_cons, List.reverse_append, List.append_assoc]

theorem unmixed_fieldDeclarationPattern : Unmixed fieldDeclarationPattern.children := by decide

/-- The node that spells a type is the specifier itself, or the one node below it. -/
theorem spellingNode_of_type {specifier : Cursor} {enclosing : Option Pattern} {part : Pattern}
    (isPart : part ∈ typeParts) (finds : part.Finds alphabet enclosing specifier) :
    specifier.spellingNode.kind ∈ Capture.typeNames ∧
      (specifier.spellingNode = specifier ∨
        specifier.kind ∈ ["struct_specifier", "union_specifier", "enum_specifier"] ∧
          specifier.named = [specifier.spellingNode]) := by
  by_cases isType : specifier.kind ∈ Capture.typeNames
  · have own : specifier.spellingNode = specifier := by
      rw [Cursor.spellingNode, if_pos (List.contains_iff_mem.mpr isType)]
    rw [own]
    exact ⟨isType, Or.inl rfl⟩
  · have typeName : ∀ part ∈ typeParts, part.head.kinds ≠ [] ∧
        ((∀ kind ∈ part.head.kinds, kind ∈ Capture.typeNames) ∨
          part = branch ["struct_specifier", "union_specifier", "enum_specifier"] .zeroOrOne
            [leaf ["type_identifier"] .one]) := by decide
    obtain ⟨named, known⟩ := typeName part isPart
    have kind := finds.kind_mem named
    obtain rfl := known.resolve_left fun all => isType (all _ kind)
    have shape : ((branch ["struct_specifier", "union_specifier", "enum_specifier"] .zeroOrOne
        [leaf ["type_identifier"] .one]).shape enclosing).children
        = [leaf ["type_identifier"] .one] := rfl
    obtain ⟨sorted, parts⟩ := finds.siblings shape (by decide) (by decide)
    obtain ⟨tag, single⟩ : ∃ tag, specifier.ofKinds ["type_identifier"] = [tag] :=
      List.length_eq_one_iff.mp (parts (leaf ["type_identifier"] .one) (by simp)).1
    have isTag : tag.kind = "type_identifier" := Cursor.kind_of_only single
    have spelling : specifier.spellingNode = tag := by
      rw [Cursor.spellingNode, if_neg (by simpa using isType), single, List.headD_cons]
    rw [spelling]
    refine ⟨by rw [isTag]; decide, Or.inr ⟨kind, ?_⟩⟩
    simpa [single] using sorted

/-- A type specifier adds one capture: that of the node that spells the type. -/
theorem capturesAfter_specifier {specifier : Cursor} {enclosing : Option Pattern} {part : Pattern}
    (isPart : part ∈ typeParts) (finds : part.Finds alphabet enclosing specifier)
    (inside : specifier ∈ declaration.named)
    (isDeclaration : declaration.kind = "field_declaration") (latestFirst : List Capture) :
    specifier.spellingNode.kind ∈ Capture.typeNames ∧
      specifier.capturesAfter bytes latestFirst
        = specifier.spellingNode.leaf bytes :: latestFirst := by
  obtain ⟨isType, own | ⟨kind, children⟩⟩ := spellingNode_of_type isPart finds
  · refine ⟨isType, ?_⟩
    rw [own] at isType ⊢
    exact capturesAfter_typeNode inside (by simp [isDeclaration]) isType latestFirst
  · have tagged : ∀ kind ∈ ["struct_specifier", "union_specifier", "enum_specifier"],
        Capture.isCaptured kind = false ∧ kind ∉ Capture.silentKinds ∧
        kind ∉ ["function_declarator", "array_declarator", "pointer_declarator"] := by decide
    obtain ⟨uncaptured, notSilent, plain⟩ := tagged _ kind
    have below : specifier.spellingNode ∈ specifier.named := by
      rw [children]
      exact List.mem_singleton_self _
    refine ⟨isType, ?_⟩
    rw [Cursor.capturesAfter_children uncaptured notSilent, children, List.foldl_cons,
      List.foldl_nil, capturesAfter_typeNode below plain isType]

/-- The text of a node on one line has no blank at its end. -/
theorem spellsType_of_unstarred {node : Cursor} (isType : node.kind ∈ Capture.typeNames)
    (unstarred : (node.textIn bytes).toList.getLast? ≠ some '*') : (node.leaf bytes).SpellsType :=
  ⟨isType, unstarred, fun isLast =>
    absurd (Text.isBlank_of_getLast?_collapsed isLast) (by decide)⟩

/-- In a field declaration, first come qualifiers, then type specifiers, which add one capture each,
and then what is declared. -/
theorem inOrder_of_fieldDeclaration {enclosing : Option Pattern}
    (finds : fieldDeclarationPattern.Finds alphabet enclosing declaration) (bytes : List UInt8) :
    declaration.named = declaration.ofKinds ["type_qualifier"] ++ declaration.ofKinds typeKinds
        ++ declaration.ofKinds declaredKinds ∧
      ∀ specifier ∈ declaration.ofKinds typeKinds, ∀ latestFirst,
        specifier.spellingNode.kind ∈ Capture.typeNames ∧
          specifier.capturesAfter bytes latestFirst
            = specifier.spellingNode.leaf bytes :: latestFirst := by
  have shape : (fieldDeclarationPattern.shape enclosing).children
      = fieldDeclarationPattern.children := rfl
  obtain ⟨sorted, parts⟩ := finds.siblings shape (by decide) unmixed_fieldDeclarationPattern
  have isDeclaration : declaration.kind = "field_declaration" := finds.kind_eq rfl
  have grouped : declaration.ofKinds typeKinds
      = typeParts.flatMap fun part => declaration.ofKinds part.head.kinds :=
    Unmixed.ofKinds_group [leaf ["type_qualifier"] .zeroOrMore] typeParts [fieldDeclarators]
      unmixed_fieldDeclarationPattern sorted
  constructor
  · rw [sorted, grouped]
    simp [fieldDeclarationPattern, fieldDeclarators, declaredKinds]
  · intro specifier inside latestFirst
    obtain ⟨part, isPart, ofPart⟩ := List.mem_flatMap.mp (grouped ▸ inside)
    have partFinds := (parts part (by
      rw [fieldDeclarationPattern, branch_children]
      simp [isPart])).2 specifier ofPart
    exact capturesAfter_specifier isPart partFinds (Cursor.mem_ofKinds.mp inside).1 isDeclaration
      latestFirst

/-- A field declaration adds the captures of its fields. -/
theorem DeclaresFields.capturesAfter_eq {shapes : List FieldShape} {enclosing : Option Pattern}
    (declares : DeclaresFields bytes declaration shapes)
    (finds : fieldDeclarationPattern.Finds alphabet enclosing declaration)
    (latestFirst : List Capture) :
    declaration.capturesAfter bytes latestFirst
      = (shapes.flatMap FieldShape.captures).reverse ++ latestFirst := by
  have shape : (fieldDeclarationPattern.shape enclosing).children
      = fieldDeclarationPattern.children := rfl
  obtain ⟨_, parts⟩ := finds.siblings shape (by decide) unmixed_fieldDeclarationPattern
  obtain ⟨inOrder, specifiers⟩ := inOrder_of_fieldDeclaration finds bytes
  have isDeclaration : declaration.kind = "field_declaration" := finds.kind_eq rfl
  have uncaptured : Capture.isCaptured declaration.kind = false ∧
      declaration.kind ∉ Capture.silentKinds := by
    rw [isDeclaration]
    decide
  have specified : ∀ specifier, declaration.ofKinds typeKinds = [specifier] →
      '*' ∉ (specifier.spellingNode.textIn bytes).toList →
      (specifier.spellingNode.leaf bytes).SpellsType ∧
        specifier.capturesAfter bytes latestFirst
          = specifier.spellingNode.leaf bytes :: latestFirst := by
    intro specifier typed starless
    obtain ⟨isType, captures⟩ := specifiers specifier (by simp [typed]) latestFirst
    exact ⟨spellsType_of_unstarred isType fun isLast => starless (List.mem_of_getLast? isLast),
      captures⟩
  have declared : ∀ declarator ∈ declaration.ofKinds declaredKinds,
      declarator ∈ declaration.named ∧ FoundDeclarator alphabet declarator := by
    intro declarator member
    have found := (parts fieldDeclarators (by decide)).2 declarator member
    exact ⟨(Cursor.mem_ofKinds.mp member).1, Or.inr ⟨_, _, found, rfl⟩⟩
  have some_ : declaration.ofKinds declaredKinds ≠ [] :=
    List.ne_nil_of_length_pos (parts fieldDeclarators (by decide)).1
  rw [Cursor.capturesAfter_children uncaptured.1 uncaptured.2, inOrder, List.foldl_append,
    List.foldl_append, Cursor.foldl_capturesAfter_silent declaration.silent_qualifiers]
  cases declares with
  | named typed starless declaresAll =>
      obtain ⟨spells, captures⟩ := specified _ typed starless
      rw [typed, List.foldl_cons, List.foldl_nil, captures]
      exact declaresAll.capturesAfter_eq isDeclaration spells declared .typed (absurd · some_)
  | padding typed starless alone isWidth =>
      obtain ⟨_, captures⟩ := specified _ typed starless
      rw [typed, List.foldl_cons, List.foldl_nil, captures, alone, List.foldl_cons, List.foldl_nil,
        capturesAfter_width isWidth]
      rfl

end

/-! ### Captures of a record -/

/-- A node adds some captures, whatever was captured before. -/
def Cursor.Adds (bytes : List UInt8) (cursor : Cursor) (captures : List Capture) : Prop :=
  ∀ latestFirst, cursor.capturesAfter bytes latestFirst = captures.reverse ++ latestFirst

section

variable {alphabet : Alphabet} {bytes : List UInt8} {shapes : List (List FieldShape)}

theorem foldl_capturesAfter_of_adds {cursors : List Cursor} {added : List (List Capture)}
    (adds : List.Forall₂ (Cursor.Adds bytes) cursors added) (latestFirst : List Capture) :
    cursors.foldl (Cursor.capturesAfter bytes) latestFirst = added.flatten.reverse ++ latestFirst := by
  induction adds generalizing latestFirst with
  | nil => rfl
  | cons first _ ih =>
      rw [List.foldl_cons, first, ih, List.flatten_cons, List.reverse_append, List.append_assoc]

/-- A record has at most one tag. -/
theorem tags_of_record {specifier : Cursor} {enclosing : Option Pattern}
    (finds : recordPattern.Finds alphabet enclosing specifier) :
    specifier.ofKinds ["type_identifier"] = [] ∨
      ∃ tag, specifier.ofKinds ["type_identifier"] = [tag] := by
  have shape : (recordPattern.shape enclosing).children = recordPattern.children := rfl
  obtain ⟨_, parts⟩ := finds.siblings shape (by decide) (by decide)
  have atMostOne : (specifier.ofKinds ["type_identifier"]).length ≤ 1 :=
    (parts (leaf ["type_identifier"] .zeroOrOne) (by decide)).1
  rcases tags : specifier.ofKinds ["type_identifier"] with _ | ⟨tag, _ | ⟨other, rest⟩⟩
  · exact Or.inl rfl
  · exact Or.inr ⟨tag, rfl⟩
  · simp [tags] at atMostOne

/-- The field declarations of a record are the children of its one list that are no comments. -/
theorem fieldDeclarations_of_record {specifier : Cursor} {enclosing : Option Pattern}
    (finds : recordPattern.Finds alphabet enclosing specifier) :
    ∃ list, specifier.ofKinds ["field_declaration_list"] = [list] ∧
      list.kind = "field_declaration_list" ∧ specifier.fieldDeclarations = list.named ∧
      ∀ declaration ∈ specifier.fieldDeclarations, ∃ around,
        fieldDeclarationPattern.Finds alphabet around declaration := by
  have shape : (recordPattern.shape enclosing).children = recordPattern.children := rfl
  obtain ⟨_, parts⟩ := finds.siblings shape (by decide) (by decide)
  obtain ⟨list, single⟩ : ∃ list, specifier.ofKinds ["field_declaration_list"] = [list] :=
    List.length_eq_one_iff.mp
      (parts (branch ["field_declaration_list"] .one [fieldDeclarationPattern]) (by decide)).1
  have listFinds : (branch ["field_declaration_list"] .one [fieldDeclarationPattern]).Finds alphabet
      (some (recordPattern.shape enclosing)) list :=
    (parts (branch ["field_declaration_list"] .one [fieldDeclarationPattern]) (by decide)).2 list
      (by simp [single])
  have listShape : ((branch ["field_declaration_list"] .one [fieldDeclarationPattern]).shape
      (some (recordPattern.shape enclosing))).children = [fieldDeclarationPattern] := rfl
  obtain ⟨listSorted, listParts⟩ := listFinds.siblings listShape (by decide) (by decide)
  have declarations : specifier.fieldDeclarations = list.named := by
    rw [listSorted, Cursor.fieldDeclarations, single]
    rfl
  refine ⟨list, single, listFinds.kind_eq rfl, declarations, ?_⟩
  intro declaration member
  refine ⟨_, (listParts fieldDeclarationPattern (by simp)).2 declaration ?_⟩
  rw [declarations] at member
  simpa [listSorted] using member

/-- A record adds the capture of its tag, if it has one, and then those that its declarations add. -/
theorem capturesAfter_record_of_adds {specifier : Cursor} {enclosing : Option Pattern}
    {added : List (List Capture)} (finds : recordPattern.Finds alphabet enclosing specifier)
    (adds : List.Forall₂ (Cursor.Adds bytes) specifier.fieldDeclarations added)
    (latestFirst : List Capture) :
    specifier.capturesAfter bytes latestFirst
      = added.flatten.reverse ++ ((specifier.ofKinds ["type_identifier"]).map (Cursor.leaf bytes)).reverse
        ++ latestFirst := by
  have shape : (recordPattern.shape enclosing).children = recordPattern.children := rfl
  obtain ⟨sorted, _⟩ := finds.siblings shape (by decide) (by decide)
  have isRecord := finds.kind_mem (by decide)
  have loud : ∀ kind ∈ recordPattern.head.kinds, Capture.isCaptured kind = false ∧
      kind ∉ Capture.silentKinds ∧
      kind ∉ ["function_declarator", "array_declarator", "pointer_declarator"] := by decide
  obtain ⟨uncaptured, notSilent, plain⟩ := loud _ isRecord
  have tags : ∀ tag ∈ specifier.ofKinds ["type_identifier"], ∀ latestFirst,
      tag.capturesAfter bytes latestFirst = tag.leaf bytes :: latestFirst := by
    intro tag isTag latestFirst
    exact capturesAfter_tag isTag plain latestFirst
  obtain ⟨list, single, isList, declarations, _⟩ := fieldDeclarations_of_record finds
  rw [declarations] at adds
  rw [Cursor.capturesAfter_children uncaptured notSilent, sorted]
  simp only [recordPattern, branch_children, List.flatMap_cons, List.flatMap_nil, List.append_nil,
    leaf_head, branch_head, List.foldl_append, single, List.foldl_cons, List.foldl_nil]
  rw [Cursor.foldl_capturesAfter_leaves tags,
    Cursor.capturesAfter_children (by rw [isList]; decide) (by rw [isList]; decide),
    foldl_capturesAfter_of_adds adds, List.append_assoc]

theorem flatten_map_captures (shapes : List (List FieldShape)) :
    (shapes.map (·.flatMap FieldShape.captures)).flatten
      = shapes.flatten.flatMap FieldShape.captures := by
  rw [← List.flatMap_def, ← List.flatMap_id, List.flatMap_assoc]
  rfl

/-- Field declarations of the usual forms add the captures of their fields. -/
theorem adds_of_declaresFields {declarations : List Cursor}
    (declares : List.Forall₂ (DeclaresFields bytes) declarations shapes)
    (finds : ∀ declaration ∈ declarations, ∃ around,
      fieldDeclarationPattern.Finds alphabet around declaration) :
    List.Forall₂ (Cursor.Adds bytes) declarations (shapes.map (·.flatMap FieldShape.captures)) := by
  induction declares with
  | nil => exact .nil
  | cons first _ ih =>
      rw [List.forall_mem_cons] at finds
      obtain ⟨around, found⟩ := finds.1
      exact .cons (fun latestFirst => first.capturesAfter_eq found latestFirst) (ih finds.2)

end

end HeaderBindings
