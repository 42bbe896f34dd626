/-
Module: HeaderBindings.Proofs.CommentedRuns
Purpose: Inserted comments change nothing: nodes in the same place have the same claims and captures, and a
  document with comments inserted does to every registry what it does without them.
Main exports: SameMatch, SamePlace.find?, SamePlace.claim?, SamePlace.dispatch_eq, Commented.invisible
-/
import HeaderBindings.Proofs.CommentedTrees
import HeaderBindings.Proofs.Sessions

namespace HeaderBindings

theorem optionRel_map {α β γ δ : Type} {related : α → β → Prop} {parts : γ → δ → Prop}
    {first : α → γ} {second : β → δ} {one : Option α} {other : Option β}
    (paired : Option.Rel related one other)
    (each : ∀ x y, related x y → parts (first x) (second y)) :
    Option.Rel parts (one.map first) (other.map second) := by
  cases paired with
  | none => exact .none
  | some pair => exact .some (each _ _ pair)

/-! ### Matches in the same places -/

/-- Two matches by the same patterns of nodes that stand in the same places. -/
inductive SameMatch (bytes bytes' : List UInt8) : Match → Match → Prop where
  | node {cursor cursor' : Cursor} {pattern : Pattern} {below below' : List Match}
      (place : SamePlace bytes bytes' cursor cursor')
      (children : List.Forall₂ (SameMatch bytes bytes') below below') :
      SameMatch bytes bytes' (.node cursor pattern below) (.node cursor' pattern below')

variable {bytes bytes' : List UInt8} {cursor cursor' : Cursor}

namespace SamePlace

theorem map_kind_named (same : SamePlace bytes bytes' cursor cursor') :
    cursor.named.map Cursor.kind = cursor'.named.map Cursor.kind := by
  rw [← List.forall₂_eq_eq_eq, List.forall₂_map_left_iff, List.forall₂_map_right_iff]
  exact same.named.imp fun _ _ sameChild => sameChild.kind_eq

/-- Children in the same places are matched alike, each against the next pattern, if each one is. -/
theorem findEach? {alphabet : Alphabet} {shape : Matcher} {children children' : List Cursor}
    (paired : List.Forall₂ (SamePlace bytes bytes') children children')
    (each : ∀ child ∈ children,
      ∀ child', SamePlace bytes bytes' child child' → ∀ matcher : Matcher,
      Option.Rel (SameMatch bytes bytes') (matcher.find? alphabet (some shape) child)
        (matcher.find? alphabet (some shape) child'))
    (matchers : List Matcher) :
    Option.Rel (List.Forall₂ (SameMatch bytes bytes'))
      (Matcher.findEach? alphabet shape matchers children)
      (Matcher.findEach? alphabet shape matchers children') := by
  induction paired generalizing matchers with
  | nil =>
      cases matchers with
      | nil => exact .some .nil
      | cons first others => exact .some .nil
  | @cons child child' rest rest' same _ ih =>
      cases matchers with
      | nil => exact .none
      | cons matcher others =>
          rw [List.forall_mem_cons] at each
          have first := each.1 child' same matcher
          have later := ih each.2 others
          rw [Matcher.findEach?, Matcher.findEach?]
          generalize matcher.find? alphabet (some shape) child = one at first ⊢
          generalize matcher.find? alphabet (some shape) child' = other at first ⊢
          cases first with
          | none => exact .none
          | some isFirst => exact optionRel_map later fun _ _ isLater => .cons isFirst isLater

/-- Nodes in the same place are matched alike. -/
theorem find? {cursor cursor' : Cursor} (same : SamePlace bytes bytes' cursor cursor')
    (alphabet : Alphabet) (matcher : Matcher) (enclosing : Option Matcher) :
    Option.Rel (SameMatch bytes bytes') (matcher.find? alphabet enclosing cursor)
      (matcher.find? alphabet enclosing cursor') := by
  rw [Matcher.find?_eq, Matcher.find?_eq, ← same.kind_eq, ← same.map_kind_named]
  split
  · exact .none
  · split
    · exact .some (.node same .nil)
    · split
      · exact .none
      · rename_i spans _
        have each : ∀ child ∈ cursor.named, ∀ child', SamePlace bytes bytes' child child' →
            ∀ part : Matcher, Option.Rel (SameMatch bytes bytes')
              (part.find? alphabet (some (matcher.shape enclosing)) child)
              (part.find? alphabet (some (matcher.shape enclosing)) child') := by
          intro child member child' sameChild part
          have lower := Cursor.height_lt_of_mem_named member
          exact sameChild.find? alphabet part _
        exact optionRel_map (findEach? same.named each _) fun _ _ children => .node same children
termination_by cursor.focus.height

/-! ### Claims -/

/-- Nodes in the same place are claimed by the same entry, with matches of nodes in the same places. -/
theorem claim? {Action : Type} (same : SamePlace bytes bytes' cursor cursor') (table : Table Action)
    (alphabet : Alphabet) :
    Option.Rel (fun claim claim' => claim.entry = claim'.entry ∧
        SameMatch bytes bytes' claim.found claim'.found)
      (table.claim? alphabet cursor) (table.claim? alphabet cursor') := by
  rw [Table.claim?, Table.claim?, ← same.kind_eq]
  induction table.candidates cursor.kind with
  | nil => exact .none
  | cons entry rest ih =>
      rw [List.findSome?_cons, List.findSome?_cons]
      have found := same.find? alphabet entry.matcher none
      generalize entry.matcher.find? alphabet none cursor = one at found ⊢
      generalize entry.matcher.find? alphabet none cursor' = other at found ⊢
      cases found with
      | none => exact ih
      | some sameMatch => exact .some ⟨rfl, sameMatch⟩

end SamePlace

/-! ### Captures -/

namespace SameMatch

open Match

mutual

theorem capturesAfter : ∀ {found found' : Match}, SameMatch bytes bytes' found found' →
    ∀ latestFirst, found.capturesAfter bytes latestFirst = found'.capturesAfter bytes' latestFirst
  | .node cursor pattern below, .node cursor' pattern' below', same, latestFirst => by
      cases same with
      | node place children =>
          rw [Match.capturesAfter, Match.capturesAfter, Capture.add, Capture.add, ← place.kind_eq,
            place.textOf_eq, place.pointerDepth_eq, capturesAfterList children]

theorem capturesAfterList : ∀ {found found' : List Match},
    List.Forall₂ (SameMatch bytes bytes') found found' →
    ∀ latestFirst, capturesAfterList bytes latestFirst found = capturesAfterList bytes' latestFirst found'
  | [], _, same, latestFirst => by
      cases same
      rfl
  | first :: rest, _, same, latestFirst => by
      cases same with
      | cons head tail =>
          rw [Match.capturesAfterList, Match.capturesAfterList, capturesAfter head,
            capturesAfterList tail]

end

/-- Matches of nodes in the same places have the same captures. -/
theorem captures {found found' : Match} (same : SameMatch bytes bytes' found found') :
    found.captures bytes = found'.captures bytes' := by
  rw [Match.captures, Match.captures, same.capturesAfter]

end SameMatch

/-! ### Specifiers -/

namespace Commented

variable {tree tree' : Tree}

theorem hasName_eq (commented : Commented bytes bytes' tree tree') : tree.hasName = tree'.hasName := by
  rw [Tree.hasName, Tree.hasName, Tree.named, Tree.named, List.any_filter, List.any_filter]
  apply commented.children.any_eq
  · intro child child' same
    rw [same.isComment_eq, same.kind_eq]
  · intro comment inserted
    simp [inserted.1]

theorem hasValue_eq (commented : Commented bytes bytes' tree tree') : tree.hasValue = tree'.hasValue := by
  rw [Tree.hasValue, Tree.hasValue, commented.named.length_eq]

theorem isUnion_eq (commented : Commented bytes bytes' tree tree') : tree.isUnion = tree'.isUnion := by
  rw [Tree.isUnion, Tree.isUnion, commented.kind_eq]

theorem namedOfKind? (commented : Commented bytes bytes' tree tree') (kinds : List String) :
    Option.Rel (Commented bytes bytes') (tree.namedOfKind? kinds) (tree'.namedOfKind? kinds) := by
  have paired := commented.named
  rw [Tree.namedOfKind?, Tree.namedOfKind?]
  generalize tree.named = children, tree'.named = children' at paired ⊢
  induction paired with
  | nil => exact .none
  | @cons child child' _ _ same _ ih =>
      rw [List.find?_cons, List.find?_cons, same.kind_eq]
      split
      · exact .some same
      · exact ih

theorem enumerators (commented : Commented bytes bytes' tree tree') :
    List.Forall₂ (Commented bytes bytes') (enumerators tree) (enumerators tree') := by
  have found := commented.namedOfKind? ["enumerator_list"]
  rw [HeaderBindings.enumerators, HeaderBindings.enumerators]
  generalize tree.namedOfKind? ["enumerator_list"] = one at found ⊢
  generalize tree'.namedOfKind? ["enumerator_list"] = other at found ⊢
  cases found with
  | none => exact .nil
  | some body =>
      apply List.rel_filter _ body.named
      intro child child' same
      simp only [same.kind_eq]

/-- Members are read from the enumerators without what is below them that is no value. -/
theorem readMembers_eq {trees trees' : List Tree}
    (same : List.Forall₂ (Commented bytes bytes') trees trees')
    (known : List (String × Int)) (next : Int) (before : List Enumerator) (captures : List Capture) :
    readMembers known next before trees captures = readMembers known next before trees' captures := by
  induction same generalizing known next before captures with
  | nil => rfl
  | @cons enumerator enumerator' rest rest' head _ ih =>
      unfold readMembers
      simp only [head.hasValue_eq, ih]

theorem emitEnumeration_eq (commented : Commented bytes bytes' tree tree') (name : String)
    (captures : List Capture) :
    emitEnumeration name tree captures = emitEnumeration name tree' captures := by
  unfold emitEnumeration
  rw [readMembers_eq commented.enumerators]

end Commented

/-! ### Actions and documents -/

namespace SamePlace

theorem underTypedef_eq (same : SamePlace bytes bytes' cursor cursor') :
    cursor.underTypedef = cursor'.underTypedef := by
  cases same with
  | root _ => rfl
  | child _ _ _ _ => rfl

theorem spanKey_eq (same : SamePlace bytes bytes' cursor cursor') : cursor.spanKey = cursor'.spanKey := by
  rw [Cursor.spanKey, Cursor.spanKey, same.focus.label_eq]

/-- An action does the same for nodes in the same place. -/
theorem run_eq (same : SamePlace bytes bytes' cursor cursor') (action : Action)
    (captures : List Capture) :
    action.run (some cursor) captures = action.run (some cursor') captures := by
  have focus := same.focus
  cases action with
  | defineConstant | declareAlias | declareFunction => rfl
  | declareRecord =>
      simp only [Action.run, Action.withNode, declareRecord, focus.hasName_eq, focus.isUnion_eq,
        same.underTypedef_eq, same.spanKey_eq]
  | declareEnumeration =>
      simp only [Action.run, Action.withNode, declareEnumeration, focus.hasName_eq,
        focus.emitEnumeration_eq, same.underTypedef_eq, same.spanKey_eq]
  | declareTypedefRecord =>
      have found := focus.namedOfKind? ["struct_specifier", "union_specifier"]
      simp only [Action.run, Action.withNode, declareTypedefRecord]
      generalize cursor.focus.namedOfKind? ["struct_specifier", "union_specifier"] = one at found ⊢
      generalize cursor'.focus.namedOfKind? ["struct_specifier", "union_specifier"] = other at found ⊢
      cases found with
      | none => rfl
      | some specifier =>
          cases captures.getLast? with
          | none => rfl
          | some last => simp only [specifier.hasName_eq, specifier.isUnion_eq]
  | declareTypedefEnumeration =>
      have found := focus.namedOfKind? ["enum_specifier"]
      simp only [Action.run, Action.withNode, declareTypedefEnumeration]
      generalize cursor.focus.namedOfKind? ["enum_specifier"] = one at found ⊢
      generalize cursor'.focus.namedOfKind? ["enum_specifier"] = other at found ⊢
      cases found with
      | none => rfl
      | some specifier =>
          cases captures.getLast? with
          | none => rfl
          | some last => simp only [specifier.hasName_eq, specifier.emitEnumeration_eq]

variable {table : Table Action} {alphabet : Alphabet}

theorem dispatch_eq (same : SamePlace bytes bytes' cursor cursor') :
    table.dispatch alphabet bytes Generation.runDefault cursor
      = table.dispatch alphabet bytes' Generation.runDefault cursor' := by
  have claimed := same.claim? table alphabet
  rw [Table.dispatch, Table.dispatch]
  generalize table.claim? alphabet cursor = one at claimed ⊢
  generalize table.claim? alphabet cursor' = other at claimed ⊢
  cases claimed with
  | none => rfl
  | some sameClaim =>
      obtain ⟨sameEntry, sameMatch⟩ := sameClaim
      simp only [sameEntry, sameMatch.captures, Generation.runDefault, same.run_eq]

theorem processNodes_eq {cursors cursors' : List Cursor}
    (same : List.Forall₂ (SamePlace bytes bytes') cursors cursors') (claimed : Nat) :
    table.processNodes alphabet bytes Generation.runDefault claimed cursors
      = table.processNodes alphabet bytes' Generation.runDefault claimed cursors' := by
  induction same generalizing claimed with
  | nil => rfl
  | @cons cursor cursor' rest rest' head _ ih =>
      rw [Table.processNodes, Table.processNodes, head.kind_eq, head.dispatch_eq]
      simp only [ih]

end SamePlace

/-- Comments that are inserted into a document below the root of its tree, with whatever is below them, are
invisible, if they fill no fields and all other nodes keep their kinds, spans, fields and texts. Every node
stands in the same place as before. There a table claims it by the same entry, with a match of nodes in the
same places and with the same captures, and the same pointers are around it. And offering all nodes of the
document does to every registry what it did before: the same steps, the same count, or the same fault. -/
theorem Commented.invisible {document document' : Document}
    (commented : Commented document.bytes document'.bytes document.tree document'.tree)
    (table : Table Action) (alphabet : Alphabet) :
    (∀ cursor ∈ (Cursor.root document.tree).preorder,
      ∃ cursor' ∈ (Cursor.root document'.tree).preorder,
      SamePlace document.bytes document'.bytes cursor cursor') ∧
    (∀ cursor cursor', SamePlace document.bytes document'.bytes cursor cursor' →
      cursor.pointerDepth = cursor'.pointerDepth ∧
      Option.Rel (fun claim claim' => claim.entry = claim'.entry ∧
          SameMatch document.bytes document'.bytes claim.found claim'.found ∧
          claim.found.captures document.bytes = claim'.found.captures document'.bytes)
        (table.claim? alphabet cursor) (table.claim? alphabet cursor')) ∧
    (table.process alphabet Generation.runDefault document : Run Nat)
      = table.process alphabet Generation.runDefault document' := by
  have root : SamePlace document.bytes document'.bytes (.root document.tree) (.root document'.tree) :=
    .root commented
  refine ⟨fun cursor member => root.exists_of_mem_preorder member, ?_, ?_⟩
  · intro cursor cursor' same
    refine ⟨same.pointerDepth_eq, ?_⟩
    have claimed := same.claim? table alphabet
    generalize table.claim? alphabet cursor = one at claimed ⊢
    generalize table.claim? alphabet cursor' = other at claimed ⊢
    cases claimed with
    | none => exact .none
    | some sameClaim => exact .some ⟨sameClaim.1, sameClaim.2, sameClaim.2.captures⟩
  · exact SamePlace.processNodes_eq root.walk 0

/-- An enumeration and a record, with some nodes between the name and the value of a member, behind the
star of a pointer, and between a field's name and its length. -/
def enumerationAndRecord (inMember inPointer inArray : List Tree) : Document where
  bytes := "enum E { N/**/ = 5, M };\nstruct S { int */**/a/**/[2]; };".toUTF8.toList
  tree := .node ⟨"translation_unit", 0, 57, none⟩ [
    .node ⟨"enum_specifier", 0, 23, none⟩ [
      .node ⟨"type_identifier", 5, 6, some "name"⟩ [],
      .node ⟨"enumerator_list", 7, 23, some "body"⟩ [
        .node ⟨"enumerator", 9, 18, none⟩ (.node ⟨"identifier", 9, 10, some "name"⟩ []
          :: inMember ++ [.node ⟨"number_literal", 17, 18, some "value"⟩ []]),
        .node ⟨"enumerator", 20, 21, none⟩ [.node ⟨"identifier", 20, 21, some "name"⟩ []]]],
    .node ⟨"struct_specifier", 25, 56, none⟩ [
      .node ⟨"type_identifier", 32, 33, some "name"⟩ [],
      .node ⟨"field_declaration_list", 34, 56, some "body"⟩ [
        .node ⟨"field_declaration", 36, 54, none⟩ [
          .node ⟨"primitive_type", 36, 39, some "type"⟩ [],
          .node ⟨"pointer_declarator", 40, 53, some "declarator"⟩ (inPointer ++ [
            .node ⟨"array_declarator", 45, 53, some "declarator"⟩ (
              .node ⟨"field_identifier", 45, 46, some "declarator"⟩ []
                :: inArray ++ [.node ⟨"number_literal", 51, 52, some "size"⟩ []])])]]]]
  hasError := false

/-- A comment, with a node below it. -/
def commentAt (start : Nat) : Tree :=
  .node ⟨"comment", start, start + 4, none⟩ [.node ⟨"identifier", start, start + 1, none⟩ []]

/-- The document with three comments declares what it does without them. -/
theorem Commented.invisible_enumerationAndRecord : ∃ registry,
    registry.emitted = ⟨[],
      [.record ⟨"S", "struct S", "", false,
        [⟨"a", .pointer (.named "ctypes.c_int"), some "2", none⟩]⟩],
      [.enumeration ⟨"E", "", [⟨"N", "5"⟩, ⟨"M", "6"⟩]⟩], []⟩ ∧
    (Rules.table.process (m := Run) Rules.alphabet Generation.runDefault
      (enumerationAndRecord [] [] [])).Returns .empty 2 registry ∧
    (Rules.table.process (m := Run) Rules.alphabet Generation.runDefault
      (enumerationAndRecord [commentAt 10] [commentAt 41] [commentAt 46])).Returns
        .empty 2 registry := by
  have same := Commented.refl (enumerationAndRecord [] [] []).bytes
  have loose : ∀ start, (commentAt start).LooseComment := fun _ => ⟨rfl, rfl⟩
  have commented : Commented (enumerationAndRecord [] [] []).bytes
      (enumerationAndRecord [commentAt 10] [commentAt 41] [commentAt 46]).bytes
      (enumerationAndRecord [] [] []).tree
      (enumerationAndRecord [commentAt 10] [commentAt 41] [commentAt 46]).tree := by
    refine .node rfl (.kept ?enumeration (.kept ?record .nil))
    case enumeration =>
      refine .node rfl (.kept (same _) (.kept ?_ .nil))
      refine .node rfl (.kept ?_ (.kept (same _) .nil))
      exact .node rfl (.kept (same _) (.inserted (loose 10) (.kept (same _) .nil)))
    case record =>
      refine .node rfl (.kept (same _) (.kept ?_ .nil))
      refine .node rfl (.kept ?_ .nil)
      refine .node rfl (.kept (same _) (.kept ?_ .nil))
      refine .node rfl (.inserted (loose 41) (.kept ?_ .nil))
      exact .node rfl (.kept (same _) (.inserted (loose 46) (.kept (same _) .nil)))
  obtain ⟨_, _, sameProcess⟩ := commented.invisible Rules.table Rules.alphabet
  have returns : (Rules.table.process (m := Run) Rules.alphabet Generation.runDefault
      (enumerationAndRecord [] [] [])).Returns .empty 2
      ⟨"", [], ⟨["N", "M"], ["S"], ["E"], []⟩, ⟨[],
        [.record ⟨"S", "struct S", "", false,
          [⟨"a", .pointer (.named "ctypes.c_int"), some "2", none⟩]⟩],
        [.enumeration ⟨"E", "", [⟨"N", "5"⟩, ⟨"M", "6"⟩]⟩], []⟩, [], []⟩ := by
    rw [Rules.table_eq, Rules.alphabet_eq]
    decide +kernel
  refine ⟨_, rfl, returns, ?_⟩
  rw [← sameProcess]
  exact returns

end HeaderBindings
