/-
Module: HeaderBindings.Proofs.FieldShapes
Purpose: What the field declarations in a record's tree declare, read from the tree alone.
Main exports: ArraysAround, Declares, FieldShape, DeclaresAll, DeclaresFields, FieldShape.field,
  Declares.pointersAbove_eq
-/
import HeaderBindings.Binding.Record
import HeaderBindings.Proofs.FoundNodes

namespace HeaderBindings

open Spelling

/-! ### Parts of a declaration -/

/-- Kinds of type specifiers. -/
def typeKinds : List String :=
  ["primitive_type", "type_identifier", "sized_type_specifier", "struct_specifier",
    "union_specifier", "enum_specifier"]

/-- Kinds of declarators that hold a name. -/
def declaratorKinds : List String :=
  ["pointer_declarator", "array_declarator", "field_identifier"]

/-- Kinds of what a field declaration declares: declarators, and widths of bit fields. -/
def declaredKinds : List String :=
  ["field_identifier", "pointer_declarator", "array_declarator", "bitfield_clause"]

namespace Cursor

/-- The text of a node on one line. -/
def textIn (bytes : List UInt8) (cursor : Cursor) : String :=
  Text.collapsed (Document.textOf bytes cursor)

/-- The kind and the text of a node. -/
def leaf (bytes : List UInt8) (cursor : Cursor) : Capture :=
  ⟨cursor.kind, cursor.textIn bytes⟩

/-- The node that spells a type: the tag of a tagged type, and otherwise the specifier itself. -/
def spellingNode (specifier : Cursor) : Cursor :=
  if Capture.typeNames.contains specifier.kind then specifier
  else (specifier.ofKinds ["type_identifier"]).headD specifier

/-- Whether a node fills the field of its parent that is for the declarator. -/
def FillsDeclarator (cursor : Cursor) : Prop :=
  ∃ frame ∈ cursor.above.head?, frame.parent.fieldIndex? "declarator" = some frame.index

end Cursor

/-! ### Declarators -/

/-- A declarator wraps a name in arrays, whose lengths are listed from the innermost array outwards. -/
inductive ArraysAround (bytes : List UInt8) : Cursor → Cursor → List Capture → Prop where
  | name {declarator : Cursor} (kind : declarator.kind = "field_identifier") :
      ArraysAround bytes declarator declarator []
  | array {declarator inner name : Cursor} {lengths : List Capture}
      (kind : declarator.kind = "array_declarator")
      (wraps : declarator.ofKinds declaratorKinds = [inner]) (fills : inner.FillsDeclarator)
      (around : ArraysAround bytes inner name lengths) :
      ArraysAround bytes declarator name
        (lengths ++ (declarator.ofKinds arrayLengthKinds).map (Cursor.leaf bytes))

/-- A declarator wraps a name in arrays and these in a number of pointers. -/
inductive Declares (bytes : List UInt8) : Cursor → Nat → Cursor → List Capture → Prop where
  | arrays {declarator name : Cursor} {lengths : List Capture}
      (around : ArraysAround bytes declarator name lengths) :
      Declares bytes declarator 0 name lengths
  | pointer {declarator inner name : Cursor} {depth : Nat} {lengths : List Capture}
      (kind : declarator.kind = "pointer_declarator")
      (wraps : declarator.ofKinds declaratorKinds = [inner])
      (plain : declarator.ofKinds arrayLengthKinds = [])
      (pointee : Declares bytes inner depth name lengths) :
      Declares bytes declarator (depth + 1) name lengths

/-! ### Fields -/

/-- A field as it is declared: its type with the pointers of its declarator, its name with the lengths
of its arrays and its width; or only a type and a width. -/
inductive FieldShape where
  | named (type : Capture) (name : String) (lengths : List Capture) (width : Option Capture)
  | padding (type width : Capture)
deriving Repr, DecidableEq

/-- A type with a number of pointers to it. -/
def Capture.pointers (type : Capture) (depth : Nat) : Capture :=
  { type with text := type.text ++ Capture.stars depth }

namespace FieldShape

/-- The type of a field. -/
def type : FieldShape → Capture
  | named type _ _ _ => type
  | padding type _ => type

/-- The expression for a C type, if it has one. -/
def target (spelled : String) : TypeExpr :=
  ((typeExpr spelled).toOption.getD none).getD .noValue

/-- The field of a generated record at an index. A field without name is called by its index. -/
def field (index : Nat) : FieldShape → Field
  | named type name lengths width =>
      ⟨bindingName name, target type.text, arraySuffix lengths, width.map Capture.bitWidth⟩
  | padding type width =>
      ⟨"_pad" ++ toString index, target type.text, none, some width.bitWidth⟩

end FieldShape

/-- Declarators of one type, each followed by the width of a bit field or not, declare one field
each. -/
inductive DeclaresAll (bytes : List UInt8) (type : Capture) :
    List Cursor → List FieldShape → Prop where
  | nil : DeclaresAll bytes type [] []
  | field {declarator name : Cursor} {rest : List Cursor} {depth : Nat} {lengths : List Capture}
      {shapes : List FieldShape} (declares : Declares bytes declarator depth name lengths)
      (others : DeclaresAll bytes type rest shapes) :
      DeclaresAll bytes type (declarator :: rest)
        (.named (type.pointers depth) (name.textIn bytes) lengths none :: shapes)
  | bitField {declarator name width : Cursor} {rest : List Cursor} {depth : Nat}
      {lengths : List Capture} {shapes : List FieldShape}
      (declares : Declares bytes declarator depth name lengths)
      (isWidth : width.kind = "bitfield_clause") (others : DeclaresAll bytes type rest shapes) :
      DeclaresAll bytes type (declarator :: width :: rest)
        (.named (type.pointers depth) (name.textIn bytes) lengths (some (width.leaf bytes)) :: shapes)

/-- A field declaration with one type, in whose text there is no star, declares fields: those of its
declarators, or one without name. -/
inductive DeclaresFields (bytes : List UInt8) (declaration : Cursor) : List FieldShape → Prop where
  | named {specifier : Cursor} {shapes : List FieldShape}
      (typed : declaration.ofKinds typeKinds = [specifier])
      (starless : '*' ∉ (specifier.spellingNode.textIn bytes).toList)
      (declares : DeclaresAll bytes (specifier.spellingNode.leaf bytes)
        (declaration.ofKinds declaredKinds) shapes) :
      DeclaresFields bytes declaration shapes
  | padding {specifier width : Cursor}
      (typed : declaration.ofKinds typeKinds = [specifier])
      (starless : '*' ∉ (specifier.spellingNode.textIn bytes).toList)
      (alone : declaration.ofKinds declaredKinds = [width])
      (isWidth : width.kind = "bitfield_clause") :
      DeclaresFields bytes declaration [.padding (specifier.spellingNode.leaf bytes) (width.leaf bytes)]

/-- The field declarations of a record. -/
def Cursor.fieldDeclarations (specifier : Cursor) : List Cursor :=
  (specifier.ofKinds ["field_declaration_list"]).flatMap (·.ofKinds ["field_declaration"])

/-! ### Pointers around a name

A name's pointers are counted on the way up from it. -/

namespace Cursor

theorem pointersAbove_cons_of_other {parent : Tree} {index : Nat} {above : List Frame}
    (other : parent.kind ≠ "function_declarator" ∧ parent.kind ≠ "array_declarator") :
    pointersAbove (⟨parent, index⟩ :: above) = pointerRun (⟨parent, index⟩ :: above) := by
  simp [pointersAbove, other.1, other.2]

theorem pointersAbove_cons_of_array {parent : Tree} {index : Nat} {above : List Frame}
    (array : parent.kind = "array_declarator") :
    pointersAbove (⟨parent, index⟩ :: above) =
      if parent.fieldIndex? "declarator" = some index then pointersAbove above else 0 := by
  simp [pointersAbove, array]

theorem pointerRun_cons (parent : Tree) (index : Nat) (above : List Frame) :
    pointerRun (⟨parent, index⟩ :: above) =
      if parent.kind == "pointer_declarator" then pointerRun above + 1 else 0 := by
  rw [pointerRun, List.takeWhile_cons]
  split
  · rfl
  · rfl

theorem pointerRun_cons_of_pointer {parent : Tree} {index : Nat} {above : List Frame}
    (pointer : parent.kind = "pointer_declarator") :
    pointerRun (⟨parent, index⟩ :: above) = pointerRun above + 1 := by
  simp [pointerRun_cons, pointer]

/-- There are no pointers around a node whose parent is no declarator. -/
theorem pointerDepth_eq_zero {cursor child : Cursor} (member : child ∈ cursor.named)
    (plain : cursor.kind ∉ ["function_declarator", "array_declarator", "pointer_declarator"]) :
    child.pointerDepth = 0 := by
  obtain ⟨index, above, _⟩ := exists_index_of_mem_named member
  simp only [List.mem_cons, List.not_mem_nil, or_false, not_or, kind] at plain
  rw [pointerDepth, above, pointersAbove_cons_of_other ⟨plain.1, plain.2.1⟩]
  simp [pointerRun_cons, plain.2.2]

end Cursor

/-- Arrays do not count as pointers. -/
theorem ArraysAround.pointersAbove_eq {bytes : List UInt8} {declarator name : Cursor}
    {lengths : List Capture} (around : ArraysAround bytes declarator name lengths) :
    Cursor.pointersAbove name.above = Cursor.pointersAbove declarator.above := by
  induction around with
  | name _ => rfl
  | @array declarator inner name lengths kind wraps fills _ ih =>
      have member : inner ∈ declarator.named := by
        have inside : inner ∈ declarator.ofKinds declaratorKinds := by simp [wraps]
        exact (Cursor.mem_ofKinds.mp inside).1
      obtain ⟨index, above, _⟩ := Cursor.exists_index_of_mem_named member
      obtain ⟨frame, isFrame, filled⟩ := fills
      obtain rfl : frame = ⟨declarator.focus, index⟩ := by
        rw [above, List.head?_cons, Option.mem_some_iff] at isFrame
        exact isFrame.symm
      rw [ih, above, Cursor.pointersAbove_cons_of_array kind, if_pos filled]

/-- The pointers around a declared name are those of its declarator, if no pointers are around that. -/
theorem Declares.pointersAbove_eq {bytes : List UInt8} {declarator name : Cursor} {depth : Nat}
    {lengths : List Capture} (declares : Declares bytes declarator depth name lengths)
    (outside : Cursor.pointersAbove declarator.above = Cursor.pointerRun declarator.above) :
    Cursor.pointersAbove name.above = depth + Cursor.pointerRun declarator.above := by
  induction declares with
  | arrays around => rw [around.pointersAbove_eq, outside, Nat.zero_add]
  | @pointer declarator inner name depth lengths kind wraps _ _ ih =>
      have member : inner ∈ declarator.named := by
        have inside : inner ∈ declarator.ofKinds declaratorKinds := by simp [wraps]
        exact (Cursor.mem_ofKinds.mp inside).1
      obtain ⟨index, above, _⟩ := Cursor.exists_index_of_mem_named member
      have pointer : declarator.focus.kind = "pointer_declarator" := kind
      have other : declarator.focus.kind ≠ "function_declarator" ∧
          declarator.focus.kind ≠ "array_declarator" := by simp [pointer]
      rw [above] at ih
      rw [ih (Cursor.pointersAbove_cons_of_other other), Cursor.pointerRun_cons_of_pointer pointer]
      omega

/-- What is declared is a field's name. -/
theorem Declares.name_kind {bytes : List UInt8} {declarator name : Cursor} {depth : Nat}
    {lengths : List Capture} (declares : Declares bytes declarator depth name lengths) :
    name.kind = "field_identifier" := by
  induction declares with
  | arrays around =>
      induction around with
      | name kind => exact kind
      | array _ _ _ _ ih => exact ih
  | pointer _ _ _ _ ih => exact ih

/-- Lengths are captures that follow a field as lengths of an array. -/
theorem Declares.isArrayLength {bytes : List UInt8} {declarator name : Cursor} {depth : Nat}
    {lengths : List Capture} (declares : Declares bytes declarator depth name lengths) :
    ∀ length ∈ lengths, length.isArrayLength = true := by
  induction declares with
  | arrays around =>
      induction around with
      | name _ => simp
      | @array declarator _ _ _ _ _ _ _ ih =>
          intro length member
          rcases List.mem_append.mp member with earlier | own
          · exact ih length earlier
          · obtain ⟨cursor, isOwn, rfl⟩ := List.mem_map.mp own
            exact List.contains_iff_mem.mpr (Cursor.mem_ofKinds.mp isOwn).2
  | pointer _ _ _ _ ih => exact ih

end HeaderBindings
