/-
Module: HeaderBindings.Proofs.MixedRuns
Purpose: What a field declaration declares whose names and widths stand in any order, and the captures that
  spell it: the type is written again before a later name, but not before a width.
Main exports: fieldsOfRun, SpelledField, isWhole_ofDeclaration_iff, MixedRun, MixedRun.adds
-/
import HeaderBindings.Proofs.RecordFields

namespace HeaderBindings

open Spelling

/-! ### Runs of names and widths -/

namespace Cursor

/-- Whether a node is the width of a bit field. -/
def isWidth (cursor : Cursor) : Bool := cursor.kind == "bitfield_clause"

/-- The width at the start of a run. -/
def leadingWidth? (bytes : List UInt8) (run : List Cursor) : Option Capture :=
  (run.head?.filter isWidth).map (leaf bytes)

theorem leadingWidth?_cons (bytes : List UInt8) (first : Cursor) (rest : List Cursor) :
    leadingWidth? bytes (first :: rest)
      = if first.isWidth then some (first.leaf bytes) else none := by
  rw [leadingWidth?, List.head?_cons]
  cases width : first.isWidth <;> simp [Option.filter, width]

/-- The widths in a run that do not come right after a name. The flag tells whether there is a name right
before the run. -/
def unnamedWidths : Bool → List Cursor → List Cursor
  | _, [] => []
  | named, first :: rest =>
      if first.isWidth then
        if named then unnamedWidths false rest else first :: unnamedWidths false rest
      else unnamedWidths true rest

/-- A run without the widths that do not come right after a name. -/
def withoutUnnamed : Bool → List Cursor → List Cursor
  | _, [] => []
  | named, first :: rest =>
      if first.isWidth then
        if named then first :: withoutUnnamed false rest else withoutUnnamed false rest
      else first :: withoutUnnamed true rest

/-- In a run, no width comes right after another. -/
def WidthsApart (run : List Cursor) : Prop :=
  run.IsChain fun first next => first.isWidth = true → next.isWidth = false

instance (run : List Cursor) : Decidable (WidthsApart run) :=
  inferInstanceAs (Decidable (run.IsChain _))

end Cursor

/-- Whether a field has a name. -/
def FieldShape.isNamed : FieldShape → Bool
  | named .. => true
  | padding .. => false

/-- The fields that a run of names and widths declares with a type: one for each name, with the width right
after it, and one without name for each other width. -/
def fieldsOfRun (bytes : List UInt8) (type : Capture) : Bool → List Cursor → List FieldShape
  | _, [] => []
  | named, first :: rest =>
      if first.isWidth then
        if named then fieldsOfRun bytes type false rest
        else .padding type (first.leaf bytes) :: fieldsOfRun bytes type false rest
      else
        .named type (first.textIn bytes) [] (Cursor.leadingWidth? bytes rest)
          :: fieldsOfRun bytes type true rest

section

variable (bytes : List UInt8) (type : Capture)

/-- A run declares one field for each name and one for each width without a name. -/
theorem length_fieldsOfRun (named : Bool) (run : List Cursor) :
    (fieldsOfRun bytes type named run).length
      = (run.filter (!·.isWidth)).length + (Cursor.unnamedWidths named run).length := by
  induction run generalizing named with
  | nil => rfl
  | cons first rest ih =>
      rw [fieldsOfRun, Cursor.unnamedWidths]
      cases width : first.isWidth with
      | true =>
          cases named with
          | true => simp [width, ih]
          | false =>
              simp only [width, if_true, Bool.false_eq_true, if_false, Bool.not_true, List.filter_cons,
                List.length_cons, ih]
              omega
      | false =>
          simp only [width, Bool.false_eq_true, if_false, Bool.not_false, if_true, List.filter_cons,
            List.length_cons, ih]
          omega

theorem leadingWidth?_withoutUnnamed (run : List Cursor) :
    Cursor.leadingWidth? bytes (Cursor.withoutUnnamed true run) = Cursor.leadingWidth? bytes run := by
  cases run with
  | nil => rfl
  | cons first rest =>
      rw [Cursor.withoutUnnamed]
      split <;> rfl

/-- The fields with a name are those of the run without the widths that have none. -/
theorem fieldsOfRun_withoutUnnamed (named : Bool) (run : List Cursor) :
    fieldsOfRun bytes type named (Cursor.withoutUnnamed named run)
      = (fieldsOfRun bytes type named run).filter FieldShape.isNamed := by
  induction run generalizing named with
  | nil => rfl
  | cons first rest ih =>
      rw [Cursor.withoutUnnamed, fieldsOfRun]
      cases width : first.isWidth with
      | true =>
          cases named with
          | true => simp [fieldsOfRun, width, ih]
          | false => simp [FieldShape.isNamed, ih]
      | false =>
          rw [if_neg (by simp), if_neg (by simp), List.filter_cons_of_pos rfl, fieldsOfRun,
            if_neg (by simp [width]), leadingWidth?_withoutUnnamed, ih]

theorem wellFormed_fieldsOfRun (isType : type.kind ∈ typeKinds) (named : Bool) (run : List Cursor) :
    ∀ shape ∈ fieldsOfRun bytes type named run, shape.WellFormed := by
  induction run generalizing named with
  | nil => simp [fieldsOfRun]
  | cons first rest ih =>
      rw [fieldsOfRun]
      split
      · rename_i width
        split
        · exact ih false
        · exact List.forall_mem_cons.mpr ⟨⟨isType, width⟩, ih false⟩
      · refine List.forall_mem_cons.mpr ⟨⟨isType, by simp, ?_⟩, ih true⟩
        intro capture leading
        obtain ⟨width, isLeading, rfl⟩ := Option.map_eq_some_iff.mp leading
        exact (Option.filter_eq_some_iff.mp isLeading).2

end

/-! ### Fields as captures spell them -/

/-- A field as captures spell it: with its type; or, if it has no name, maybe by its width alone. -/
inductive SpelledField where
  | whole (shape : FieldShape)
  | widthAlone (type width : Capture)

namespace SpelledField

/-- The field that is spelled. -/
def shape : SpelledField → FieldShape
  | whole shape => shape
  | widthAlone type width => .padding type width

/-- The captures that spell it. -/
def captures : SpelledField → List Capture
  | whole shape => shape.captures
  | widthAlone _ width => [width]

/-- Whether the type is among them. -/
def isWhole : SpelledField → Bool
  | whole _ => true
  | widthAlone _ _ => false

/-- A field after others of its declaration: the type is only written again before a name. -/
def later : FieldShape → SpelledField
  | .named type name lengths width => whole (.named type name lengths width)
  | .padding type width => widthAlone type width

/-- The fields of one declaration: the first follows the declaration's type. -/
def ofDeclaration : List FieldShape → List SpelledField
  | [] => []
  | first :: others => whole first :: others.map later

@[simp] theorem shape_later (shape : FieldShape) : (later shape).shape = shape := by
  cases shape <;> rfl

@[simp] theorem isWhole_whole (shape : FieldShape) : (whole shape).isWhole = true := rfl

@[simp] theorem isWhole_later (shape : FieldShape) : (later shape).isWhole = shape.isNamed := by
  cases shape <;> rfl

theorem map_shape_ofDeclaration (shapes : List FieldShape) :
    (ofDeclaration shapes).map shape = shapes := by
  cases shapes with
  | nil => rfl
  | cons first others =>
      have undone : shape ∘ later = id := funext shape_later
      rw [ofDeclaration, List.map_cons, List.map_map, undone, List.map_id]
      rfl

end SpelledField

/-- The captures of a node after the first in a run: a name's come with the type. -/
def laterCaptures (bytes : List UInt8) (type : Capture) (node : Cursor) : List Capture :=
  if node.isWidth then [node.leaf bytes] else [type, node.leaf bytes]

section

variable {bytes : List UInt8} {type : Capture}

/-- After a name, the width at the start of a run belongs to that name, and the rest are fields that are
spelled as later ones. -/
theorem flatMap_laterCaptures (named : Bool) {run : List Cursor}
    (names : ∀ node ∈ run, node.isWidth = false → node.kind = "field_identifier") :
    run.flatMap (laterCaptures bytes type)
      = (if named then (Cursor.leadingWidth? bytes run).toList else [])
        ++ ((fieldsOfRun bytes type named run).map SpelledField.later).flatMap
          SpelledField.captures := by
  induction run generalizing named with
  | nil => cases named <;> rfl
  | cons first rest ih =>
      rw [List.forall_mem_cons] at names
      rw [List.flatMap_cons, fieldsOfRun, laterCaptures]
      cases width : first.isWidth with
      | true =>
          rw [ih false names.2]
          cases named with
          | true => simp [Cursor.leadingWidth?_cons, width]
          | false => simp [SpelledField.later, SpelledField.captures]
      | false =>
          have isName : first.leaf bytes = ⟨"field_identifier", first.textIn bytes⟩ := by
            rw [Cursor.leaf, names.1 width]
          rw [ih true names.2, isName]
          simp [Cursor.leadingWidth?_cons, width, SpelledField.later, SpelledField.captures,
            FieldShape.captures]

/-- The captures of a run after its type are those of its fields. -/
theorem captures_ofDeclaration {first : Cursor} {rest : List Cursor}
    (names : ∀ node ∈ first :: rest, node.isWidth = false → node.kind = "field_identifier") :
    type :: first.leaf bytes :: rest.flatMap (laterCaptures bytes type)
      = (SpelledField.ofDeclaration (fieldsOfRun bytes type false (first :: rest))).flatMap
        SpelledField.captures := by
  rw [List.forall_mem_cons] at names
  rw [fieldsOfRun]
  cases width : first.isWidth with
  | true =>
      rw [flatMap_laterCaptures false names.2]
      simp [SpelledField.ofDeclaration, SpelledField.captures, FieldShape.captures]
  | false =>
      have isName : first.leaf bytes = ⟨"field_identifier", first.textIn bytes⟩ := by
        rw [Cursor.leaf, names.1 width]
      rw [flatMap_laterCaptures true names.2, isName]
      simp [SpelledField.ofDeclaration, SpelledField.captures, FieldShape.captures]

/-- All fields after a node have a name exactly if no width comes right after another from that node
on. -/
theorem isNamed_fieldsOfRun_iff (before : Cursor) (run : List Cursor) :
    (∀ shape ∈ fieldsOfRun bytes type (!before.isWidth) run, shape.isNamed = true) ↔
      Cursor.WidthsApart (before :: run) := by
  induction run generalizing before with
  | nil => simp [fieldsOfRun, Cursor.WidthsApart]
  | cons first rest ih =>
      have next := ih first
      rw [Cursor.WidthsApart] at next ⊢
      rw [fieldsOfRun, List.isChain_cons_cons]
      cases width : first.isWidth with
      | true =>
          rw [width, Bool.not_true] at next
          cases again : before.isWidth with
          | true => simp [FieldShape.isNamed]
          | false => simpa using next
      | false =>
          rw [width, Bool.not_false] at next
          simpa [FieldShape.isNamed] using next

/-- All fields of a run are spelled with their type exactly if no width comes right after another. -/
theorem isWhole_ofDeclaration_iff (run : List Cursor) :
    (∀ field ∈ SpelledField.ofDeclaration (fieldsOfRun bytes type false run),
      field.isWhole = true) ↔ Cursor.WidthsApart run := by
  cases run with
  | nil => simp [fieldsOfRun, SpelledField.ofDeclaration, Cursor.WidthsApart]
  | cons first rest =>
      have others := @isNamed_fieldsOfRun_iff bytes type first rest
      rw [← others, fieldsOfRun]
      cases first.isWidth <;> simp [SpelledField.ofDeclaration]

end

/-! ### Captures of a run -/

namespace Cursor

/-- The node that spells the type of a field declaration. -/
def typeNode (declaration : Cursor) : Cursor :=
  ((declaration.ofKinds typeKinds).headD declaration).spellingNode

/-- The fields that the names and widths of a field declaration declare. -/
def declaredFields (bytes : List UInt8) (declaration : Cursor) : List FieldShape :=
  fieldsOfRun bytes (declaration.typeNode.leaf bytes) false (declaration.ofKinds declaredKinds)

end Cursor

/-- A field declaration with one type, whose text does not end with a star, and with names and widths in
any order. -/
structure MixedRun (bytes : List UInt8) (declaration : Cursor) : Prop where
  typed : (declaration.ofKinds typeKinds).length = 1
  unstarred : (declaration.typeNode.textIn bytes).toList.getLast? ≠ some '*'
  names : ∀ node ∈ declaration.ofKinds declaredKinds,
    node.isWidth = false → node.kind = "field_identifier"

instance (bytes : List UInt8) (declaration : Cursor) : Decidable (MixedRun bytes declaration) :=
  decidable_of_iff ((declaration.ofKinds typeKinds).length = 1 ∧
      (declaration.typeNode.textIn bytes).toList.getLast? ≠ some '*' ∧
      ∀ node ∈ declaration.ofKinds declaredKinds,
        node.isWidth = false → node.kind = "field_identifier")
    ⟨fun ⟨typed, unstarred, names⟩ => ⟨typed, unstarred, names⟩,
      fun ⟨typed, unstarred, names⟩ => ⟨typed, unstarred, names⟩⟩

section

variable {alphabet : Alphabet} {bytes : List UInt8} {declaration : Cursor} {type : Capture}
  {latestFirst earlier : List Capture}

theorem Cursor.kind_of_isWidth {node : Cursor} (width : node.isWidth = true) :
    node.kind = "bitfield_clause" := by
  simpa [Cursor.isWidth] using width

/-- A name or a width spells no type. -/
theorem leaf_kind_notMem {node : Cursor} (name : node.isWidth = false → node.kind = "field_identifier") :
    (node.leaf bytes).kind ∉ Capture.typeNames := by
  change node.kind ∉ Capture.typeNames
  cases width : node.isWidth with
  | true =>
      rw [Cursor.kind_of_isWidth width]
      decide
  | false =>
      rw [name width]
      decide

/-- A name without declarators around it adds the type and itself. -/
theorem capturesAfter_name {name : Cursor} (inside : name ∈ declaration.named)
    (isDeclaration : declaration.kind = "field_declaration") (isName : name.kind = "field_identifier")
    (spells : type.SpellsType) (awaits : Capture.Awaits type latestFirst earlier) :
    name.capturesAfter bytes latestFirst = name.leaf bytes :: type :: earlier := by
  have depth : name.pointerDepth = 0 :=
    Cursor.pointerDepth_eq_zero inside (by simp [isDeclaration])
  rw [Cursor.capturesAfter_captured (by rw [isName]; decide), awaits.add_name spells isName, depth,
    Cursor.leaf, isName]
  simp [Capture.pointers, Capture.stars]

/-- After a name or a width right behind its type, the next name finds that type. -/
theorem awaits_next {node : Cursor} (name : node.isWidth = false → node.kind = "field_identifier")
    (spells : type.SpellsType) (earlier : List Capture) :
    Capture.Awaits type (node.leaf bytes :: type :: earlier) (node.leaf bytes :: type :: earlier) := by
  have next := Capture.Awaits.of_others spells (by simp)
    (List.forall_mem_singleton.mpr (@leaf_kind_notMem bytes node name)) 0 earlier
  simpa [Capture.pointers, Capture.stars] using next

/-- The nodes after the first add their captures: the type is looked up for each name, past the widths
and names before it. -/
theorem foldl_capturesAfter_later {run : List Cursor} (inside : ∀ node ∈ run, node ∈ declaration.named)
    (names : ∀ node ∈ run, node.isWidth = false → node.kind = "field_identifier")
    (isDeclaration : declaration.kind = "field_declaration") (spells : type.SpellsType)
    (awaits : Capture.Awaits type latestFirst latestFirst) :
    run.foldl (Cursor.capturesAfter bytes) latestFirst
      = (run.flatMap (laterCaptures bytes type)).reverse ++ latestFirst := by
  induction run generalizing latestFirst with
  | nil => rfl
  | cons first rest ih =>
      rw [List.forall_mem_cons] at inside names
      rw [List.foldl_cons, List.flatMap_cons, laterCaptures]
      cases width : first.isWidth with
      | true =>
          have next : Capture.Awaits type (first.leaf bytes :: latestFirst)
              (first.leaf bytes :: latestFirst) := by
            cases awaits with
            | shared _ found =>
                have other := @leaf_kind_notMem bytes first names.1
                exact .shared other ((Capture.latestType?_cons_of_other other _).trans found)
          rw [capturesAfter_width (Cursor.kind_of_isWidth width), ih inside.2 names.2 next]
          simp
      | false =>
          rw [capturesAfter_name inside.1 isDeclaration (names.1 width) spells awaits,
            ih inside.2 names.2 (awaits_next names.1 spells latestFirst)]
          simp

/-- A run right behind its type adds the captures of its fields. -/
theorem foldl_capturesAfter_run {run : List Cursor} (some_ : run ≠ [])
    (inside : ∀ node ∈ run, node ∈ declaration.named)
    (names : ∀ node ∈ run, node.isWidth = false → node.kind = "field_identifier")
    (isDeclaration : declaration.kind = "field_declaration") (spells : type.SpellsType)
    (earlier : List Capture) :
    run.foldl (Cursor.capturesAfter bytes) (type :: earlier)
      = ((SpelledField.ofDeclaration (fieldsOfRun bytes type false run)).flatMap
          SpelledField.captures).reverse ++ earlier := by
  cases run with
  | nil => exact absurd rfl some_
  | cons first rest =>
      have eachName := List.forall_mem_cons.mp names
      have eachInside := List.forall_mem_cons.mp inside
      have firstCaptures : first.capturesAfter bytes (type :: earlier)
          = first.leaf bytes :: type :: earlier := by
        cases width : first.isWidth with
        | true => exact capturesAfter_width (Cursor.kind_of_isWidth width) _
        | false =>
            exact capturesAfter_name eachInside.1 isDeclaration (eachName.1 width) spells .typed
      rw [List.foldl_cons, firstCaptures, foldl_capturesAfter_later eachInside.2 eachName.2
        isDeclaration spells (awaits_next eachName.1 spells earlier), ← captures_ofDeclaration names]
      simp

/-- A field declaration with names and widths adds the captures of its fields. -/
theorem MixedRun.adds {enclosing : Option Pattern} (run : MixedRun bytes declaration)
    (finds : Rules.fieldDeclarationPattern.Finds alphabet enclosing declaration) :
    declaration.Adds bytes ((SpelledField.ofDeclaration (declaration.declaredFields bytes)).flatMap
      SpelledField.captures) := by
  intro latestFirst
  obtain ⟨specifier, typed⟩ := List.length_eq_one_iff.mp run.typed
  have isDeclaration : declaration.kind = "field_declaration" := finds.kind_eq rfl
  have uncaptured : Capture.isCaptured declaration.kind = false ∧
      declaration.kind ∉ Capture.silentKinds := by
    rw [isDeclaration]
    decide
  have shape : (Rules.fieldDeclarationPattern.shape enclosing).children
      = Rules.fieldDeclarationPattern.children := rfl
  obtain ⟨_, parts⟩ := finds.siblings shape (by decide) unmixed_fieldDeclarationPattern
  have some_ : declaration.ofKinds declaredKinds ≠ [] :=
    List.ne_nil_of_length_pos (parts Rules.fieldDeclarators (by decide)).1
  obtain ⟨inOrder, specifiers⟩ := inOrder_of_fieldDeclaration finds bytes
  obtain ⟨isType, captured⟩ := specifiers specifier (by simp [typed]) latestFirst
  have typeNode : declaration.typeNode = specifier.spellingNode := by
    rw [Cursor.typeNode, typed, List.headD_cons]
  have spells := spellsType_of_unstarred (typeNode ▸ isType) run.unstarred
  have inside : ∀ node ∈ declaration.ofKinds declaredKinds, node ∈ declaration.named :=
    fun _ member => (Cursor.mem_ofKinds.mp member).1
  rw [Cursor.capturesAfter_children uncaptured.1 uncaptured.2, inOrder, List.foldl_append,
    List.foldl_append, Cursor.foldl_capturesAfter_silent declaration.silent_qualifiers, typed,
    List.foldl_cons, List.foldl_nil, captured, ← typeNode,
    foldl_capturesAfter_run some_ inside run.names isDeclaration spells, Cursor.declaredFields]

end

end HeaderBindings
