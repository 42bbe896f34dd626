/-
Module: HeaderBindings.Proofs.UnnamedBitFields
Purpose: A record whose field declarations mix names and widths has a field for each name and for each width
  without one, exactly if no width comes right after another.
Main exports: exists_of_readFields_cons, paddings_ne_of_late, reads_spelledFields_iff,
  Rules.dispatch_declares_runs_iff
-/
import HeaderBindings.Proofs.MixedRuns
import HeaderBindings.Proofs.NameCharacters
import HeaderBindings.Proofs.SelfTypedefs

namespace HeaderBindings

open Spelling

/-! ### Reading fields back -/

/-- Whether a field was read from a width without a name. No other field has a name that starts with an
underscore. -/
def Field.isPadding (field : Field) : Bool := field.name.toList.head? == some '_'

theorem isPadding_of_bindingName {field : Field} {spelled : String}
    (named : field.name = bindingName spelled) : field.isPadding = false := by
  have start := head?_bindingChars_ne spelled.toList
  simpa [Field.isPadding, named, bindingName] using start

theorem isPadding_of_number {field : Field} {index : Nat}
    (named : field.name = "_pad" ++ toString index) : field.isPadding = true := by
  simp [Field.isPadding, named]

theorem FieldShape.isPadding_field (shape : FieldShape) (index : Nat) :
    (shape.field index).isPadding = !shape.isNamed := by
  cases shape with
  | named type name lengths width => exact isPadding_of_bindingName rfl
  | padding type width => exact isPadding_of_number rfl

theorem FieldShape.map_isPadding_fields (shapes : List FieldShape) :
    (shapes.mapIdx fun index shape => shape.field index).map Field.isPadding
      = shapes.map fun shape => !shape.isNamed :=
  List.ext_getElem (by simp) (by simp [FieldShape.isPadding_field])

section

variable {known result : List Field} {before after : Registry} {type next : Capture}
  {rest captures : List Capture}

/-- Fields are read after those that are known. -/
theorem exists_append_of_readFields (returns : (readFields known captures).Returns before result after) :
    ∃ new, result = known ++ new := by
  obtain ⟨new, isNew, _⟩ := addsNoting_readFields returns
  exact ⟨new, isNew⟩

/-- What comes after a type is read as a width, and makes a field without name, or as a name. -/
theorem exists_of_readFields_cons
    (returns : (readFields known (type :: next :: rest)).Returns before result after) :
    (∃ target, typeExpr type.text = .ok target) ∧ ∃ field between,
      field.isPadding = next.isBitWidth ∧
        (readFields (known ++ [field]) (if next.isBitWidth then rest else (fieldTail rest).2)).Returns
          between result after := by
  rw [readFields] at returns
  obtain ⟨read, between, resolved, later⟩ := Run.returns_bind_iff.mp returns
  obtain ⟨⟨target, isTyped, _⟩, _⟩ := Run.returns_target_iff.mp resolved
  refine ⟨⟨target, isTyped⟩, ?_⟩
  cases width : next.isBitWidth with
  | true =>
      rw [if_pos width] at later
      exact ⟨⟨"_pad" ++ toString known.length, read, none, some next.bitWidth⟩, between,
        isPadding_of_number rfl, later⟩
  | false =>
      rw [if_neg (by simp [width])] at later
      exact ⟨⟨bindingName next.text, read, arraySuffix (rest.takeWhile Capture.isArrayLength),
        (fieldTail rest).1⟩, between, isPadding_of_bindingName rfl, later⟩

/-- Less than two captures make no field. -/
theorem eq_known_of_readFields (few : captures.length < 2)
    (returns : (readFields known captures).Returns before result after) : result = known := by
  rw [readFields] at returns
  · exact (Run.returns_pure_iff.mp returns).1
  · rintro type next rest rfl
    simp only [List.length_cons] at few
    omega

end

/-! ### Fields that lost their type -/

namespace SpelledField

/-- The captures of a field can be told apart. -/
def WellFormed : SpelledField → Prop
  | whole shape => shape.WellFormed
  | widthAlone _ width => width.isBitWidth = true

/-- Which fields have no name. -/
def paddings (fields : List SpelledField) : List Bool := fields.map fun field => !field.shape.isNamed

end SpelledField

theorem fieldTail_width {lengths : List Capture} {width : Capture}
    (areLengths : ∀ length ∈ lengths, length.isArrayLength = true) (isWidth : width.isBitWidth = true)
    (rest : List Capture) : (fieldTail (lengths ++ width :: rest)).2 = rest := by
  have bits : width.kind = "bitfield_clause" := by simpa [Capture.isBitWidth] using isWidth
  have noLength : ¬ width.isArrayLength = true := by
    rw [Capture.isArrayLength, bits]
    decide
  rw [fieldTail, List.dropWhile_append_of_pos areLengths, List.dropWhile_cons_of_neg noLength,
    takeBitWidth, if_pos isWidth]

theorem startsAnew_captures {shape : FieldShape} (wellFormed : shape.WellFormed)
    (rest : List Capture) : StartsAnew (shape.captures ++ rest) := by
  have alone : StartsAnew ([shape].flatMap FieldShape.captures) :=
    StartsAnew.flatMap_captures (List.forall_mem_singleton.mpr wellFormed)
  cases shape <;> simpa [StartsAnew, FieldShape.captures] using alone

/-- After a name, fields are read as they are spelled; only a width on its own right there is taken to
belong to the name, and then the rest is late by one field. -/
theorem fieldTail_captures {lengths : List Capture} {width : Option Capture} {fields : List SpelledField}
    (areLengths : ∀ length ∈ lengths, length.isArrayLength = true)
    (isWidth : ∀ capture ∈ width, capture.isBitWidth = true)
    (wellFormed : ∀ field ∈ fields, field.WellFormed) :
    ∃ late rest, (fieldTail (lengths ++ width.toList
          ++ fields.flatMap SpelledField.captures)).2 = rest.flatMap SpelledField.captures ∧
      SpelledField.paddings fields = List.replicate late true ++ SpelledField.paddings rest ∧
      rest <:+ fields ∧ (rest = fields ∨ 0 < late) := by
  cases width with
  | some capture =>
      refine ⟨0, fields, ?_, rfl, List.suffix_rfl, Or.inl rfl⟩
      rw [Option.toList_some, List.append_assoc, List.singleton_append]
      exact fieldTail_width areLengths (isWidth capture rfl) _
  | none =>
      cases fields with
      | nil =>
          have anew : StartsAnew [] := by simp [StartsAnew]
          exact ⟨0, [], congrArg Prod.snd (lengths_and_width areLengths isWidth anew).2, rfl,
            List.suffix_rfl, Or.inl rfl⟩
      | cons first others =>
          rw [List.forall_mem_cons] at wellFormed
          cases first with
          | whole shape =>
              have anew := startsAnew_captures wellFormed.1 (others.flatMap SpelledField.captures)
              exact ⟨0, .whole shape :: others,
                congrArg Prod.snd (lengths_and_width areLengths isWidth anew).2, rfl,
                List.suffix_rfl, Or.inl rfl⟩
          | widthAlone type capture =>
              refine ⟨1, others, ?_, rfl, List.suffix_cons _ _, Or.inr Nat.one_pos⟩
              rw [Option.toList_none, List.append_nil]
              exact fieldTail_width areLengths wellFormed.1 _

section

variable {known result : List Field} {before after : Registry} {captures : List Capture}
  {field : Field} {late : Nat}

/-- A name was read where a field without name is due. -/
theorem paddings_ne_of_named (isNamed : field.isPadding = false)
    (returns : (readFields (known ++ [field]) captures).Returns before result after)
    (due : 0 < late) (others : List Bool) :
    result.map Field.isPadding
      ≠ known.map Field.isPadding ++ (List.replicate late true ++ others) := by
  obtain ⟨new, rfl⟩ := exists_append_of_readFields returns
  obtain ⟨fewer, rfl⟩ := Nat.exists_eq_succ_of_ne_zero due.ne'
  intro same
  simp [List.replicate_succ, isNamed] at same

theorem paddings_append (isPadding : field.isPadding = true) (late : Nat) (others : List Bool) :
    (known ++ [field]).map Field.isPadding ++ (List.replicate late true ++ others)
      = known.map Field.isPadding ++ (List.replicate late true ++ true :: others) := by
  have moved : true :: (List.replicate late true ++ others)
      = List.replicate late true ++ true :: others := by
    rw [← List.cons_append, ← List.replicate_succ, List.replicate_succ', List.append_assoc,
      List.singleton_append]
  rw [List.map_append, List.append_assoc, List.map_singleton, isPadding, List.singleton_append, moved]

theorem FieldShape.captures_eq (shape : FieldShape) :
    ∃ others, shape.captures = shape.type :: others := by
  cases shape with
  | named type name lengths width => exact ⟨_, rfl⟩
  | padding type width => exact ⟨_, rfl⟩

theorem FieldShape.WellFormed.isBitWidth_type {shape : FieldShape} (wellFormed : shape.WellFormed) :
    shape.type.isBitWidth = false := by
  have apart : ∀ kind ∈ typeKinds, (kind == "bitfield_clause") = false := by decide
  cases shape with
  | named type name lengths width => exact apart _ wellFormed.1
  | padding type width => exact apart _ wellFormed.1

/-- Where a field without name is due, or one lost its type, other fields are read than are spelled. A
width without type is taken for the type of what follows, and from then on the fields are late. -/
theorem paddings_ne_of_late : ∀ {fields : List SpelledField} {known : List Field} {before : Registry}
    {late : Nat}, (∀ field ∈ fields, field.WellFormed) →
    (0 < late ∨ ∃ field ∈ fields, field.isWhole = false) →
    (readFields known (fields.flatMap SpelledField.captures)).Returns before result after →
    result.map Field.isPadding ≠ known.map Field.isPadding
      ++ (List.replicate late true ++ SpelledField.paddings fields)
  | [], known, before, late, _, due, returns => by
      obtain rfl := eq_known_of_readFields (by simp) returns
      have isLate : 0 < late := by simpa using due
      intro same
      have lengths := congrArg List.length same
      simp [SpelledField.paddings] at lengths
      omega
  | [.widthAlone type width], known, before, late, _, due, returns => by
      obtain rfl := eq_known_of_readFields (by simp [SpelledField.captures]) returns
      intro same
      have lengths := congrArg List.length same
      simp [SpelledField.paddings] at lengths
  | .widthAlone type width :: .whole shape :: rest, known, before, late, wellFormed, _, returns => by
      -- The width is read as a type, and the type after it as a name.
      simp only [List.forall_mem_cons] at wellFormed
      obtain ⟨others, spelled⟩ := shape.captures_eq
      simp only [List.flatMap_cons, SpelledField.captures, spelled, List.cons_append] at returns
      obtain ⟨_, field, between, isPadding, later⟩ := exists_of_readFields_cons returns
      have isType := FieldShape.WellFormed.isBitWidth_type wellFormed.2.1
      have differs := paddings_ne_of_named (isPadding.trans isType) later (Nat.succ_pos late)
        (SpelledField.paddings (.whole shape :: rest))
      rwa [List.replicate_succ', List.append_assoc] at differs
  | .widthAlone type width :: .widthAlone other next :: rest, known, before, late, wellFormed, _,
      returns => by
      -- Two widths make one field, so that one more is due after them.
      simp only [List.forall_mem_cons] at wellFormed
      simp only [List.flatMap_cons, SpelledField.captures, List.singleton_append] at returns
      obtain ⟨_, field, between, isPadding, later⟩ := exists_of_readFields_cons returns
      have isWidth : next.isBitWidth = true := wellFormed.2.1
      rw [if_pos isWidth] at later
      have differs := paddings_ne_of_late wellFormed.2.2 (Or.inl (Nat.succ_pos late)) later
      rw [paddings_append (isPadding.trans isWidth)] at differs
      rwa [List.replicate_succ', List.append_assoc] at differs
  | .whole (.padding type width) :: rest, known, before, late, wellFormed, due, returns => by
      rw [List.forall_mem_cons] at wellFormed
      simp only [List.flatMap_cons, SpelledField.captures, FieldShape.captures, List.cons_append,
        List.nil_append] at returns
      obtain ⟨_, field, between, isPadding, later⟩ := exists_of_readFields_cons returns
      have isWidth : width.isBitWidth = true := wellFormed.1.2
      rw [if_pos isWidth] at later
      have dueLater : 0 < late ∨ ∃ field ∈ rest, field.isWhole = false := by simpa using due
      have differs := paddings_ne_of_late wellFormed.2 dueLater later
      rwa [paddings_append (isPadding.trans isWidth)] at differs
  | .whole (.named type name lengths width) :: rest, known, before, late, wellFormed, due, returns => by
      rw [List.forall_mem_cons] at wellFormed
      simp only [List.flatMap_cons, SpelledField.captures, FieldShape.captures, List.cons_append]
        at returns
      obtain ⟨_, field, between, isPadding, later⟩ := exists_of_readFields_cons returns
      have isName : field.isPadding = false := isPadding
      rcases Nat.eq_zero_or_pos late with rfl | isLate
      · -- Nothing is due yet, but a type is missing further on, or right after the name.
        have lost : ∃ field ∈ rest, field.isWhole = false := by simpa using due
        obtain ⟨late, others, tail, paddings, part, same⟩ :=
          fieldTail_captures wellFormed.1.2.1 wellFormed.1.2.2 wellFormed.2
        rw [if_neg (by simp [Capture.isBitWidth]), tail] at later
        have fewer := part.length_le
        have differs := paddings_ne_of_late (fun field member => wellFormed.2 field (part.subset member))
          (same.elim (fun same => Or.inr (same ▸ lost)) Or.inl) later
        rw [← paddings, List.map_append, List.append_assoc, List.map_singleton, isName] at differs
        exact differs
      · exact paddings_ne_of_named isName later isLate _
termination_by fields => fields.length

end

/-! ### The fields of a record -/

/-- Fields that were read with their types have type expressions. -/
theorem typed_of_readFields {shapes : List FieldShape} {known result : List Field}
    {before after : Registry} (wellFormed : ∀ shape ∈ shapes, shape.WellFormed)
    (returns : (readFields known (shapes.flatMap FieldShape.captures)).Returns before result after) :
    ∀ shape ∈ shapes, shape.Typed := by
  induction shapes generalizing known before with
  | nil => simp
  | cons shape rest ih =>
      rw [List.forall_mem_cons] at wellFormed
      rw [List.flatMap_cons] at returns
      cases shape with
      | named type name lengths width =>
          simp only [FieldShape.captures, List.cons_append] at returns
          obtain ⟨typed, field, between, _, later⟩ := exists_of_readFields_cons returns
          have tail := (lengths_and_width wellFormed.1.2.1 wellFormed.1.2.2
            (StartsAnew.flatMap_captures wellFormed.2)).2
          rw [if_neg (by simp [Capture.isBitWidth]), tail] at later
          exact List.forall_mem_cons.mpr ⟨typed, ih wellFormed.2 later⟩
      | padding type width =>
          simp only [FieldShape.captures, List.cons_append, List.nil_append] at returns
          obtain ⟨typed, field, between, _, later⟩ := exists_of_readFields_cons returns
          rw [if_pos wellFormed.1.2] at later
          exact List.forall_mem_cons.mpr ⟨typed, ih wellFormed.2 later⟩

section

variable {before : Registry} {name : String}

/-- A record with a new name is added with the fields that its captures are read as. -/
theorem emits_fields_iff (named : name ≠ "") (new : before.isDeclared .types name = false)
    {spelling : String} {isUnion : Bool} {captures : List Capture} {fields : List Field} :
    (∃ after, (emitRecord name spelling isUnion captures).Returns before () after ∧
      after.emitted = before.emitted.modify .types
        (· ++ [.record ⟨name, spelling, before.currentHeader, isUnion, fields⟩])) ↔
      ∃ between, (readFields [] captures).Returns (before.reserve .types name) fields between := by
  have emitted : ∀ {read between}, (readFields [] captures).Returns (before.reserve .types name) read
      between → (between.emit .types
        (.record ⟨name, spelling, before.currentHeader, isUnion, read⟩)).emitted
      = before.emitted.modify .types
        (· ++ [.record ⟨name, spelling, before.currentHeader, isUnion, read⟩]) := by
    intro read between returns
    obtain ⟨_, _, left⟩ := addsNoting_readFields returns
    rw [left, Registry.referAll_frame]
    rfl
  constructor
  · rintro ⟨after, returns, left⟩
    rcases returns_emitRecord_iff.mp returns with ⟨blocked, _⟩ | ⟨_, _, read, between, reads, rfl⟩
    · simp [named, new] at blocked
    · rw [emitted reads] at left
      have same := congrArg (fun values => values.get .types) left
      simp only [ByCategory.get_modify_self, List.append_cancel_left_eq, List.cons.injEq,
        Declaration.record.injEq, Record.mk.injEq, true_and, and_true] at same
      exact ⟨between, same ▸ reads⟩
  · rintro ⟨between, reads⟩
    exact ⟨_, returns_emitRecord_iff.mpr (Or.inr ⟨named, new, fields, between, reads, rfl⟩),
      emitted reads⟩

/-- Captures of fields are read as these fields exactly if each is spelled with its type, and this has a
type expression. -/
theorem reads_spelledFields_iff {fields : List SpelledField}
    (wellFormed : ∀ field ∈ fields, field.WellFormed) :
    (∃ between, (readFields [] (fields.flatMap SpelledField.captures)).Returns before
      ((fields.map SpelledField.shape).mapIdx fun index shape => shape.field index) between) ↔
      (∀ shape ∈ fields.map SpelledField.shape, shape.Typed) ∧
        ∀ field ∈ fields, field.isWhole = true := by
  have spelled : (∀ field ∈ fields, field.isWhole = true) →
      fields.flatMap SpelledField.captures
        = (fields.map SpelledField.shape).flatMap FieldShape.captures := by
    intro whole
    rw [List.flatMap_map]
    refine List.flatMap_congr fun field member => ?_
    cases field with
    | whole shape => rfl
    | widthAlone type width => exact absurd (whole _ member) (by simp [SpelledField.isWhole])
  have shapes : (∀ field ∈ fields, field.isWhole = true) →
      ∀ shape ∈ fields.map SpelledField.shape, shape.WellFormed := by
    intro whole shape member
    obtain ⟨field, isField, rfl⟩ := List.mem_map.mp member
    cases field with
    | whole shape => exact wellFormed _ isField
    | widthAlone type width => exact absurd (whole _ isField) (by simp [SpelledField.isWhole])
  constructor
  · rintro ⟨between, reads⟩
    have whole : ∀ field ∈ fields, field.isWhole = true := by
      by_contra lost
      have late : ∃ field ∈ fields, field.isWhole = false := by simpa using lost
      have differs := @paddings_ne_of_late _ _ _ [] _ 0 wellFormed (Or.inr late) reads
      apply differs
      rw [FieldShape.map_isPadding_fields, List.map_map]
      rfl
    rw [spelled whole] at reads
    exact ⟨typed_of_readFields (shapes whole) reads, whole⟩
  · rintro ⟨typed, whole⟩
    rw [spelled whole]
    simpa using returns_readFields_captures (shapes whole) typed [] before

end

theorem SpelledField.wellFormed_ofDeclaration {shapes : List FieldShape}
    (wellFormed : ∀ shape ∈ shapes, shape.WellFormed) :
    ∀ field ∈ ofDeclaration shapes, field.WellFormed := by
  have shared : ∀ shape : FieldShape, shape.WellFormed → (later shape).WellFormed := by
    intro shape whole
    cases shape with
    | named type name lengths width => exact whole
    | padding type width => exact whole.2
  cases shapes with
  | nil => simp [ofDeclaration]
  | cons first others =>
      rw [List.forall_mem_cons] at wellFormed
      refine List.forall_mem_cons.mpr ⟨wellFormed.1, ?_⟩
      intro field member
      obtain ⟨shape, isShape, rfl⟩ := List.mem_map.mp member
      exact shared shape (wellFormed.2 shape isShape)

theorem MixedRun.wellFormed {alphabet : Alphabet} {bytes : List UInt8} {declaration : Cursor}
    {enclosing : Option Pattern} (run : MixedRun bytes declaration)
    (finds : Rules.fieldDeclarationPattern.Finds alphabet enclosing declaration) :
    ∀ field ∈ SpelledField.ofDeclaration (declaration.declaredFields bytes), field.WellFormed := by
  obtain ⟨specifier, typed⟩ := List.length_eq_one_iff.mp run.typed
  obtain ⟨_, specifiers⟩ := inOrder_of_fieldDeclaration finds bytes
  have isType := (specifiers specifier (by simp [typed]) []).1
  have known : ∀ kind ∈ Capture.typeNames, kind ∈ typeKinds := by decide
  apply SpelledField.wellFormed_ofDeclaration
  apply wellFormed_fieldsOfRun
  change declaration.typeNode.kind ∈ typeKinds
  rw [Cursor.typeNode, typed, List.headD_cons]
  exact known _ isType

namespace Rules

variable {bytes : List UInt8} {cursor specifier : Cursor} {action : Action} {name spelling : String}
  {registry before : Registry}

/-- Offering a claimed struct or union with a new name adds it with the fields that the captures of its
declarations are read as. -/
theorem dispatch_declares_fields_iff (claimed : Claims cursor action)
    (site : RecordName bytes registry action cursor specifier name spelling before)
    {added : List (List Capture)}
    (adds : List.Forall₂ (Cursor.Adds bytes) specifier.fieldDeclarations added) (named : name ≠ "")
    (new : before.isDeclared .types name = false) {fields : List Field} :
    (∃ captures after, (table.dispatch alphabet bytes Generation.runDefault cursor).Returns
        registry captures after ∧
      after.emitted = registry.emitted.modify .types (· ++ [.record ⟨name, spelling,
        registry.currentHeader, specifier.focus.isUnion, fields⟩])) ↔
      ∃ between, (readFields [] added.flatten).Returns (before.reserve .types name) fields between := by
  rw [← emits_fields_iff named new, site.emitted_eq.1, site.emitted_eq.2]
  constructor
  · rintro ⟨captures, after, returns, emitted⟩
    obtain ⟨finds, ran⟩ := returns_run_of_dispatch claimed returns
    exact ⟨after, (site.returns_run_iff finds adds).mp ran, emitted⟩
  · rintro ⟨after, emits, emitted⟩
    have finds : ∀ pattern, (pattern, action) ∈ shapeList → pattern.Finds alphabet none cursor :=
      fun _ => finds_of_claims claimed
    obtain ⟨captures, returns⟩ :=
      returns_dispatch_of_run claimed ((site.returns_run_iff finds adds).mpr emits)
    exact ⟨_, after, returns, emitted⟩

/-- A struct or a union whose declarations mix names and widths gets one field for each name and one for
each width without a name, in document order, exactly if all their types have type expressions and no width
comes right after another in a declaration: the second would be read without its type, and all fields after
it would shift. The fields with a name are those that the declarations declare without the other widths. -/
theorem dispatch_declares_runs_iff (claimed : Claims cursor action)
    (site : RecordName bytes registry action cursor specifier name spelling before)
    (runs : ∀ declaration ∈ specifier.fieldDeclarations, MixedRun bytes declaration)
    (named : name ≠ "") (new : before.isDeclared .types name = false) :
    let shapes := specifier.fieldDeclarations.flatMap (Cursor.declaredFields bytes)
    ((∃ captures after, (table.dispatch alphabet bytes Generation.runDefault cursor).Returns
          registry captures after ∧
        after.emitted = registry.emitted.modify .types (· ++ [.record ⟨name, spelling,
          registry.currentHeader, specifier.focus.isUnion,
          shapes.mapIdx fun index shape => shape.field index⟩])) ↔
      (∀ shape ∈ shapes, shape.Typed) ∧ ∀ declaration ∈ specifier.fieldDeclarations,
        Cursor.WidthsApart (declaration.ofKinds declaredKinds)) ∧
    shapes.filter FieldShape.isNamed = specifier.fieldDeclarations.flatMap (fun declaration =>
      fieldsOfRun bytes (declaration.typeNode.leaf bytes) false
        (Cursor.withoutUnnamed false (declaration.ofKinds declaredKinds))) ∧
    shapes.length = (specifier.fieldDeclarations.map fun declaration =>
      ((declaration.ofKinds declaredKinds).filter (!·.isWidth)).length
        + (Cursor.unnamedWidths false (declaration.ofKinds declaredKinds)).length).sum := by
  intro shapes
  let spelled := fun declaration : Cursor =>
    SpelledField.ofDeclaration (declaration.declaredFields bytes)
  obtain ⟨_, found⟩ := site.finds_specifier fun _ => finds_of_claims claimed
  obtain ⟨_, _, _, _, finds⟩ := fieldDeclarations_of_record found
  have adds : List.Forall₂ (Cursor.Adds bytes) specifier.fieldDeclarations
      (specifier.fieldDeclarations.map fun declaration =>
        (spelled declaration).flatMap SpelledField.captures) := by
    rw [List.forall₂_map_right_iff, List.forall₂_same]
    intro declaration member
    exact (runs declaration member).adds (finds declaration member).choose_spec
  have wellFormed : ∀ field ∈ specifier.fieldDeclarations.flatMap spelled, field.WellFormed := by
    rw [List.forall_mem_flatMap]
    intro declaration member
    exact (runs declaration member).wellFormed (finds declaration member).choose_spec
  have isShapes : (specifier.fieldDeclarations.flatMap spelled).map SpelledField.shape = shapes := by
    simp only [spelled, shapes, List.map_flatMap, SpelledField.map_shape_ofDeclaration]
  refine ⟨?_, ?_, ?_⟩
  · rw [dispatch_declares_fields_iff claimed site adds named new, ← List.flatMap_def,
      ← List.flatMap_assoc, ← isShapes, reads_spelledFields_iff wellFormed]
    refine and_congr_right fun _ => ?_
    rw [List.forall_mem_flatMap]
    exact forall₂_congr fun declaration _ => isWhole_ofDeclaration_iff _
  · simp only [shapes, List.filter_flatMap, Cursor.declaredFields, fieldsOfRun_withoutUnnamed]
  · simp only [shapes, List.length_flatMap, Cursor.declaredFields, length_fieldsOfRun]

/-! ### Widths at the start of a run and after another width -/

/-- The struct `struct S { int : 3, a : 2, b; char : 4; };`. -/
def leadingWidths : Document where
  bytes := "struct S { int : 3, a : 2, b; char : 4; };".toUTF8.toList
  tree := .node ⟨"struct_specifier", 0, 41, none⟩ [
    .node ⟨"type_identifier", 7, 8, some "name"⟩ [],
    .node ⟨"field_declaration_list", 9, 41, some "body"⟩ [
      .node ⟨"field_declaration", 11, 29, none⟩ [
        .node ⟨"primitive_type", 11, 14, some "type"⟩ [],
        .node ⟨"bitfield_clause", 15, 18, none⟩ [],
        .node ⟨"field_identifier", 20, 21, some "declarator"⟩ [],
        .node ⟨"bitfield_clause", 22, 25, none⟩ [],
        .node ⟨"field_identifier", 27, 28, some "declarator"⟩ []],
      .node ⟨"field_declaration", 30, 39, none⟩ [
        .node ⟨"primitive_type", 30, 34, some "type"⟩ [],
        .node ⟨"bitfield_clause", 35, 38, none⟩ []]]]
  hasError := false

/-- The widths at the start keep their places, and the width after a name stays with it. -/
theorem dispatch_declares_runs_iff_leadingWidths :
    let specifier := Cursor.root leadingWidths.tree
    Claims specifier .declareRecord ∧
      (∀ declaration ∈ specifier.fieldDeclarations, MixedRun leadingWidths.bytes declaration) ∧
      ∃ captures after, (table.dispatch alphabet leadingWidths.bytes Generation.runDefault
          specifier).Returns .empty captures after ∧
        after.emitted.types = [.record ⟨"S", "struct S", "", false,
          [⟨"_pad0", .named "ctypes.c_int", none, some "3"⟩,
            ⟨"a", .named "ctypes.c_int", none, some "2"⟩, ⟨"b", .named "ctypes.c_int", none, none⟩,
            ⟨"_pad3", .named "ctypes.c_char", none, some "4"⟩]⟩] := by
  intro specifier
  have claimed : Claims specifier .declareRecord := by decide +kernel
  have runs : ∀ declaration ∈ specifier.fieldDeclarations,
      MixedRun leadingWidths.bytes declaration := by decide +kernel
  have site : RecordName leadingWidths.bytes .empty .declareRecord specifier specifier "S" "struct S"
      .empty := by
    let tag : Cursor :=
      ⟨.node ⟨"type_identifier", 7, 8, some "name"⟩ [], [⟨leadingWidths.tree, 0⟩]⟩
    have spelled : tag.textIn leadingWidths.bytes = "S" := by decide +kernel
    have bound : bindingName "S" = "S" := by decide +kernel
    have tagged : RecordName leadingWidths.bytes .empty .declareRecord specifier specifier
        (bindingName (tag.textIn leadingWidths.bytes))
        ("struct " ++ tag.textIn leadingWidths.bytes) .empty := .tag rfl
    rwa [spelled, bound] at tagged
  have typed : ∀ shape ∈ specifier.fieldDeclarations.flatMap
      (Cursor.declaredFields leadingWidths.bytes), shape.Typed := by decide +kernel
  have apart : ∀ declaration ∈ specifier.fieldDeclarations,
      Cursor.WidthsApart (declaration.ofKinds declaredKinds) := by decide +kernel
  have fields : (specifier.fieldDeclarations.flatMap (Cursor.declaredFields
        leadingWidths.bytes)).mapIdx (fun index shape => shape.field index)
      = [⟨"_pad0", .named "ctypes.c_int", none, some "3"⟩,
        ⟨"a", .named "ctypes.c_int", none, some "2"⟩, ⟨"b", .named "ctypes.c_int", none, none⟩,
        ⟨"_pad3", .named "ctypes.c_char", none, some "4"⟩] := by decide +kernel
  obtain ⟨captures, after, returns, emitted⟩ :=
    (dispatch_declares_runs_iff claimed site runs (by decide) rfl).1.mpr ⟨typed, apart⟩
  refine ⟨claimed, runs, captures, after, returns, ?_⟩
  rw [emitted, fields]
  rfl

/-- The struct `struct S { int a : 3, : 4, b; };`. -/
def adjacentWidths : Document where
  bytes := "struct S { int a : 3, : 4, b; };".toUTF8.toList
  tree := .node ⟨"translation_unit", 0, 32, none⟩ [
    .node ⟨"struct_specifier", 0, 31, none⟩ [
      .node ⟨"type_identifier", 7, 8, some "name"⟩ [],
      .node ⟨"field_declaration_list", 9, 31, some "body"⟩ [
        .node ⟨"field_declaration", 11, 29, none⟩ [
          .node ⟨"primitive_type", 11, 14, some "type"⟩ [],
          .node ⟨"field_identifier", 15, 16, some "declarator"⟩ [],
          .node ⟨"bitfield_clause", 17, 20, none⟩ [.node ⟨"number_literal", 19, 20, none⟩ []],
          .node ⟨"bitfield_clause", 22, 25, none⟩ [.node ⟨"number_literal", 24, 25, none⟩ []],
          .node ⟨"field_identifier", 27, 28, some "declarator"⟩ []]]]]
  hasError := false

/-- The struct in it. -/
def adjacentWidthSpecifier : Cursor :=
  let root := Cursor.root adjacentWidths.tree
  root.named.headD root

/-- The second width is read as the type of a field that is called by the type, and the last field is
lost. -/
theorem not_kept_adjacentWidths :
    let bytes := adjacentWidths.bytes
    let declarations := adjacentWidthSpecifier.fieldDeclarations
    let fields := (declarations.flatMap (Cursor.declaredFields bytes)).mapIdx fun index shape =>
      shape.field index
    Claims adjacentWidthSpecifier .declareRecord ∧
      (∀ declaration ∈ declarations, MixedRun bytes declaration) ∧
      fields = [⟨"a", .named "ctypes.c_int", none, some "3"⟩,
        ⟨"_pad1", .named "ctypes.c_int", none, some "4"⟩,
        ⟨"b", .named "ctypes.c_int", none, none⟩] ∧
      ∃ after, (Generation.generate (m := Run) table alphabet Generation.runDefault .c "" "e.h"
          adjacentWidths).Returns .empty 1 after ∧
        after.emitted.types = [.record ⟨"S", "struct S", "e.h", false,
          [⟨"a", .named "ctypes.c_int", none, some "3"⟩, ⟨"int", .named "4", none, none⟩]⟩] ∧
        after.emitted.types ≠ [.record ⟨"S", "struct S", "e.h", false, fields⟩] := by
  intro bytes declarations fields
  have declared : fields = [⟨"a", .named "ctypes.c_int", none, some "3"⟩,
      ⟨"_pad1", .named "ctypes.c_int", none, some "4"⟩,
      ⟨"b", .named "ctypes.c_int", none, none⟩] := by decide +kernel
  refine ⟨by decide +kernel, by decide +kernel, declared,
    ⟨"e.h", ["e.h"], ⟨[], ["S"], [], []⟩, ⟨[], [.record ⟨"S", "struct S", "e.h", false,
      [⟨"a", .named "ctypes.c_int", none, some "3"⟩, ⟨"int", .named "4", none, none⟩]⟩], [], []⟩,
      ["4"], []⟩, ?_, rfl, ?_⟩
  · rw [table_eq, alphabet_eq]
    decide +kernel
  · rw [declared]
    decide

end Rules

end HeaderBindings
