/-
Module: HeaderBindings.Proofs.ModuleLines
Purpose: The lines of a generated module, with the type that each of them binds and those it uses.
Main exports: Module.Line, Module.Line.binds, Module.Line.uses, Module.layout, Module.render_eq,
  Module.filter_layout
-/
import HeaderBindings.Binding.Module
import HeaderBindings.Proofs.TypeReferences

namespace HeaderBindings.Module

open Spelling Text

/-! ### Lines -/

/-- A line of a generated module. All lines that bind a type or use one have shapes of their own; the
rest are plain. -/
inductive Line where
  | plain (content : String)
  | classHead (name : String) (base : TypeExpr)
  | aliasLine (typeAlias : Alias)
  | fieldsHead (record : Record)
  | fieldLine (field : Field)
  | functionLine (function : Function)

namespace Line

/-- The text of a line. -/
def text : Line → String
  | plain content => content
  | classHead name base => "class " ++ name ++ "(" ++ base.render ++ "):"
  | aliasLine typeAlias => aliasText typeAlias
  | fieldsHead record =>
      if record.fields.isEmpty then record.name ++ "._fields_ = []"
      else record.name ++ "._fields_ = ["
  | fieldLine field => fieldText field
  | functionLine function =>
      let types := String.intercalate ", " (function.parameters.map (·.type.render))
      let returned := match function.returnType with
        | some type => if type.render.isEmpty then "None" else type.render
        | none => "None"
      function.name ++ " = _bind(" ++ quote function.spelling ++ ", [" ++ types ++ "], "
        ++ returned ++ ")"

@[simp] theorem text_plain (content : String) : (plain content).text = content := rfl

@[simp] theorem text_classHead (name : String) (base : TypeExpr) :
    (classHead name base).text = "class " ++ name ++ "(" ++ base.render ++ "):" := rfl

@[simp] theorem text_aliasLine (typeAlias : Alias) :
    (aliasLine typeAlias).text = aliasText typeAlias := rfl

@[simp] theorem text_fieldsHead (record : Record) :
    (fieldsHead record).text
      = if record.fields.isEmpty then record.name ++ "._fields_ = []"
        else record.name ++ "._fields_ = [" := rfl

@[simp] theorem text_fieldLine (field : Field) : (fieldLine field).text = fieldText field := rfl

/-- The type that a line binds. -/
def binds : Line → Option String
  | classHead name _ => some name
  | aliasLine typeAlias => some typeAlias.name
  | plain _ | fieldsHead _ | fieldLine _ | functionLine _ => none

/-- The declared types that the evaluation of a line uses. -/
def uses : Line → List String
  | plain _ => []
  | classHead _ base => base.reference?.toList
  | aliasLine typeAlias => typeAlias.target.reference?.toList
  | fieldsHead record => [record.name]
  | fieldLine field => field.type.reference?.toList
  | functionLine function => (function.returnType.bind TypeExpr.reference?).toList
      ++ function.parameters.filterMap fun parameter => parameter.type.reference?

/-- Whether a line may bind or use a type. -/
def matters : Line → Bool
  | plain _ => false
  | _ => true

/-- A line without text. -/
def blank : Line := plain ""

end Line

/-- The text of lines. -/
def textOf (given : List Line) : String := lines (given.map Line.text)

/-- Groups of lines with a number of blank lines between neighbours. -/
def spaced (blanks : Nat) (groups : List (List Line)) : List Line :=
  List.intercalate (List.replicate blanks .blank) groups

/-- The same as one group, if there are any. -/
def gathered (blanks : Nat) (groups : List (List Line)) : List (List Line) :=
  if groups.isEmpty then [] else [spaced blanks groups]

/-! ### The lines of declarations -/

/-- The lines of a macro. -/
def constantLines (constant : Constant) : List Line := [.plain (constantText constant)]

/-- The lines of an enumeration. -/
def enumerationLines (enumeration : Enumeration) : List Line :=
  [Line.classHead enumeration.name (.named "ctypes.c_int"), Line.plain "    pass"]
    ++ (if enumeration.members.isEmpty then [] else [Line.blank])
    ++ enumeration.members.map fun member => Line.plain (member.name ++ " = " ++ member.value)

/-- The lines of the class of an undeclared type. -/
def placeholderLines (name : String) : List Line :=
  [.classHead name (.named "ctypes.Structure"), .plain "    pass"]

/-- The lines of the class of a record. -/
def recordLines (record : Record) : List Line :=
  [.classHead record.name (.named (if record.isUnion then "ctypes.Union" else "ctypes.Structure")),
    .plain ("    _importc_ = " ++ quote record.spelling),
    .plain ("    _header_ = " ++ quote record.header)]

/-- The lines of the class of an opaque type. -/
def opaqueLines (typeAlias : Alias) : List Line :=
  [.classHead typeAlias.name typeAlias.target,
    .plain ("    _importc_ = " ++ quote typeAlias.name),
    .plain ("    _header_ = " ++ quote typeAlias.header)]

/-- The lines of the class that a declared type has, if it has one of its own. -/
def classLines? : Declaration → Option (List Line)
  | .record record => some (recordLines record)
  | .typeAlias typeAlias => if typeAlias.isOpaque then some (opaqueLines typeAlias) else none
  | _ => none

/-- The alias that a declaration is, unless it is an opaque one. -/
def plainAlias? : Declaration → Option Alias
  | .typeAlias typeAlias => if typeAlias.isOpaque then none else some typeAlias
  | _ => none

/-- The lines of the fields of a record. -/
def fieldsLines (record : Record) : List Line :=
  if record.fields.isEmpty then [.fieldsHead record]
  else [Line.fieldsHead record] ++ record.fields.map Line.fieldLine ++ [Line.plain "]"]

/-- The lines of a function. -/
def functionLines (function : Function) : List Line :=
  [.plain ("# " ++ function.spelling ++ "("
      ++ String.intercalate ", " (function.parameters.map (·.name)) ++ ")"),
    .functionLine function]

/-! ### The lines of a module -/

section

variable (registry : Registry)

/-- The macros that were declared. -/
def constants : List Constant := registry.emitted.constants.filterMap Declaration.constant?

/-- The enumerations that were declared. -/
def enumerations : List Enumeration :=
  registry.emitted.enumerations.filterMap Declaration.enumeration?

/-- The records that were declared. -/
def records : List Record := registry.emitted.types.filterMap Declaration.record?

/-- The further names of types that were declared, without opaque ones. -/
def plainAliases : List Alias := registry.emitted.types.filterMap plainAlias?

/-- The functions that were declared. -/
def functions : List Function := registry.emitted.functions.filterMap Declaration.function?

/-- The lines of the classes of types. -/
def classGroups : List (List Line) :=
  registry.undeclaredTypes.map placeholderLines ++ registry.emitted.types.filterMap classLines?

/-- The groups of lines in the block of types. -/
def typeGroups : List (List Line) :=
  gathered 2 (classGroups registry)
    ++ gathered 0 ((plainAliases registry).map fun typeAlias => [Line.aliasLine typeAlias])
    ++ gathered 1 ((records registry).map fieldsLines)

/-- The groups of lines in the block of a category. -/
def groups : Category → List (List Line)
  | .constants => (constants registry).map constantLines
  | .enumerations => (enumerations registry).map enumerationLines
  | .types => typeGroups registry
  | .functions => (functions registry).map functionLines

/-- The number of blank lines between the groups of a block. -/
def blanksIn : Category → Nat
  | .constants => 0
  | .functions => 1
  | .enumerations | .types => 2

/-- The lines of the block of a category. -/
def blockLines (category : Category) : List Line :=
  spaced (blanksIn category) (groups registry category)

/-- The lines of a title. -/
def bannerLines (category : Category) : List Line :=
  [.plain rule, .plain ("# " ++ title category), .plain rule]

/-- The lines of a block under its title, if there is anything in it. -/
def titledLines? (category : Category) : Option (List Line) :=
  if (blockLines registry category).isEmpty then none
  else some (spaced 1 [bannerLines category, blockLines registry category])

/-- The lines of the opening comment. -/
def openingLines : List Line :=
  let headers := registry.headers.filter fun header => !header.isEmpty
  ["# Generated by treebind. Do not edit."].map Line.plain
    ++ (if headers.isEmpty then [] else ["# Sources:"]).map Line.plain
    ++ headers.map fun header => Line.plain ("#   " ++ header)

/-- The lines of the function with which a module binds functions. -/
def helperLines : List Line :=
  ["def _bind(name, argtypes, restype):", "    func = getattr(_lib, name, None)",
    "    if func is not None:", "        func.argtypes = argtypes",
    "        func.restype = restype", "    return func"].map .plain

/-- The lines of a generated module. -/
def layout (library : Option String) : List Line :=
  spaced 2 <| [openingLines registry, [Line.plain "import ctypes"],
      [Line.plain ("_lib = ctypes.CDLL(" ++ libraryText library ++ ")")]]
    ++ (if registry.emitted.functions.isEmpty then [] else [helperLines])
    ++ blockOrder.filterMap (titledLines? registry)

end

/-! ### The text of lines -/

theorem textOf_append {first second : List Line} (some_ : first ≠ []) (more : second ≠ []) :
    textOf (first ++ second) = textOf first ++ "\n" ++ textOf second := by
  unfold textOf lines
  rw [List.map_append]
  exact String.intercalate_append_of_ne_nil (by simpa using some_) (by simpa using more)

theorem textOf_cons (first : Line) {rest : List Line} (more : rest ≠ []) :
    textOf (first :: rest) = textOf [first] ++ "\n" ++ textOf rest :=
  textOf_append (List.cons_ne_nil first []) more

/-- The text between neighbouring groups: one line break more than there are blank lines. -/
def separator (blanks : Nat) : String := String.ofList (List.replicate (blanks + 1) '\n')

theorem textOf_after_blanks {given : List Line} (some_ : given ≠ []) (blanks : Nat) :
    "\n" ++ textOf (List.replicate blanks .blank ++ given) = separator blanks ++ textOf given := by
  induction blanks with
  | zero => rfl
  | succ blanks ih =>
      rw [List.replicate_succ, List.cons_append]
      have first : textOf (.blank :: (List.replicate blanks .blank ++ given)) = _ :=
        textOf_cons .blank (by simp [some_])
      have longer : separator (blanks + 1) = "\n" ++ separator blanks := by
        unfold separator
        rw [List.replicate_succ, ← List.singleton_append, String.ofList_append]
      have empty : textOf [.blank] = "" := rfl
      rw [first, empty, String.empty_append, ih, longer, String.append_assoc]

theorem spaced_ne_nil (blanks : Nat) {groups : List (List Line)} (some_ : groups ≠ [])
    (nonempty : ∀ group ∈ groups, group ≠ []) : spaced blanks groups ≠ [] := by
  cases groups with
  | nil => exact absurd rfl some_
  | cons group rest =>
      have first := nonempty group (by simp)
      cases rest <;> simp [spaced, List.intercalate_cons_cons, first]

theorem spaced_cons {blanks : Nat} {group : List Line} {rest : List (List Line)} (more : rest ≠ []) :
    spaced blanks (group :: rest)
      = group ++ (List.replicate blanks .blank ++ spaced blanks rest) := by
  cases rest with
  | nil => exact absurd rfl more
  | cons next rest => simp [spaced, List.intercalate_cons_cons]

/-- The text of spaced groups is the texts of the groups with separators between them. -/
theorem textOf_spaced {blanks : Nat} {groups : List (List Line)}
    (nonempty : ∀ group ∈ groups, group ≠ []) :
    textOf (spaced blanks groups) = String.intercalate (separator blanks) (groups.map textOf) := by
  induction groups with
  | nil => rfl
  | cons group rest ih =>
      rw [List.forall_mem_cons] at nonempty
      cases rest with
      | nil => simp [spaced]
      | cons next rest =>
          have later := spaced_ne_nil blanks (List.cons_ne_nil next rest) nonempty.2
          rw [spaced_cons (List.cons_ne_nil next rest), textOf_append nonempty.1 (by simp [later]),
            String.append_assoc, textOf_after_blanks later, ih nonempty.2]
          simp only [List.map_cons, String.intercalate_cons_cons, String.append_assoc]

theorem map_textOf_gathered (blanks : Nat) (groups : List (List Line))
    (nonempty : ∀ group ∈ groups, group ≠ []) :
    (gathered blanks groups).map textOf = joined (separator blanks) (groups.map textOf) := by
  unfold gathered joined
  cases groups with
  | nil => rfl
  | cons group rest =>
      rw [if_neg (by simp), if_neg (by simp), List.map_singleton, textOf_spaced nonempty]

/-! ### The text of declarations -/

@[simp] theorem textOf_plain (content : String) : textOf [.plain content] = content := by
  simp [textOf, lines]

theorem textOf_enumerationLines (enumeration : Enumeration) :
    textOf (enumerationLines enumeration) = enumerationText enumeration := by
  have head : "class " ++ enumeration.name ++ "(" ++ "ctypes.c_int" ++ "):"
      = "class " ++ enumeration.name ++ "(ctypes.c_int):" := by
    simp only [String.append_assoc]
    rfl
  unfold textOf enumerationLines enumerationText
  congr 1
  rw [List.map_append, List.map_append, List.map_map, ← head]
  cases enumeration.members <;> rfl

theorem textOf_placeholderLines (name : String) :
    textOf (placeholderLines name) = placeholderText name := by
  have head : "class " ++ name ++ "(" ++ "ctypes.Structure" ++ "):"
      = "class " ++ name ++ "(ctypes.Structure):" := by
    simp only [String.append_assoc]
    rfl
  unfold placeholderText
  rw [← head]
  rfl

theorem textOf_fieldsLines (record : Record) : textOf (fieldsLines record) = fieldsText record := by
  unfold fieldsLines fieldsText
  cases empty : record.fields.isEmpty with
  | true => simp [textOf, lines, empty]
  | false => simp [textOf, empty, Function.comp_def]

theorem map_textOf_classLines (declarations : List Declaration) :
    (declarations.filterMap classLines?).map textOf = declarations.filterMap classText? := by
  rw [List.map_filterMap]
  congr 1
  funext declaration
  cases declaration with
  | typeAlias a =>
      simp only [classLines?, classText?]
      split <;> rfl
  | constant | record | enumeration | function => rfl

theorem map_textOf_aliasLines (declarations : List Declaration) :
    (declarations.filterMap plainAlias?).map aliasText = declarations.filterMap aliasText? := by
  rw [List.map_filterMap]
  congr 1
  funext declaration
  cases declaration with
  | typeAlias a =>
      simp only [plainAlias?, aliasText?]
      split <;> rfl
  | constant | record | enumeration | function => rfl

/-! ### The text of blocks -/

/-- Lines of which one has a text. -/
def Inked (given : List Line) : Prop := ∃ line ∈ given, line.text ≠ ""

theorem Inked.ne_nil {given : List Line} (inked : Inked given) : given ≠ [] := by
  obtain ⟨line, member, _⟩ := inked
  exact List.ne_nil_of_mem member

theorem Inked.textOf_ne {given : List Line} (inked : Inked given) : textOf given ≠ "" := by
  obtain ⟨line, member, written⟩ := inked
  cases given with
  | nil => cases member
  | cons first rest =>
      cases rest with
      | nil =>
          rw [List.mem_singleton.mp member] at written
          simpa [textOf, lines] using written
      | cons second rest =>
          rw [textOf_cons first (List.cons_ne_nil second rest)]
          simp [String.append_eq_empty_iff]

theorem Inked.spaced {blanks : Nat} {groups : List (List Line)} (some_ : groups ≠ [])
    (inked : ∀ group ∈ groups, Inked group) : Inked (spaced blanks groups) := by
  cases groups with
  | nil => exact absurd rfl some_
  | cons group rest =>
      obtain ⟨line, member, written⟩ := inked group (by simp)
      refine ⟨line, ?_, written⟩
      cases rest <;> simp [Module.spaced, List.intercalate_cons_cons, member]

theorem inked_cons {line : Line} {rest : List Line} (written : line.text ≠ "") :
    Inked (line :: rest) :=
  ⟨line, by simp, written⟩

theorem inked_classHead {name : String} {base : TypeExpr} {rest : List Line} :
    Inked (.classHead name base :: rest) :=
  inked_cons (by simp [String.append_eq_empty_iff])

theorem inked_constantLines (constant : Constant) : Inked (constantLines constant) :=
  inked_cons (by simp [constantText, String.append_eq_empty_iff])

theorem inked_functionLines (function : Function) : Inked (functionLines function) :=
  inked_cons (by simp [String.append_eq_empty_iff])

theorem inked_aliasLine (typeAlias : Alias) : Inked [.aliasLine typeAlias] :=
  inked_cons (by simp [aliasText, String.append_eq_empty_iff])

theorem inked_fieldsLines (record : Record) : Inked (fieldsLines record) := by
  unfold fieldsLines
  split
  · rename_i empty
    exact inked_cons (by simp [empty, String.append_eq_empty_iff])
  · rename_i some_
    exact inked_cons (by simp [some_, String.append_eq_empty_iff])

theorem inked_classGroups (registry : Registry) : ∀ group ∈ classGroups registry, Inked group := by
  intro group member
  rcases List.mem_append.mp member with placeholder | declared
  · obtain ⟨name, _, rfl⟩ := List.mem_map.mp placeholder
    exact inked_classHead
  · obtain ⟨declaration, _, isClass⟩ := List.mem_filterMap.mp declared
    cases declaration with
    | record r =>
        cases isClass
        exact inked_classHead
    | typeAlias a =>
        simp only [classLines?] at isClass
        split at isClass
        · cases isClass
          exact inked_classHead
        · cases isClass
    | constant | enumeration | function => cases isClass

theorem forall_mem_gathered {blanks : Nat} {groups : List (List Line)}
    (inked : ∀ group ∈ groups, Inked group) : ∀ group ∈ gathered blanks groups, Inked group := by
  intro group member
  unfold gathered at member
  split at member
  · cases member
  · rename_i some_
    rw [List.mem_singleton.mp member]
    exact Inked.spaced (by simpa using some_) inked

theorem inked_groups (registry : Registry) (category : Category) :
    ∀ group ∈ groups registry category, Inked group := by
  intro group member
  cases category with
  | constants =>
      obtain ⟨constant, _, rfl⟩ := List.mem_map.mp member
      exact inked_constantLines constant
  | enumerations =>
      obtain ⟨enumeration, _, rfl⟩ := List.mem_map.mp member
      exact inked_classHead
  | types =>
      rcases List.mem_append.mp member with early | fields
      · rcases List.mem_append.mp early with classes | aliases
        · exact forall_mem_gathered (inked_classGroups registry) group classes
        · refine forall_mem_gathered ?_ group aliases
          intro group member
          obtain ⟨typeAlias, _, rfl⟩ := List.mem_map.mp member
          exact inked_aliasLine typeAlias
      · refine forall_mem_gathered ?_ group fields
        intro group member
        obtain ⟨record, _, rfl⟩ := List.mem_map.mp member
        exact inked_fieldsLines record
  | functions =>
      obtain ⟨function, _, rfl⟩ := List.mem_map.mp member
      exact inked_functionLines function

theorem map_textOf_classGroups (registry : Registry) :
    (classGroups registry).map textOf = classTexts registry := by
  unfold classGroups classTexts
  rw [List.map_append, List.map_map, map_textOf_classLines]
  congr 2
  funext name
  exact textOf_placeholderLines name

theorem map_textOf_typeGroups (registry : Registry) :
    (typeGroups registry).map textOf
      = joined "\n\n\n" (classTexts registry) ++ joined "\n" (aliasTexts registry)
        ++ joined "\n\n" (fieldsTexts registry) := by
  have classes := map_textOf_gathered 2 (classGroups registry) fun group member =>
    (inked_classGroups registry group member).ne_nil
  have aliases := map_textOf_gathered 0
    ((plainAliases registry).map fun typeAlias => [.aliasLine typeAlias]) (by simp)
  have fields := map_textOf_gathered 1 ((records registry).map fieldsLines)
    fun group member => by
      obtain ⟨record, _, rfl⟩ := List.mem_map.mp member
      exact (inked_fieldsLines record).ne_nil
  have aliasesText : ((plainAliases registry).map fun typeAlias => [Line.aliasLine typeAlias]).map
      textOf = aliasTexts registry := by
    unfold aliasTexts
    rw [← map_textOf_aliasLines, List.map_map]
    refine List.map_congr_left fun typeAlias _ => ?_
    simp [textOf, lines]
  have fieldsText : ((records registry).map fieldsLines).map textOf = fieldsTexts registry := by
    rw [List.map_map]
    exact List.map_congr_left fun record _ => textOf_fieldsLines record
  unfold typeGroups
  rw [List.map_append, List.map_append, classes, aliases, fields, map_textOf_classGroups,
    aliasesText, fieldsText]
  rfl

theorem textOf_blockLines (registry : Registry) (category : Category) :
    textOf (blockLines registry category) = block registry category := by
  rw [blockLines, textOf_spaced fun group member => (inked_groups registry category group member).ne_nil]
  cases category with
  | constants =>
      unfold block lines groups
      rw [List.map_map]
      rfl
  | enumerations =>
      unfold block groups
      rw [List.map_map]
      congr 1
      exact List.map_congr_left fun enumeration _ => textOf_enumerationLines enumeration
  | types =>
      rw [groups, map_textOf_typeGroups]
      rfl
  | functions =>
      unfold block groups
      rw [List.map_map]
      rfl

theorem isEmpty_blockLines (registry : Registry) (category : Category) :
    (blockLines registry category).isEmpty = (block registry category).isEmpty := by
  rw [← textOf_blockLines]
  cases isEmpty : (groups registry category).isEmpty with
  | true =>
      have nothing : groups registry category = [] := by simpa using isEmpty
      rw [blockLines, nothing]
      rfl
  | false =>
      have inked : Inked (blockLines registry category) :=
        Inked.spaced (by simpa using isEmpty) (inked_groups registry category)
      have someLines : (blockLines registry category).isEmpty = false := by simpa using inked.ne_nil
      have someText : (textOf (blockLines registry category)).isEmpty = false := by
        simpa using inked.textOf_ne
      rw [someLines, someText]

/-! ### The text of a module -/

theorem map_textOf_titledLines (registry : Registry) (category : Category) :
    (titledLines? registry category).map textOf = titledBlock? registry category := by
  unfold titledLines? titledBlock?
  rw [isEmpty_blockLines]
  dsimp only
  split
  · rfl
  · rename_i some_
    have written : blockLines registry category ≠ [] := by
      have nonempty : (blockLines registry category).isEmpty = false := by
        rw [isEmpty_blockLines]
        simpa using some_
      simpa using nonempty
    rw [Option.map_some, textOf_spaced (by simp [bannerLines, written])]
    simp only [List.map_cons, List.map_nil, textOf_blockLines]
    rfl

/-- The text of a module is the text of its lines. -/
theorem render_eq (registry : Registry) (library : Option String) :
    render registry library = textOf (layout registry library) ++ "\n" := by
  have titled : (blockOrder.filterMap (titledLines? registry)).map textOf
      = blockOrder.filterMap (titledBlock? registry) := by
    rw [List.map_filterMap]
    congr 1
    funext category
    exact map_textOf_titledLines registry category
  have opened : textOf (openingLines registry) = opening registry := by
    unfold textOf openingLines opening
    simp [Function.comp_def, apply_ite (List.map _)]
  have helper : (if registry.emitted.functions.isEmpty then [] else [helperLines]).map textOf
      = if registry.emitted.functions.isEmpty then [] else [bindHelper] := by
    split <;> rfl
  unfold layout
  rw [textOf_spaced]
  · rw [List.map_append, List.map_append, titled, helper]
    simp only [List.map_cons, List.map_nil, opened, textOf_plain]
    rfl
  · intro group member
    rcases List.mem_append.mp member with early | block
    · rcases List.mem_append.mp early with first | helper
      · simp only [List.mem_cons, List.not_mem_nil, or_false] at first
        rcases first with rfl | rfl | rfl <;> simp [openingLines]
      · split at helper
        · cases helper
        · rw [List.mem_singleton.mp helper]
          simp [helperLines]
    · obtain ⟨category, _, isTitled⟩ := List.mem_filterMap.mp block
      unfold titledLines? at isTitled
      split at isTitled
      · cases isTitled
      · rename_i some_
        cases isTitled
        exact spaced_ne_nil _ (by simp) (by simpa [bannerLines] using some_)

/-! ### The lines that matter

Banners, comments, blank lines and constants neither bind nor use types, so the order of the other
lines can be read off the declarations. -/

@[simp] theorem matters_plain (content : String) : (Line.plain content).matters = false := rfl

@[simp] theorem matters_fieldsHead (record : Record) : (Line.fieldsHead record).matters = true := rfl

@[simp] theorem matters_fieldLine (field : Field) : (Line.fieldLine field).matters = true := rfl

theorem filter_map_of_plain {α : Type} (entries : List α) (content : α → String) :
    (entries.map fun entry => Line.plain (content entry)).filter Line.matters = [] := by
  simp [List.filter_map, Function.comp_def]

theorem filter_map_of_matters {α : Type} (entries : List α) {line : α → Line}
    (matters : ∀ entry, (line entry).matters = true) :
    (entries.map line).filter Line.matters = entries.map line := by
  refine List.filter_eq_self.mpr fun written member => ?_
  obtain ⟨entry, _, rfl⟩ := List.mem_map.mp member
  exact matters entry

theorem filter_spaced (blanks : Nat) (groups : List (List Line)) :
    (spaced blanks groups).filter Line.matters
      = groups.flatMap fun group => group.filter Line.matters := by
  have dropped : (List.replicate blanks Line.blank).filter Line.matters = [] := by
    rw [List.filter_replicate]
    rfl
  induction groups with
  | nil => rfl
  | cons group rest ih =>
      cases rest with
      | nil => simp [spaced]
      | cons next rest =>
          rw [spaced_cons (List.cons_ne_nil next rest), List.filter_append, List.filter_append, dropped,
            ih, List.nil_append]
          rfl

theorem flatMap_filter_gathered (blanks : Nat) (groups : List (List Line)) :
    ((gathered blanks groups).flatMap fun group => group.filter Line.matters)
      = groups.flatMap fun group => group.filter Line.matters := by
  unfold gathered
  cases groups with
  | nil => rfl
  | cons group rest =>
      rw [if_neg (by simp), List.flatMap_singleton, filter_spaced]

theorem filter_titledLines (registry : Registry) (category : Category) :
    ((titledLines? registry category).toList.flatMap fun group => group.filter Line.matters)
      = (blockLines registry category).filter Line.matters := by
  unfold titledLines?
  split
  · rename_i empty
    rw [List.isEmpty_iff.mp empty]
    rfl
  · rw [Option.toList_some, List.flatMap_singleton, filter_spaced]
    simp [bannerLines]

/-- The heads of the classes of enumerations. -/
def enumerationHeads (registry : Registry) : List Line :=
  (enumerations registry).map fun enumeration =>
    .classHead enumeration.name (.named "ctypes.c_int")

/-- The heads of the classes of types. -/
def classHeads (registry : Registry) : List Line :=
  (classGroups registry).flatMap fun group => group.filter Line.matters

/-- The lines that bind the fields of records. -/
def recordFieldLines (registry : Registry) : List Line :=
  (records registry).flatMap fun record => .fieldsHead record :: record.fields.map .fieldLine

/-- In the block of types the heads of classes come first, then the further names of types, then the
fields of records. -/
theorem filter_typeLines (registry : Registry) :
    (blockLines registry .types).filter Line.matters
      = classHeads registry ++ (plainAliases registry).map .aliasLine
        ++ recordFieldLines registry := by
  have aliasLine : ((plainAliases registry).map fun typeAlias => [Line.aliasLine typeAlias]).flatMap
      (fun group => group.filter Line.matters) = (plainAliases registry).map .aliasLine := by
    rw [List.flatMap_map, List.map_eq_flatMap]
    rfl
  have fields : ((records registry).map fieldsLines).flatMap
      (fun group => group.filter Line.matters) = recordFieldLines registry := by
    rw [List.flatMap_map, recordFieldLines]
    congr 1
    funext record
    unfold fieldsLines
    split
    · rename_i empty
      simp [List.isEmpty_iff.mp empty]
    · rw [List.filter_append, List.filter_append, filter_map_of_matters _ matters_fieldLine,
        List.append_assoc]
      simp only [List.filter_cons, matters_fieldsHead, matters_plain, List.filter_nil]
      simp
  rw [blockLines, filter_spaced, groups, typeGroups, List.flatMap_append, List.flatMap_append,
    flatMap_filter_gathered, flatMap_filter_gathered, flatMap_filter_gathered, aliasLine, fields]
  rfl

theorem filter_layout (registry : Registry) (library : Option String) :
    (layout registry library).filter Line.matters
      = enumerationHeads registry ++ classHeads registry
        ++ (plainAliases registry).map .aliasLine
        ++ recordFieldLines registry ++ (functions registry).map .functionLine := by
  have constantsOnly : ((constants registry).map constantLines).flatMap
      (fun group => group.filter Line.matters) = [] := by
    simp [List.flatMap_map, constantLines]
  have enumerationHead : ((enumerations registry).map enumerationLines).flatMap
      (fun group => group.filter Line.matters) = enumerationHeads registry := by
    rw [List.flatMap_map, enumerationHeads, List.map_eq_flatMap]
    congr 1
    funext enumeration
    unfold enumerationLines
    rw [List.filter_append, List.filter_append, filter_map_of_plain]
    split <;> rfl
  have functionLine : ((functions registry).map functionLines).flatMap
      (fun group => group.filter Line.matters) = (functions registry).map .functionLine := by
    rw [List.flatMap_map, List.map_eq_flatMap]
    rfl
  have opened : (openingLines registry).filter Line.matters = [] := by
    unfold openingLines
    rw [List.filter_append, List.filter_append, filter_map_of_plain,
      filter_map_of_plain _ fun content => content, filter_map_of_plain]
    rfl
  have helper : ((if registry.emitted.functions.isEmpty then [] else [helperLines]).flatMap
      fun group => group.filter Line.matters) = [] := by
    split <;> rfl
  have blocks : ((blockOrder.filterMap (titledLines? registry)).flatMap
      fun group => group.filter Line.matters)
      = blockOrder.flatMap fun category => (blockLines registry category).filter Line.matters := by
    induction blockOrder with
    | nil => rfl
    | cons category rest ih =>
        rw [List.flatMap_cons, ← filter_titledLines, ← ih]
        cases isTitled : titledLines? registry category <;> simp [isTitled]
  unfold layout
  rw [filter_spaced, List.flatMap_append, List.flatMap_append, helper, blocks]
  simp only [blockOrder, List.flatMap_cons, List.flatMap_nil, opened, filter_typeLines]
  simp only [blockLines, filter_spaced, groups, constantsOnly, enumerationHead, functionLine]
  simp

end HeaderBindings.Module
