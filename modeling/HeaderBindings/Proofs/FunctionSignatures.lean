/-
Module: HeaderBindings.Proofs.FunctionSignatures
Purpose: A claimed declaration of a function is declared with the signature that its tree declares.
Main exports: ParameterShape, DeclaresParameter, FunctionShape, DeclaresFunction,
  returns_readParameters_captures, Rules.dispatch_declares_function
-/
import HeaderBindings.Proofs.EnumeratorNumbers
import HeaderBindings.Proofs.FunctionDeclarators
import HeaderBindings.Proofs.PointerTypes

namespace HeaderBindings

open Pattern Rules Spelling Run

variable {bytes : List UInt8}

/-! ### Signatures in the tree -/

/-- A parameter as it is declared: its type with the pointers around its name, and its name, if it has
one. -/
structure ParameterShape where
  type : Capture
  name : Option String
deriving Repr, DecidableEq

namespace ParameterShape

/-- The captures that spell a parameter. -/
def captures (shape : ParameterShape) : List Capture :=
  shape.type :: (shape.name.map fun name => ⟨"identifier", name⟩).toList

/-- The name that a parameter is bound by, if it has one. -/
def boundName (shape : ParameterShape) : String := (shape.name.map bindingName).getD ""

/-- Whether a parameter is the `void` that stands for no parameters. -/
def isVoid (shape : ParameterShape) : Bool := shape.type.text == "void" && shape.boundName.isEmpty

/-- The parameter of a generated signature at an index. One without name is called by its index. -/
def parameter (index : Nat) (shape : ParameterShape) : Parameter :=
  ⟨if shape.boundName.isEmpty then "arg" ++ toString index else shape.boundName,
    FieldShape.target shape.type.text⟩

/-- The type of a parameter has a type expression. -/
def Typed (shape : ParameterShape) : Prop := ∃ type, typeExpr shape.type.text = .ok type

end ParameterShape

/-- The parameters of a generated signature. -/
def parametersOf (shapes : List ParameterShape) : List Parameter :=
  (shapes.filter (!·.isVoid)).mapIdx ParameterShape.parameter

/-- A parameter with one type, in whose text there is no star, declares at most a name, in a number of
pointers. -/
inductive DeclaresParameter (bytes : List UInt8) (parameter : Cursor) : ParameterShape → Prop where
  | unnamed {specifier : Cursor} (typed : parameter.ofKinds typeKinds = [specifier])
      (starless : '*' ∉ (specifier.spellingNode.textIn bytes).toList)
      (nameless : parameter.ofKinds ["identifier", "pointer_declarator"] = []) :
      DeclaresParameter bytes parameter ⟨specifier.spellingNode.leaf bytes, none⟩
  | named {specifier declarator name : Cursor} {depth : Nat}
      (typed : parameter.ofKinds typeKinds = [specifier])
      (starless : '*' ∉ (specifier.spellingNode.textIn bytes).toList)
      (declares : parameter.ofKinds ["identifier", "pointer_declarator"] = [declarator])
      (around : PointersAround "identifier" declarator depth name) :
      DeclaresParameter bytes parameter
        ⟨(specifier.spellingNode.leaf bytes).pointers depth, some (name.textIn bytes)⟩

/-- A function as it is declared: its type, the pointers around its declarator, its name and its
parameters. -/
structure FunctionShape where
  type : String
  depth : Nat
  name : String
  parameters : List ParameterShape
deriving Repr, DecidableEq

/-- A declaration with one type, in whose text there is no star, declares one function, in a number of
pointers. -/
inductive DeclaresFunction (bytes : List UInt8) (declaration : Cursor) : FunctionShape → Prop where
  | function {specifier declarator target name : Cursor} {depth : Nat} {shapes : List ParameterShape}
      (typed : declaration.ofKinds typeKinds = [specifier])
      (starless : '*' ∉ (specifier.spellingNode.textIn bytes).toList)
      (declares : declaration.ofKinds ["function_declarator", "pointer_declarator"] = [declarator])
      (around : PointersAround "function_declarator" declarator depth target)
      (named : target.ofKinds ["identifier"] = [name]) (fills : name.FillsDeclarator)
      (parameters : List.Forall₂ (DeclaresParameter bytes) target.parameterNodes shapes) :
      DeclaresFunction bytes declaration
        ⟨specifier.spellingNode.textIn bytes, depth, name.textIn bytes, shapes⟩

/-- The types of a function and its parameters have type expressions. -/
structure FunctionShape.Typed (shape : FunctionShape) : Prop where
  returnType : ∃ type, typeExpr (shape.type ++ Capture.stars shape.depth) = .ok type
  parameters : ∀ parameter ∈ shape.parameters, parameter.Typed

/-! ### The captures of a signature -/

section

variable {alphabet : Alphabet} {enclosing : Option Pattern}

/-- What follows after a parameter is no name of it. -/
theorem DeclaresParameter.leaves_eq {parameter : Cursor} {shape : ParameterShape}
    (declares : DeclaresParameter bytes parameter shape)
    (finds : parameterPattern.Finds alphabet enclosing parameter) :
    shape.type.kind ∈ Capture.typeNames ∧ ∃ type names, parameter.leaves = type :: names ∧
      type.pointerDepth = 0 ∧ ∀ later, pointersOf later = "" →
        spelled bytes (type :: names ++ later) = shape.captures ++ spelled bytes later := by
  obtain ⟨kind, leaves, types, found⟩ := leaves_of_parameter finds
  cases declares with
  | @unnamed specifier typed _ nameless =>
      obtain ⟨isType, noPointers⟩ := types specifier (by simp [typed])
      rw [typed, nameless] at leaves
      refine ⟨isType, _, _, leaves, noPointers, fun later plain => ?_⟩
      simp [spelled, plain, ParameterShape.captures, Cursor.leaf]
  | @named specifier declarator name depth typed _ declares around =>
      obtain ⟨isType, noPointers⟩ := types specifier (by simp [typed])
      have inside : declarator ∈ parameter.ofKinds ["identifier", "pointer_declarator"] := by
        simp [declares]
      have pointers : name.pointerDepth = depth :=
        around.pointersAbove_eq_depth (Cursor.mem_ofKinds.mp inside).1 (by rw [kind]; decide)
      obtain ⟨below, finds⟩ := around.through.flatMap_leaves wrapsKind_identifier
        (fun node member => found node (by rw [declares]; exact member))
      obtain ⟨_, nameFinds⟩ := finds name List.mem_cons_self
      have nameKind : name.kind = "identifier" := nameFinds.kind_eq rfl
      have nameLeaves : name.leaves = [name] := Cursor.leaves_of_captured (by rw [nameKind]; decide)
      rw [typed, declares, below, List.flatMap_singleton, nameLeaves] at leaves
      refine ⟨isType, _, _, leaves, noPointers, fun later plain => ?_⟩
      have stars : pointersOf (name :: later) = Capture.stars depth := by
        simp [pointersOf, nameKind, pointers, Capture.declaratorNames]
      simp [spelled, stars, plain, nameKind, ParameterShape.captures, Cursor.leaf, Capture.pointers]

/-- The captures of parameters are those of each, in order; no pointers of theirs stand before them. -/
theorem spelled_parameters {parameters : List Cursor} {shapes : List ParameterShape}
    (declares : List.Forall₂ (DeclaresParameter bytes) parameters shapes)
    (finds : ∀ parameter ∈ parameters, ∃ around, parameterPattern.Finds alphabet around parameter) :
    spelled bytes (parameters.flatMap Cursor.leaves) = shapes.flatMap ParameterShape.captures ∧
      pointersOf (parameters.flatMap Cursor.leaves) = "" ∧
      ∀ shape ∈ shapes, shape.type.kind ∈ Capture.typeNames := by
  induction declares with
  | nil => exact ⟨rfl, rfl, by simp⟩
  | cons first _ ih =>
      rw [List.forall_mem_cons] at finds
      obtain ⟨spells, plain, kinds⟩ := ih finds.2
      obtain ⟨_, isFound⟩ := finds.1
      obtain ⟨isType, type, names, leaves, noPointers, spellsFirst⟩ := first.leaves_eq isFound
      rw [List.flatMap_cons, List.flatMap_cons, leaves, spellsFirst _ plain, spells, List.forall_mem_cons]
      refine ⟨rfl, ?_, isType, kinds⟩
      simp [pointersOf, noPointers, Capture.stars]

/-- The name of a function stands below the pointers that are around its declarator. -/
theorem PointersAround.pointerDepth_name {parent declarator target name : Cursor} {depth : Nat}
    (around : PointersAround "function_declarator" declarator depth target)
    (isFunction : target.kind = "function_declarator") (inside : declarator ∈ parent.named)
    (plain : parent.kind ∉ ["function_declarator", "array_declarator", "pointer_declarator"])
    (isName : name ∈ target.named) (fills : name.FillsDeclarator) : name.pointerDepth = depth := by
  have kind : target.focus.kind = "function_declarator" := isFunction
  obtain ⟨index, above, _⟩ := Cursor.exists_index_of_mem_named isName
  obtain ⟨frame, isFrame, filled⟩ := fills
  rw [above, List.head?_cons, Option.mem_some_iff] at isFrame
  subst isFrame
  rw [← around.pointersAbove_eq_depth inside plain, Cursor.pointerDepth, above, Cursor.pointersAbove]
  simp [kind, filled]

/-- The captures of a declared function: its type with its pointers, its name, and those of its
parameters. -/
theorem DeclaresFunction.captures_eq {declaration : Cursor} {shape : FunctionShape}
    (declares : DeclaresFunction bytes declaration shape)
    (finds : ∀ pattern, (pattern, Action.declareFunction) ∈ shapeList →
      pattern.Finds alphabet none declaration) :
    (∃ typeKind, (declaration.capturesAfter bytes []).reverse
      = ⟨typeKind, shape.type ++ Capture.stars shape.depth⟩ :: ⟨"identifier", shape.name⟩
        :: shape.parameters.flatMap ParameterShape.captures) ∧
      '*' ∉ shape.type.toList ∧
        ∀ parameter ∈ shape.parameters, parameter.type.kind ∈ Capture.typeNames := by
  have found : functionPattern.Finds alphabet none declaration := finds functionPattern (by decide)
  have kind : declaration.kind = "declaration" := found.kind_eq rfl
  cases declares with
  | @function specifier declarator target name depth shapes typed starless declares around named fills
      parameters =>
      have through := around.through
      rw [← declares] at through
      obtain ⟨leaves, _, targets⟩ := leaves_of_function found through
      obtain ⟨_, targetFinds⟩ := targets target List.mem_cons_self
      obtain ⟨other, isOther, targetLeaves, parameterFinds⟩ := leaves_of_functionDeclarator targetFinds
      obtain rfl : name = other := List.singleton_inj.mp (named.symm.trans isOther)
      have nameKind : name.kind = "identifier" := Cursor.kind_of_only named
      have inside : declarator ∈ declaration.named :=
        (Cursor.mem_ofKinds.mp (by rw [declares]; exact List.mem_singleton_self _)).1
      have isName : name ∈ target.named :=
        (Cursor.mem_ofKinds.mp (by rw [named]; exact List.mem_singleton_self _)).1
      have pointers : name.pointerDepth = depth :=
        around.pointerDepth_name (targetFinds.kind_eq rfl) inside (by rw [kind]; decide) isName fills
      obtain ⟨spells, plain, kinds⟩ := spelled_parameters parameters parameterFinds
      rw [typed, List.map_singleton, List.flatMap_singleton, targetLeaves, List.singleton_append] at leaves
      refine ⟨⟨specifier.spellingNode.kind, ?_⟩, starless, kinds⟩
      rw [Cursor.captures_eq_spelled (noField_of_plain (by simp) finds), leaves, spelled, spelled, spells,
        plain]
      simp [pointersOf, nameKind, pointers, Capture.declaratorNames]

end

/-! ### Reading a signature back -/

namespace ParameterShape

/-- Parameters with one more, unless it stands for none. -/
def addTo (known : List Parameter) (shape : ParameterShape) : List Parameter :=
  if shape.isVoid then known else known ++ [shape.parameter known.length]

/-- Parameters that are added one after another are numbered on from those that are known. -/
theorem foldl_addTo (shapes : List ParameterShape) (known : List Parameter) :
    shapes.foldl addTo known = known ++ (shapes.filter (!·.isVoid)).mapIdx fun index shape =>
      shape.parameter (known.length + index) := by
  induction shapes generalizing known with
  | nil => simp
  | cons shape rest ih =>
      rw [List.foldl_cons, ih, addTo]
      cases isVoid : shape.isVoid with
      | true => simp [isVoid]
      | false => simp [isVoid, Nat.add_assoc, Nat.add_comm 1]

theorem returns_addParameter {shape : ParameterShape} (typed : shape.Typed) (known : List Parameter)
    (before : Registry) :
    ∃ after, (readParameters.addParameter known shape.type.text shape.boundName).Returns before
      (shape.addTo known) after := by
  unfold readParameters.addParameter addTo
  rw [← isVoid]
  by_cases isVoid : shape.isVoid = true
  · rw [if_pos isVoid, if_pos isVoid]
    exact ⟨before, returns_pure_iff.mpr ⟨rfl, rfl⟩⟩
  · rw [if_neg isVoid, if_neg isVoid]
    exact ⟨_, (returns_target_of_typed _ typed before).bind (returns_pure_iff.mpr ⟨rfl, rfl⟩)⟩

/-- The captures of a parameter are read as one, if what follows is no name. -/
theorem readParameters_captures (shape : ParameterShape) (known : List Parameter) {rest : List Capture}
    (noName : ∀ first ∈ rest.head?, first.kind ≠ "identifier") :
    readParameters known (shape.captures ++ rest)
      = readParameters.addParameter known shape.type.text shape.boundName >>= (readParameters · rest) := by
  obtain ⟨type, _ | name⟩ := shape
  · cases rest with
    | nil =>
        have done : (readParameters · []) = (pure : List Parameter → Run (List Parameter)) := by
          funext given
          rw [readParameters]
        rw [done, bind_pure]
        rfl
    | cons first later =>
        have isType : ¬ (first.kind == "identifier") = true := by simpa using noName first rfl
        change readParameters known (type :: first :: later) = _
        rw [readParameters, if_neg isType]
        rfl
  · change readParameters known (type :: ⟨"identifier", name⟩ :: rest) = _
    rw [readParameters, if_pos (by rfl)]
    rfl

end ParameterShape

/-- The captures of parameters read back as these, after those that are known. -/
theorem returns_readParameters_captures {shapes : List ParameterShape}
    (kinds : ∀ shape ∈ shapes, shape.type.kind ∈ Capture.typeNames)
    (typed : ∀ shape ∈ shapes, shape.Typed) (known : List Parameter) (before : Registry) :
    ∃ after, (readParameters known (shapes.flatMap ParameterShape.captures)).Returns before
      (shapes.foldl ParameterShape.addTo known) after := by
  induction shapes generalizing known before with
  | nil => exact ⟨before, returns_pure_iff.mpr ⟨rfl, rfl⟩⟩
  | cons shape rest ih =>
      rw [List.forall_mem_cons] at kinds typed
      obtain ⟨between, added⟩ := shape.returns_addParameter typed.1 known before
      obtain ⟨after, later⟩ := ih kinds.2 typed.2 (shape.addTo known) between
      refine ⟨after, ?_⟩
      rw [List.flatMap_cons, shape.readParameters_captures known]
      · exact added.bind later
      · intro first isFirst isName
        cases rest with
        | nil => cases isFirst
        | cons next _ =>
            obtain rfl : next.type = first := Option.some.inj isFirst
            have isType := kinds.2 next List.mem_cons_self
            rw [isName] at isType
            exact absurd isType (by decide)

/-- A signature that is declared under a name that is new. -/
theorem returns_declareFunction_of_shape {shape : FunctionShape} (typed : shape.Typed)
    (kinds : ∀ parameter ∈ shape.parameters, parameter.type.kind ∈ Capture.typeNames)
    (named : bindingName shape.name ≠ "") {before : Registry}
    (new : before.isDeclared .functions (bindingName shape.name) = false) (typeKind : String) :
    ∃ after returnType, (declareFunction (⟨typeKind, shape.type ++ Capture.stars shape.depth⟩
        :: ⟨"identifier", shape.name⟩ :: shape.parameters.flatMap ParameterShape.captures)).Returns
        before () after ∧
      typeExpr (shape.type ++ Capture.stars shape.depth) = .ok returnType ∧
      after.emitted
        = before.emitted.modify .functions (· ++ [.function ⟨bindingName shape.name, shape.name,
        before.currentHeader, returnType, parametersOf shape.parameters⟩]) := by
  obtain ⟨returnType, isType⟩ := typed.returnType
  obtain ⟨between, read⟩ := returns_readParameters_captures kinds typed.parameters []
    ((before.reserve .functions (bindingName shape.name)).referAll
      (returnType.bind TypeExpr.reference?).toList)
  have numbered : shape.parameters.foldl ParameterShape.addTo [] = parametersOf shape.parameters := by
    rw [ParameterShape.foldl_addTo, parametersOf]
    simp
  rw [numbered] at read
  refine ⟨_, returnType, returns_declareFunction_iff.mpr
    (Or.inr ⟨named, new, returnType, _, between, isType, read, rfl⟩), isType, ?_⟩
  obtain ⟨_, _, rfl⟩ := addsNoting_readParameters read
  rw [Registry.referAll_frame, Registry.referAll_frame]
  rfl

namespace Rules

/-- The signature of a function survives from its tree to its declaration: if it is declared by one
declarator with one type, its parameters have one type and at most one name each, and its name is there
and new, offering it to the default grammar adds exactly one function, with its raw name, its type and
its parameters in order; and nothing is returned exactly if the type is plain `void` without pointers.
-/
theorem dispatch_declares_function {node : Cursor} {registry : Registry} {shape : FunctionShape}
    (claimed : Claims node .declareFunction) (declares : DeclaresFunction bytes node shape)
    (typed : shape.Typed) (named : bindingName shape.name ≠ "")
    (new : registry.isDeclared .functions (bindingName shape.name) = false) :
    ∃ captures after returnType, (table.dispatch alphabet bytes Generation.runDefault node).Returns
        registry (some captures) after ∧
      typeExpr (shape.type ++ Capture.stars shape.depth) = .ok returnType ∧
      (returnType = none ↔ shape.depth = 0 ∧ typeWords shape.type.toList = ["void"]) ∧
      after.emitted
        = registry.emitted.modify .functions (· ++ [.function ⟨bindingName shape.name, shape.name,
        registry.currentHeader, returnType, parametersOf shape.parameters⟩]) := by
  obtain ⟨⟨typeKind, spells⟩, starless, kinds⟩ :=
    declares.captures_eq fun _ => finds_of_claims claimed
  obtain ⟨after, returnType, ran, isType, emitted⟩ :=
    returns_declareFunction_of_shape typed kinds named new typeKind
  rw [← spells] at ran
  obtain ⟨captures, returns⟩ := returns_dispatch_of_run claimed ran
  exact ⟨captures, after, returnType, returns, isType,
    typeExpr_stars_eq_none_iff starless isType, emitted⟩

/-- The signature of the declaration with one declarator. -/
def makeShape : FunctionShape :=
  ⟨"S", 2, "make",
    [⟨⟨"primitive_type", "char *"⟩, some "name"⟩, ⟨⟨"primitive_type", "int"⟩, none⟩,
    ⟨⟨"sized_type_specifier", "unsigned long"⟩, some "count"⟩,
      ⟨⟨"primitive_type", "int"⟩, some "_"⟩]⟩

theorem declaresFunction_make :
    DeclaresFunction oneDeclarator.bytes (.root oneDeclarator.tree) makeShape := by
  have parameters : ∃ shapes, List.Forall₂ (DeclaresParameter oneDeclarator.bytes)
      makeDeclarator.parameterNodes shapes ∧ shapes = makeShape.parameters := by
    apply Exists.intro
    constructor
    · apply List.Forall₂.cons
      · exact .named rfl (by decide +kernel) rfl (.pointer rfl rfl (.target rfl))
      · apply List.Forall₂.cons
        · exact .unnamed rfl (by decide +kernel) rfl
        · apply List.Forall₂.cons
          · exact .named rfl (by decide +kernel) rfl (.target rfl)
          · apply List.Forall₂.cons
            · exact .named rfl (by decide +kernel) rfl (.target rfl)
            · exact .nil
    · decide +kernel
  obtain ⟨_, parameters, rfl⟩ := parameters
  obtain ⟨declarator, single, around⟩ := pointersAround_makeDeclarator
  have declares : ∃ type name, DeclaresFunction oneDeclarator.bytes (.root oneDeclarator.tree)
      ⟨type, 2, name, makeShape.parameters⟩ ∧ type = "S" ∧ name = "make" := by
    refine ⟨_, _, .function rfl (by decide +kernel) single around rfl ⟨_, rfl, rfl⟩ parameters, ?_⟩
    decide +kernel
  obtain ⟨_, _, declares, rfl, rfl⟩ := declares
  exact declares

/-- The pointers of a function and of its parameters stay with each, and parameters without a name that
can be bound are called by their indices. -/
theorem dispatch_declares_function_make :
    let node := Cursor.root oneDeclarator.tree
    Claims node .declareFunction ∧ DeclaresFunction oneDeclarator.bytes node makeShape ∧
      makeShape.Typed ∧
      ∃ captures after, (table.dispatch alphabet oneDeclarator.bytes Generation.runDefault node).Returns
          .empty (some captures) after ∧
        after.emitted.functions = [.function makeFunction] := by
  intro node
  have claimed : Claims node .declareFunction := by decide +kernel
  have types : typeExpr (makeShape.type ++ Capture.stars makeShape.depth) = .ok makeFunction.returnType ∧
      ∀ parameter ∈ makeShape.parameters,
        typeExpr parameter.type.text = .ok (some (FieldShape.target parameter.type.text)) := by
    decide +kernel
  have typed : makeShape.Typed :=
    ⟨⟨_, types.1⟩, fun parameter member => ⟨_, types.2 parameter member⟩⟩
  have new : Registry.empty.isDeclared .functions (bindingName makeShape.name) = false := rfl
  obtain ⟨captures, after, returnType, returns, isType, _, emitted⟩ :=
    dispatch_declares_function claimed declaresFunction_make typed (by decide) new
  refine ⟨claimed, declaresFunction_make, typed, captures, after, returns, ?_⟩
  have isReturnType : returnType = makeFunction.returnType := Except.ok.inj (isType.symm.trans types.1)
  have signature : (⟨bindingName makeShape.name, makeShape.name, Registry.empty.currentHeader,
      makeFunction.returnType, parametersOf makeShape.parameters⟩ : Function) = makeFunction := by
    decide +kernel
  rw [emitted, isReturnType, signature]
  rfl

end Rules

end HeaderBindings
