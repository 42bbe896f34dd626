/-
Module: HeaderBindings.Proofs.SessionMerge
Purpose: The functions and types of a session are those that its nodes declare each alone, the first of
  each name.
Main exports: firstOfEachName, Table.alone, Session.parts, Acts.emitted_eq,
  Session.Generated.first_of_parts
-/
import HeaderBindings.Proofs.OfferedNodes
import HeaderBindings.Proofs.Regeneration

namespace HeaderBindings

open Run

/-! ### The first declaration of each name -/

/-- Declarations without those whose names come earlier. -/
def firstOfEachName : List Declaration → List Declaration
  | [] => []
  | first :: rest => first :: (firstOfEachName rest).filter fun later => later.name != first.name

theorem mem_names_firstOfEachName {declarations : List Declaration} {name : String} :
    name ∈ (firstOfEachName declarations).map Declaration.name ↔
      name ∈ declarations.map Declaration.name := by
  induction declarations with
  | nil => rfl
  | cons first rest ih =>
      by_cases same : name = first.name
      · simp [firstOfEachName, same]
      · simp only [List.mem_map] at ih
        simp only [firstOfEachName, List.map_cons, List.mem_cons, same, false_or, List.mem_map,
          List.mem_filter, bne_iff_ne, ← ih]
        constructor
        · rintro ⟨later, ⟨member, _⟩, isName⟩
          exact ⟨later, member, isName⟩
        · rintro ⟨later, member, isName⟩
          exact ⟨later, ⟨member, by rwa [isName]⟩, isName⟩

theorem firstOfEachName_of_nodup {declarations : List Declaration}
    (distinct : (declarations.map Declaration.name).Nodup) :
    firstOfEachName declarations = declarations := by
  induction declarations with
  | nil => rfl
  | cons first rest ih =>
      rw [List.map_cons, List.nodup_cons] at distinct
      rw [firstOfEachName, ih distinct.2, List.filter_eq_self.mpr]
      intro later member
      rw [bne_iff_ne]
      intro same
      exact distinct.1 (same ▸ List.mem_map_of_mem member)

/-- Of further declarations those with new names are added. -/
theorem firstOfEachName_append (known more : List Declaration) :
    firstOfEachName (known ++ more) = firstOfEachName known ++
      (firstOfEachName more).filter fun later => later.name ∉ known.map Declaration.name := by
  induction known with
  | nil => simp [firstOfEachName]
  | cons first rest ih =>
      rw [List.cons_append, firstOfEachName, ih, List.filter_append, List.filter_filter,
        firstOfEachName, List.cons_append]
      congr 3
      funext later
      by_cases same : later.name = first.name
      · simp [same]
      · simp [same]

/-! ### One node -/

variable {before after single : Registry} {value : Unit}

namespace Registry

theorem emitted_takeIn_of_ne (registry : Registry) {declaration : Declaration} {category : Category}
    (other : category ≠ declaration.category) :
    (registry.takeIn declaration).emitted.get category = registry.emitted.get category := by
  rw [emitted_takeIn, ByCategory.get_modify_of_ne _ _ other]

theorem emitted_takeIn_self (registry : Registry) (declaration : Declaration) :
    (registry.takeIn declaration).emitted.get declaration.category
      = registry.emitted.get declaration.category ++ [declaration] := by
  rw [emitted_takeIn, ByCategory.get_modify_self]

/-- Nothing has been declared since a header began in the empty registry. -/
theorem isDeclared_beginHeader_empty (header : String) (category : Category) (name : String) :
    (empty.beginHeader header).isDeclared category name = false := by
  cases category <;> rfl

theorem emitted_beginHeader_empty (header : String) (category : Category) :
    (empty.beginHeader header).emitted.get category = [] := by
  cases category <;> rfl

end Registry

namespace Run.DeclaresUnder

variable {category other : Category} {name : String} {made : Registry → Declaration} {step : Run Unit}

theorem emitted_of_ne (declares : DeclaresUnder category name made step) (differs : other ≠ category)
    (returns : step.Returns before value after) :
    after.emitted.get other = before.emitted.get other := by
  rcases declares.takesIn returns with ⟨_, rfl⟩ | ⟨_, rfl⟩
  · rfl
  · apply Registry.emitted_takeIn_of_ne
    rwa [declares.isCategory]

/-- What a step adds to a registry is what it adds to the empty one, if the name is new. -/
theorem emitted_eq (declares : DeclaresUnder category name made step) (settled : Settled made)
    (returns : step.Returns before value after)
    (returnsAlone : step.Returns (Registry.empty.beginHeader before.currentHeader) value single) :
    after.emitted.get category = before.emitted.get category
      ++ (single.emitted.get category).filter fun one => !before.isDeclared category one.name := by
  have sameMade : made (Registry.empty.beginHeader before.currentHeader) = made before :=
    settled _ _ rfl
  rcases declares.takesIn returnsAlone with ⟨unnamed | reserved, rfl⟩ | ⟨admitsAlone, rfl⟩
  · -- Nothing is declared without a name, here or there.
    rcases declares.takesIn returns with ⟨_, rfl⟩ | ⟨admits, _⟩
    · simp [Registry.emitted_beginHeader_empty]
    · exact absurd ((declares.isName before).trans unnamed) admits.named
  · rw [Registry.isDeclared_beginHeader_empty] at reserved
    cases reserved
  · rw [sameMade] at admitsAlone ⊢
    have emittedAlone :=
      (Registry.empty.beginHeader before.currentHeader).emitted_takeIn_self (made before)
    rw [declares.isCategory, Registry.emitted_beginHeader_empty, List.nil_append] at emittedAlone
    rw [emittedAlone]
    rcases declares.takesIn returns with ⟨unnamed | reserved, rfl⟩ | ⟨admits, rfl⟩
    · exact absurd ((declares.isName after).trans unnamed) admitsAlone.named
    · simp [declares.isName, reserved]
    · have free := admits.free
      have emitted := before.emitted_takeIn_self (made before)
      rw [declares.isCategory] at free emitted
      simp [emitted, free]

end Run.DeclaresUnder

/-- What a node adds to the functions, or to the types if it is not a struct or a union that gets a
made-up name, is what it would add to them alone, if the name is new. -/
theorem Acts.emitted_eq {action : Option Action} {cursor : Cursor} {step : Run Unit} {category : Category}
    (acts : Acts action cursor step) (isCategory : category = .functions ∨ category = .types)
    (tagged : category = .types → action = some .declareRecord →
      cursor.focus.hasName = true ∨ cursor.underTypedef = true)
    (returns : step.Returns before value after)
    (returnsAlone : step.Returns (Registry.empty.beginHeader before.currentHeader) value single) :
    after.emitted.get category = before.emitted.get category
      ++ (single.emitted.get category).filter fun one => !before.isDeclared category one.name := by
  have unchanged : after.emitted.get category = before.emitted.get category →
      single.emitted.get category
        = (Registry.empty.beginHeader before.currentHeader).emitted.get category →
      after.emitted.get category = before.emitted.get category
        ++ (single.emitted.get category).filter fun one => !before.isDeclared category one.name := by
    intro same sameAlone
    simp [same, sameAlone, Registry.emitted_beginHeader_empty]
  cases acts with
  | idle returns_iff =>
      apply unchanged
      · rw [returns_iff.mp returns]
      · rw [returns_iff.mp returnsAlone]
  | fails never => exact absurd returns never
  | @given declared name made settled declares =>
      by_cases same : category = declared
      · subst same
        have noEnumeration : category ≠ .enumerations := by
          rintro rfl
          simp at isCategory
        exact declares.emitted_eq (settled noEnumeration) returns returnsAlone
      · exact unchanged (declares.emitted_of_ne same returns)
          (declares.emitted_of_ne same returnsAlone)
  | @madeUp declared stem body untagged outside of returns_iff declares =>
      have other : category ≠ declared := by
        rintro rfl
        rcases isCategory with rfl | rfl
        · simp at of
        · have isRecord : action = some .declareRecord := by simpa using of
          rcases tagged rfl isRecord with hasTag | under
          · rw [untagged] at hasTag
            cases hasTag
          · rw [outside] at under
            cases under
      have sameAfter : ∀ {start left : Registry}, step.Returns start value left →
          left.emitted.get category = start.emitted.get category := by
        intro start left stepReturns
        obtain ⟨name, between, made, emitted⟩ := returns_iff.mp stepReturns
        obtain ⟨_, declaresName⟩ := declares name
        rw [declaresName.emitted_of_ne other emitted, Registry.emitted_uniqueName made]
      exact unchanged (sameAfter returns) (sameAfter returnsAlone)

/-! ### All nodes of a session -/

/-- A step returns from a registry. -/
def Run.Succeeds {α : Type} (step : Run α) (before : Registry) : Prop :=
  ∃ value after, step.Returns before value after

instance {α : Type} (step : Run α) (before : Registry) : Decidable (step.Succeeds before) :=
  match result : (ExceptT.run step).run before with
  | (.ok value, after) => .isTrue ⟨value, after, result⟩
  | (.error _, _) => .isFalse <| by
      rintro ⟨value, after, returns⟩
      rw [Returns, result] at returns
      cases returns

namespace Table

variable {table : Table Action} {alphabet : Alphabet} {header : String} {bytes : List UInt8}

/-- What is declared when a node is offered alone, under a header, to the empty registry. -/
def alone (table : Table Action) (alphabet : Alphabet) (header : String) (bytes : List UInt8)
    (cursor : Cursor) : Registry :=
  ((ExceptT.run (table.dispatch alphabet bytes Generation.runDefault cursor)).run
    (Registry.empty.beginHeader header)).2

/-- A node has a tag, or a type definition names it, if it is claimed as a struct or a union with a body. -/
def Tagged (table : Table Action) (alphabet : Alphabet) (cursor : Cursor) : Prop :=
  (table.claim? alphabet cursor).bind (·.entry.action) = some .declareRecord →
    cursor.focus.hasName = true ∨ cursor.underTypedef = true

variable {category : Category} {known : List Declaration}

/-- If the declarations of a category are the first of each name among some, then after a node was
offered they are so among these and those that it declares alone. -/
theorem emitted_dispatch {cursor : Cursor} {captures : Option (List Capture)}
    (isCategory : category = .functions ∨ category = .types)
    (tagged : category = .types → table.Tagged alphabet cursor)
    (returns : (table.dispatch alphabet bytes Generation.runDefault cursor).Returns
      before captures after)
    (succeeds : (table.dispatch alphabet bytes Generation.runDefault cursor).Succeeds
      (Registry.empty.beginHeader before.currentHeader))
    (consistent : before.Consistent) (emitted : before.emitted.get category = firstOfEachName known) :
    after.emitted.get category = firstOfEachName (known ++
      (table.alone alphabet before.currentHeader bytes cursor).emitted.get category) := by
  have noConstants : category ≠ .constants := by
    rintro rfl
    simp at isCategory
  obtain ⟨_, single, returnsAlone⟩ := succeeds
  have isAlone : table.alone alphabet before.currentHeader bytes cursor = single := by
    rw [Table.alone, returnsAlone]
  have distinct : ((single.emitted.get category).map Declaration.name).Nodup := by
    have steps : Registry.Steps .empty single := .head (.header _) (steps_dispatch returnsAlone)
    exact (Registry.consistent_empty.of_steps steps).nodup_names noConstants
  have reserved : ∀ name, before.isDeclared category name = true ↔
      name ∈ known.map Declaration.name := by
    intro name
    rw [consistent.isDeclared_iff noConstants, emitted, mem_names_firstOfEachName]
  obtain ⟨step, acts, returns_iff⟩ := table.exists_acts_dispatch alphabet bytes cursor
  rw [acts.emitted_eq isCategory tagged (returns_iff.mp returns).2 (returns_iff.mp returnsAlone).2,
    isAlone, firstOfEachName_append, firstOfEachName_of_nodup distinct, emitted]
  congr 2
  funext one
  simp [← reserved]

theorem emitted_processNodes {cursors : List Cursor} {claimed result : Nat}
    (isCategory : category = .functions ∨ category = .types)
    (tagged : category = .types → ∀ cursor ∈ cursors, table.Tagged alphabet cursor)
    (returns : (table.processNodes alphabet bytes Generation.runDefault claimed cursors).Returns
      before result after)
    (succeed : ∀ cursor ∈ cursors, (table.dispatch alphabet bytes Generation.runDefault cursor).Succeeds
      (Registry.empty.beginHeader before.currentHeader))
    (consistent : before.Consistent) (emitted : before.emitted.get category = firstOfEachName known) :
    after.emitted.get category = firstOfEachName (known ++ cursors.flatMap fun cursor =>
      (table.alone alphabet before.currentHeader bytes cursor).emitted.get category) := by
  induction cursors generalizing claimed before known with
  | nil =>
      obtain ⟨_, rfl⟩ := returns_pure_iff.mp returns
      simpa using emitted
  | cons cursor rest ih =>
      obtain ⟨captures, between, dispatched, later⟩ := returns_processNodes_cons_iff.mp returns
      rw [List.forall_mem_cons] at succeed
      have sameHeader := (dispatch_again dispatched).1.currentHeader
      have first := emitted_dispatch isCategory
        (fun isTypes => tagged isTypes cursor List.mem_cons_self) dispatched succeed.1 consistent emitted
      have laterTagged := fun isTypes other member =>
        tagged isTypes other (List.mem_cons_of_mem cursor member)
      have others := ih laterTagged later (by rw [sameHeader]; exact succeed.2)
        (consistent.of_steps (steps_dispatch dispatched)) first
      rw [sameHeader, List.append_assoc] at others
      rw [List.flatMap_cons]
      exact others

end Table

namespace Session

variable {usual : Mode} {requests : List Request} {registry : Registry} {category : Category}

/-- What the nodes of requests declare in a category, each offered alone to the empty registry under the
header of its request, in the order in which a session offers them. -/
def parts (table : Table Action) (alphabet : Alphabet) (category : Category)
    (requests : List Request) : List Declaration :=
  requests.flatMap fun request => (Cursor.root request.document.tree).walk.flatMap fun cursor =>
    (table.alone alphabet request.header request.document.bytes cursor).emitted.get category

/-- Every node of requests can be offered alone to the empty registry, under the header of its request. -/
def SucceedAlone (table : Table Action) (alphabet : Alphabet) (requests : List Request) : Prop :=
  ∀ request ∈ requests, ∀ cursor ∈ (Cursor.root request.document.tree).walk,
    (table.dispatch alphabet request.document.bytes Generation.runDefault cursor).Succeeds
      (Registry.empty.beginHeader request.header)

instance (table : Table Action) (alphabet : Alphabet) (requests : List Request) :
    Decidable (SucceedAlone table alphabet requests) :=
  inferInstanceAs (Decidable (∀ request ∈ _, ∀ cursor ∈ _, _))

theorem Generated.emitted_eq {table : Table Action} {alphabet : Alphabet}
    (generated : Generated table alphabet usual requests registry)
    (succeed : SucceedAlone table alphabet requests)
    (isCategory : category = .functions ∨ category = .types)
    (tagged : category = .types → ∀ request ∈ requests,
      ∀ cursor ∈ (Cursor.root request.document.tree).walk, table.Tagged alphabet cursor) :
    registry.emitted.get category = firstOfEachName (parts table alphabet category requests) := by
  induction generated with
  | nothing => cases category <;> rfl
  | @more requests request before after claimed earlier returns ih =>
      have mem_last : request ∈ requests ++ [request] := by simp
      have ofEarlier : ∀ other ∈ requests, other ∈ requests ++ [request] :=
        fun other member => List.mem_append_left _ member
      have known := ih (fun other member => succeed other (ofEarlier other member))
        (fun isTypes other member => tagged isTypes other (ofEarlier other member))
      have consistent : (before.beginHeader request.header).Consistent :=
        earlier.pass.consistent.of_step (.header request.header)
      have processed := Table.emitted_processNodes isCategory
        (fun isTypes => tagged isTypes request mem_last) (processNodes_of_generate returns)
        (succeed request mem_last) consistent known
      rw [processed, parts, parts, List.flatMap_append, List.flatMap_singleton]
      rfl

/-- A session that does not fail is the merge of its parts, the first of each name: its functions are those
that each walked node, offered alone to the empty registry under the same header, would declare, in the
order of the walks over the documents, without those whose names come earlier; and so are its types, if
every claimed struct or union has a tag or is named by a type definition. -/
theorem Generated.first_of_parts (generated : Generated Rules.table Rules.alphabet usual requests registry)
    (succeed : SucceedAlone Rules.table Rules.alphabet requests) :
    registry.emitted.functions
        = firstOfEachName (parts Rules.table Rules.alphabet .functions requests) ∧
      ((∀ request ∈ requests, ∀ cursor ∈ (Cursor.root request.document.tree).walk,
          (Rules.table.claim? Rules.alphabet cursor).isSome = true →
          cursor.kind ∈ ["struct_specifier", "union_specifier"] →
          cursor.focus.hasName = true ∨ cursor.underTypedef = true) →
        registry.emitted.types
          = firstOfEachName (parts Rules.table Rules.alphabet .types requests)) := by
  constructor
  · exact generated.emitted_eq succeed (Or.inl rfl) (by rintro ⟨⟩)
  · intro named
    apply generated.emitted_eq succeed (Or.inr rfl)
    intro _ request isRequest cursor walked isRecord
    obtain ⟨claim, claimed, isAction⟩ := Option.bind_eq_some_iff.mp isRecord
    apply named request isRequest cursor walked
    · rw [claimed]
      rfl
    · obtain ⟨_, isNamed, _, shape, isShape, isPattern, sameAction⟩ := Rules.claim_of_claim? claimed
      have onlyRecords : ∀ shape ∈ Rules.shapeList, shape.2 = .declareRecord →
          shape.1.head.kinds = ["struct_specifier", "union_specifier"] := by
        decide
      rw [isAction] at sameAction
      rw [isPattern, onlyRecords shape isShape (Option.some.inj sameAction).symm] at isNamed
      exact isNamed

/-- A name for a type, and a function that uses it. -/
def aliasThenFunction : Document where
  bytes := "typedef int A;\nint f(A x);".toUTF8.toList
  tree := .node ⟨"translation_unit", 0, 26, none⟩ [
    .node ⟨"type_definition", 0, 14, none⟩ [
      .node ⟨"primitive_type", 8, 11, some "type"⟩ [],
      .node ⟨"type_identifier", 12, 13, some "declarator"⟩ []],
    .node ⟨"declaration", 15, 26, none⟩ [
      .node ⟨"primitive_type", 15, 18, some "type"⟩ [],
      .node ⟨"function_declarator", 19, 25, some "declarator"⟩ [
        .node ⟨"identifier", 19, 20, some "declarator"⟩ [],
        .node ⟨"parameter_list", 20, 25, some "parameters"⟩ [
          .node ⟨"parameter_declaration", 21, 24, none⟩ [
            .node ⟨"type_identifier", 21, 22, some "type"⟩ [],
            .node ⟨"identifier", 23, 24, some "declarator"⟩ []]]]]]
  hasError := false

/-- The same function with other parameters, the same name for another type, and a name for that name. -/
def functionThenAliases : Document where
  bytes := "int f(void);\ntypedef long A;\ntypedef A B;".toUTF8.toList
  tree := .node ⟨"translation_unit", 0, 41, none⟩ [
    .node ⟨"declaration", 0, 12, none⟩ [
      .node ⟨"primitive_type", 0, 3, some "type"⟩ [],
      .node ⟨"function_declarator", 4, 11, some "declarator"⟩ [
        .node ⟨"identifier", 4, 5, some "declarator"⟩ [],
        .node ⟨"parameter_list", 5, 11, some "parameters"⟩ [
          .node ⟨"parameter_declaration", 6, 10, none⟩ [
            .node ⟨"primitive_type", 6, 10, some "type"⟩ []]]]],
    .node ⟨"type_definition", 13, 28, none⟩ [
      .node ⟨"sized_type_specifier", 21, 25, some "type"⟩ [],
      .node ⟨"type_identifier", 26, 27, some "declarator"⟩ []],
    .node ⟨"type_definition", 29, 41, none⟩ [
      .node ⟨"type_identifier", 37, 38, some "type"⟩ [],
      .node ⟨"type_identifier", 39, 40, some "declarator"⟩ []]]
  hasError := false

/-- Of the function and of the type that both headers declare, the first header's stay. -/
theorem Generated.first_of_parts_overlapping : ∃ registry,
    let requests : List Request := [⟨"", "a.h", aliasThenFunction⟩, ⟨"", "b.h", functionThenAliases⟩]
    Generated Rules.table Rules.alphabet .c requests registry ∧
    (parts Rules.table Rules.alphabet .types requests).map Declaration.name = ["A", "A", "B"] ∧
    registry.emitted.types = firstOfEachName (parts Rules.table Rules.alphabet .types requests) ∧
    registry.emitted.functions
      = firstOfEachName (parts Rules.table Rules.alphabet .functions requests) ∧
    registry.emitted.types.map Declaration.name = ["A", "B"] := by
  have first : (Generation.generate (m := Run) Rules.table Rules.alphabet Generation.runDefault .c ""
      "a.h" aliasThenFunction).Returns .empty 2
      ⟨"a.h", ["a.h"], ⟨[], ["A"], [], ["f"]⟩,
        ⟨[], [.typeAlias ⟨"A", .named "ctypes.c_int", "a.h", false⟩], [],
          [.function ⟨"f", "f", "a.h", some (.named "ctypes.c_int"), [⟨"x", .named "A"⟩]⟩]⟩,
        ["A"], []⟩ := by
    rw [Rules.table_eq, Rules.alphabet_eq]
    decide +kernel
  have second : (Generation.generate (m := Run) Rules.table Rules.alphabet Generation.runDefault .c ""
      "b.h" functionThenAliases).Returns
      ⟨"a.h", ["a.h"], ⟨[], ["A"], [], ["f"]⟩,
        ⟨[], [.typeAlias ⟨"A", .named "ctypes.c_int", "a.h", false⟩], [],
          [.function ⟨"f", "f", "a.h", some (.named "ctypes.c_int"), [⟨"x", .named "A"⟩]⟩]⟩,
        ["A"], []⟩ 3
      ⟨"b.h", ["a.h", "b.h"], ⟨[], ["A", "B"], [], ["f"]⟩,
        ⟨[], [.typeAlias ⟨"A", .named "ctypes.c_int", "a.h", false⟩,
            .typeAlias ⟨"B", .named "A", "b.h", false⟩], [],
          [.function ⟨"f", "f", "a.h", some (.named "ctypes.c_int"), [⟨"x", .named "A"⟩]⟩]⟩,
        ["A"], []⟩ := by
    rw [Rules.table_eq, Rules.alphabet_eq]
    decide +kernel
  have generated : Generated Rules.table Rules.alphabet .c
      ([⟨"", "a.h", aliasThenFunction⟩] ++ [⟨"", "b.h", functionThenAliases⟩]) _ :=
    .more (.more .nothing first) second
  have succeed : SucceedAlone Rules.table Rules.alphabet
      [⟨"", "a.h", aliasThenFunction⟩, ⟨"", "b.h", functionThenAliases⟩] := by
    rw [Rules.table_eq, Rules.alphabet_eq]
    decide +kernel
  obtain ⟨functions, types⟩ := generated.first_of_parts succeed
  refine ⟨_, generated, ?_, types ?_, functions, rfl⟩
  · rw [Rules.table_eq, Rules.alphabet_eq]
    decide +kernel
  · rw [Rules.table_eq, Rules.alphabet_eq]
    decide +kernel

end Session

end HeaderBindings
