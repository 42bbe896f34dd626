/-
Module: HeaderBindings.Proofs.DefaultGrammar
Purpose: The default grammar as patterns, and that its table claims nodes by them alone.
Main exports: Table.Filed, Rules.shapeList, Rules.shapes_eq, Rules.build_eq, Rules.table_eq,
  Rules.alphabet_eq, Rules.table_entries, Rules.table_filed, Rules.claim_of_claim?
-/
import Mathlib.Data.List.Forall2
import HeaderBindings.Proofs.Compilation
import HeaderBindings.Rules

namespace HeaderBindings

theorem exists_related_of_mem {α β : Type} {related : α → β → Prop} {xs : List α} {ys : List β}
    (paired : List.Forall₂ related xs ys) {x : α} (member : x ∈ xs) : ∃ y ∈ ys, related x y := by
  induction paired with
  | nil => cases member
  | @cons first other rest others isPair _ ih =>
      rcases List.mem_cons.mp member with rfl | later
      · exact ⟨other, List.mem_cons_self, isPair⟩
      · obtain ⟨y, isOther, isRelated⟩ := ih later
        exact ⟨y, List.mem_cons_of_mem _ isOther, isRelated⟩

/-! ### Tables

A kind's bucket holds the entries that name the kind, in order of registration. -/

namespace Table

variable {Action : Type}

theorem lookup_putInBucket (entry : Entry Action) (kind other : String)
    (buckets : List (String × List (Entry Action))) :
    ((putInBucket entry kind buckets).lookup other).getD []
      = (buckets.lookup other).getD [] ++ if other == kind then [entry] else [] := by
  induction buckets with
  | nil =>
      by_cases same : other = kind
      · simp [putInBucket, same]
      · have differs : (other == kind) = false := by simpa using same
        simp [putInBucket, List.lookup_cons, differs]
  | cons bucket rest ih =>
      obtain ⟨named, entries⟩ := bucket
      unfold putInBucket
      by_cases here : named = kind
      · subst here
        by_cases same : other = named
        · simp [same]
        · have differs : (other == named) = false := by simpa using same
          simp [List.lookup_cons, differs]
      · have skip : (named == kind) = false := by simpa using here
        by_cases same : other = named
        · subst same
          simp [skip]
        · have differs : (other == named) = false := by simpa using same
          simpa [skip, List.lookup_cons, differs] using ih

theorem candidates_insert (table : Table Action) (entry : Entry Action) (kind : String) :
    (table.insert entry).candidates kind = table.candidates kind
      ++ List.replicate (entry.matcher.pattern.head.kinds.count kind) entry := by
  unfold candidates insert
  generalize table.buckets = buckets
  induction entry.matcher.pattern.head.kinds generalizing buckets with
  | nil => simp
  | cons first rest ih =>
      rw [List.foldl_cons, ih, lookup_putInBucket, List.append_assoc, List.count_cons]
      by_cases same : kind = first
      · simp [same, List.replicate_succ]
      · have differs : ¬ first = kind := fun equal => same equal.symm
        simp [same, differs]

/-- A closed pattern that names kinds can be registered. -/
theorem register_closed {pattern : Pattern} (closed : pattern.Closed)
    (named : pattern.head.kinds.isEmpty = false) (table : Table Action) (alphabet : Alphabet)
    (action : Option Action) :
    ∃ matcher grown, table.register alphabet pattern action
        = (.ok (table.insert ⟨matcher, action⟩), grown) ∧
      alphabet.Extends grown ∧ matcher.Compiled grown ∧ matcher.pattern = pattern := by
  obtain ⟨matcher, grown, compiles, extends_, compiled, compiledFrom⟩ :=
    Pattern.compile_closed pattern alphabet closed
  refine ⟨matcher, grown, ?_, extends_, compiled, compiledFrom⟩
  simp [register, named, compiles]

theorem entries_foldl_insert (table : Table Action) (added : List (Entry Action)) :
    (added.foldl insert table).entries = table.entries ++ added := by
  induction added generalizing table with
  | nil => simp
  | cons entry rest ih => rw [List.foldl_cons, ih, insert, List.append_assoc, List.singleton_append]

section

variable {table : Table Action}

/-- A table offers for a kind the entries that name it, and no others. -/
def Filed (table : Table Action) : Prop :=
  ∀ kind entry, entry ∈ table.candidates kind ↔
    entry ∈ table.entries ∧ kind ∈ entry.matcher.pattern.head.kinds

theorem filed_empty : (empty : Table Action).Filed := by
  intro kind entry
  simp [candidates, empty]

theorem Filed.insert (filed : table.Filed) (entry : Entry Action) : (table.insert entry).Filed := by
  intro kind other
  rw [candidates_insert, List.mem_append, filed kind other, List.mem_replicate, Table.insert,
    List.mem_append, List.mem_singleton, ← Nat.pos_iff_ne_zero, List.count_pos_iff]
  constructor
  · rintro (⟨known, named⟩ | ⟨named, rfl⟩)
    · exact ⟨Or.inl known, named⟩
    · exact ⟨Or.inr rfl, named⟩
  · rintro ⟨known | rfl, named⟩
    · exact Or.inl ⟨known, named⟩
    · exact Or.inr ⟨named, rfl⟩

theorem Filed.register {alphabet final : Alphabet} {pattern : Pattern} {action : Option Action}
    {full : Table Action} (filed : table.Filed)
    (registered : table.register alphabet pattern action = (.ok full, final)) : full.Filed := by
  unfold Table.register at registered
  split at registered
  · cases registered
  · split at registered
    · cases registered
    · cases registered
      exact filed.insert _

/-- A claim is what the matcher of a candidate finds. -/
theorem candidate_of_claim? {alphabet : Alphabet} {cursor : Cursor} {claim : Claim Action}
    (claimed : table.claim? alphabet cursor = some claim) :
    claim.entry ∈ table.candidates cursor.kind ∧
      claim.entry.matcher.find? alphabet none cursor = some claim.found := by
  obtain ⟨entry, candidate, isFound⟩ := List.exists_of_findSome?_eq_some claimed
  obtain ⟨found, finds, rfl⟩ := Option.map_eq_some_iff.mp isFound
  exact ⟨candidate, finds⟩

end

end Table

namespace Rules

open Pattern

/-! ### The patterns of the default grammar -/

/-- A pattern without children. -/
def leaf (kinds : List String) (quantifier : Quantifier) : Pattern :=
  .node ⟨kinds, quantifier, false⟩ []

/-- A pattern with children of its own. -/
def branch (kinds : List String) (quantifier : Quantifier) (children : List Pattern) : Pattern :=
  .node ⟨kinds, quantifier, false⟩ children

/-- A pattern that borrows the children of the shape around it. -/
def nested (kinds : List String) (quantifier : Quantifier) : Pattern :=
  .node ⟨kinds, quantifier, true⟩ []

section

variable (kinds : List String) (quantifier : Quantifier) (children : List Pattern)

@[simp] theorem leaf_head : (leaf kinds quantifier).head = ⟨kinds, quantifier, false⟩ := rfl

@[simp] theorem branch_head :
    (branch kinds quantifier children).head = ⟨kinds, quantifier, false⟩ := rfl

@[simp] theorem nested_head : (nested kinds quantifier).head = ⟨kinds, quantifier, true⟩ := rfl

@[simp] theorem branch_children : (branch kinds quantifier children).children = children := rfl

end

/-- The ways to spell a type, each at most once. -/
def typeParts : List Pattern :=
  [leaf ["primitive_type", "type_identifier"] .zeroOrOne,
    branch ["sized_type_specifier"] .zeroOrOne [leaf ["primitive_type"] .zeroOrOne],
    branch ["struct_specifier", "union_specifier", "enum_specifier"] .zeroOrOne
      [leaf ["type_identifier"] .one]]

/-- The declarators of a field declaration. -/
def fieldDeclarators : Pattern :=
  branch ["field_identifier", "pointer_declarator", "array_declarator", "bitfield_clause"] .oneOrMore
    [leaf ["type_qualifier"] .zeroOrMore,
      nested ["pointer_declarator", "array_declarator"] .zeroOrOne,
      leaf ["field_identifier"] .zeroOrOne, leaf ["identifier", "number_literal"] .zeroOrOne]

/-- Pointers around a name of some kind. -/
def pointersTo (kind : String) : Pattern :=
  branch ["pointer_declarator"] .zeroOrOne
    [leaf ["type_qualifier"] .zeroOrMore, nested ["pointer_declarator"] .zeroOrOne,
      leaf [kind] .zeroOrOne]

/-- The parameters of a function. -/
def parameterPattern : Pattern :=
  branch ["parameter_declaration"] .zeroOrMore <|
    leaf ["type_qualifier"] .zeroOrMore :: typeParts ++
      [leaf ["type_qualifier"] .zeroOrMore, leaf ["identifier"] .zeroOrOne, pointersTo "identifier"]

/-- A function's name and parameters. -/
def functionDeclarator : Pattern :=
  branch ["function_declarator"] .zeroOrOne
    [leaf ["identifier"] .one, branch ["parameter_list"] .one [parameterPattern]]

/-- A macro with a text. -/
def macroPattern : Pattern :=
  branch ["preproc_def"] .one [leaf ["identifier"] .one, leaf ["preproc_arg"] .one]

/-- A type definition without body. -/
def typedefPattern : Pattern :=
  branch ["type_definition"] .one <|
    leaf ["type_qualifier"] .zeroOrMore :: typeParts ++
      [leaf ["type_identifier"] .zeroOrOne, pointersTo "type_identifier"]

/-- Declarations of fields. -/
def fieldDeclarationPattern : Pattern :=
  branch ["field_declaration"] .oneOrMore <|
    leaf ["type_qualifier"] .zeroOrMore :: typeParts ++ [fieldDeclarators]

/-- A struct or a union with fields. -/
def recordPattern : Pattern :=
  branch ["struct_specifier", "union_specifier"] .one
    [leaf ["type_identifier"] .zeroOrOne,
      branch ["field_declaration_list"] .one [fieldDeclarationPattern]]

/-- Enumerators, each with a name and maybe a value. -/
def enumeratorPattern : Pattern :=
  branch ["enumerator"] .oneOrMore
    [leaf ["identifier"] .one,
      leaf ["number_literal", "char_literal", "identifier", "parenthesized_expression",
        "binary_expression", "unary_expression", "math_expression", "bitwise_expression",
        "shift_expression"] .zeroOrOne]

/-- An enumeration with enumerators. -/
def enumerationPattern : Pattern :=
  branch ["enum_specifier"] .one
    [leaf ["type_identifier"] .zeroOrOne, branch ["enumerator_list"] .one [enumeratorPattern]]

/-- A type definition around the body of a pattern. -/
def typedefAround (pattern : Pattern) : Pattern :=
  branch ["type_definition"] .one [pattern, leaf ["type_identifier"] .one]

/-- A declaration of a function. -/
def functionPattern : Pattern :=
  branch ["declaration"] .one <|
    leaf ["storage_class_specifier"] .zeroOrOne :: leaf ["type_qualifier"] .zeroOrOne :: typeParts ++
      [functionDeclarator,
        branch ["pointer_declarator"] .zeroOrOne
          [nested ["pointer_declarator"] .zeroOrOne, functionDeclarator]]

/-- The claimed shapes and their actions, in order of precedence. -/
def shapeList : List (Pattern × Action) :=
  [(macroPattern, .defineConstant), (typedefPattern, .declareAlias), (recordPattern, .declareRecord),
    (typedefAround recordPattern, .declareTypedefRecord), (enumerationPattern, .declareEnumeration),
    (typedefAround enumerationPattern, .declareTypedefEnumeration),
    (functionPattern, .declareFunction)]

/-! ### Reading the grammar

A text literal is by definition its list of characters; reading goes on from that list. -/

theorem parseFragment_of_characters {text : String} {fragments : Fragments}
    {characters : List Char} {patterns : List Pattern} (spelled : text = String.ofList characters)
    (ascii : characters.find? (·.toNat ≥ 128) = none)
    (read : readSequence fragments [] [] (tokens characters) = .ok patterns) :
    parseFragment text fragments = .ok patterns := by
  have listed : text.toList = characters := by rw [spelled, String.toList_ofList]
  simp only [parseFragment, listed, ascii, read]
  rfl

theorem parse_of_characters {text : String} {fragments : Fragments} {characters : List Char}
    {pattern : Pattern} (spelled : text = String.ofList characters)
    (ascii : characters.find? (·.toNat ≥ 128) = none)
    (read : readSequence fragments [] [] (tokens characters) = .ok [pattern]) :
    parse text fragments = .ok pattern := by
  rw [parse, parseFragment_of_characters spelled ascii read]

theorem bind_ok {ε α β : Type} {step : Except ε α} {value : α} (result : step = .ok value)
    (next : α → Except ε β) : (step >>= next) = next value := by
  rw [result]
  rfl

theorem define_of_parseFragment {text : String} {known : Fragments} {patterns : List Pattern}
    (parsed : parseFragment text known = .ok patterns) (name : String) :
    known.define name text = .ok ((name, patterns) :: known) := by
  rw [Fragments.define, parsed]
  rfl

set_option maxRecDepth 100000 in
theorem fragments_eq : fragments =
    .ok [("func", [functionDeclarator]), ("fields", [fieldDeclarators]), ("type", typeParts)] := by
  have types : parseFragment typeText [] = .ok typeParts :=
    parseFragment_of_characters rfl rfl rfl
  have fields : parseFragment fieldsText [("type", typeParts)] = .ok [fieldDeclarators] :=
    parseFragment_of_characters rfl rfl rfl
  have functions : parseFragment functionDeclaratorText
      [("fields", [fieldDeclarators]), ("type", typeParts)] = .ok [functionDeclarator] :=
    parseFragment_of_characters rfl rfl rfl
  delta fragments fragmentTexts
  rw [List.foldlM_cons, bind_ok (define_of_parseFragment types "type"),
    List.foldlM_cons, bind_ok (define_of_parseFragment fields "fields"),
    List.foldlM_cons, bind_ok (define_of_parseFragment functions "func"), List.foldlM_nil]
  rfl

set_option maxRecDepth 100000 in
/-- The texts of the default grammar spell these patterns. -/
theorem shapes_eq : shapes = .ok shapeList := by
  have macros : parse macroText
      [("func", [functionDeclarator]), ("fields", [fieldDeclarators]), ("type", typeParts)]
      = .ok macroPattern := parse_of_characters rfl rfl rfl
  have typedefs : parse typedefText
      [("func", [functionDeclarator]), ("fields", [fieldDeclarators]), ("type", typeParts)]
      = .ok typedefPattern := parse_of_characters rfl rfl rfl
  have records : parse recordText
      [("func", [functionDeclarator]), ("fields", [fieldDeclarators]), ("type", typeParts)]
      = .ok recordPattern := parse_of_characters rfl rfl rfl
  have enumerations : parse enumerationText
      [("func", [functionDeclarator]), ("fields", [fieldDeclarators]), ("type", typeParts)]
      = .ok enumerationPattern := parse_of_characters rfl rfl rfl
  have functions : parse functionText
      [("func", [functionDeclarator]), ("fields", [fieldDeclarators]), ("type", typeParts)]
      = .ok functionPattern := parse_of_characters rfl rfl rfl
  have typedefsOf : ∀ pattern, typedefOf pattern = .ok (typedefAround pattern) := by
    intro pattern
    have name : parseFragment "(type_identifier)" [] = .ok [leaf ["type_identifier"] .one] :=
      parseFragment_of_characters rfl rfl rfl
    exact bind_ok name _
  refine (bind_ok fragments_eq _).trans ?_
  refine (bind_ok macros _).trans ?_
  refine (bind_ok typedefs _).trans ?_
  refine (bind_ok records _).trans ?_
  refine (bind_ok enumerations _).trans ?_
  refine (bind_ok functions _).trans ?_
  refine (bind_ok (typedefsOf recordPattern) _).trans ?_
  exact bind_ok (typedefsOf enumerationPattern) _

theorem build_eq : build = registerAll .empty .empty shapeList := by
  rw [build, shapes_eq, registerRead]

/-! ### The table -/

theorem closed_of_mem_shapeList : ∀ shape ∈ shapeList, shape.1.Closed := by
  unfold Closed
  decide

/-- An entry is that of a shape: the shape's pattern, compiled against the alphabet, and its action. -/
def IsEntryOf (alphabet : Alphabet) (entry : Entry Action) (shape : Pattern × Action) : Prop :=
  entry.matcher.Compiled alphabet ∧ entry.matcher.pattern = shape.1 ∧ entry.action = some shape.2

/-- The entry of a shape in an alphabet that has its kinds. -/
def entryOf (alphabet : Alphabet) (shape : Pattern × Action) : Entry Action :=
  ⟨shape.1.compiledIn alphabet, some shape.2⟩

theorem IsEntryOf.eq_entryOf {alphabet : Alphabet} {entry : Entry Action}
    {shape : Pattern × Action} (isEntry : IsEntryOf alphabet entry shape) :
    entry = entryOf alphabet shape := by
  obtain ⟨compiled, compiledFrom, acts⟩ := isEntry
  have ofPattern := compiled.eq_compiledIn
  rw [compiledFrom] at ofPattern
  exact congrArg₂ Entry.mk ofPattern acts

/-- Registering shapes inserts one entry for each, in order. -/
theorem registerAll_inserts {shapes : List (Pattern × Action)}
    (closed : ∀ shape ∈ shapes, shape.1.Closed)
    (named : ∀ shape ∈ shapes, shape.1.head.kinds.isEmpty = false) (table : Table Action)
    (alphabet : Alphabet) :
    ∃ final added, registerAll table alphabet shapes = (.ok (added.foldl Table.insert table), final) ∧
      alphabet.Extends final ∧ List.Forall₂ (IsEntryOf final) added shapes := by
  induction shapes generalizing table alphabet with
  | nil => exact ⟨alphabet, [], rfl, .refl alphabet, .nil⟩
  | cons shape rest ih =>
      obtain ⟨pattern, action⟩ := shape
      rw [List.forall_mem_cons] at closed named
      obtain ⟨matcher, grown, registered, extends_, compiled, compiledFrom⟩ :=
        Table.register_closed closed.1 named.1 table alphabet (some action)
      obtain ⟨final, added, all, further, areEntries⟩ :=
        ih closed.2 named.2 (table.insert ⟨matcher, some action⟩) grown
      refine ⟨final, ⟨matcher, some action⟩ :: added, ?_, extends_.trans further,
        .cons ⟨compiled.of_extends further, compiledFrom, rfl⟩ areEntries⟩
      simp only [registerAll, registered, all, List.foldl_cons]

/-- Registering shapes adds one entry for each, in order. -/
theorem registerAll_entries {shapes : List (Pattern × Action)}
    (closed : ∀ shape ∈ shapes, shape.1.Closed)
    (named : ∀ shape ∈ shapes, shape.1.head.kinds.isEmpty = false) (table : Table Action)
    (alphabet : Alphabet) :
    ∃ full final added, registerAll table alphabet shapes = (.ok full, final) ∧
      alphabet.Extends final ∧ full.entries = table.entries ++ added ∧
      List.Forall₂ (IsEntryOf final) added shapes := by
  obtain ⟨final, added, all, extends_, areEntries⟩ := registerAll_inserts closed named table alphabet
  exact ⟨_, final, added, all, extends_, Table.entries_foldl_insert table added, areEntries⟩

theorem filed_of_registerAll {table full : Table Action} {alphabet final : Alphabet}
    {shapes : List (Pattern × Action)} (filed : table.Filed)
    (registered : registerAll table alphabet shapes = (.ok full, final)) : full.Filed := by
  induction shapes generalizing table alphabet with
  | nil =>
      cases registered
      exact filed
  | cons shape rest ih =>
      obtain ⟨pattern, action⟩ := shape
      unfold registerAll at registered
      split at registered
      · cases registered
      · rename_i isFull
        exact ih (filed.register isFull) registered

theorem build_inserts : ∃ added,
    build = (.ok (added.foldl Table.insert .empty), alphabet) ∧
      List.Forall₂ (IsEntryOf alphabet) added shapeList := by
  obtain ⟨final, added, registered, _, areEntries⟩ :=
    registerAll_inserts closed_of_mem_shapeList (by decide) .empty .empty
  obtain rfl : alphabet = final := by rw [alphabet, build_eq, registered, registeredAlphabet]
  exact ⟨added, build_eq.trans registered, areEntries⟩

/-- The table of the default grammar holds its shapes, each compiled against the whole alphabet. -/
theorem table_eq : table = (shapeList.map (entryOf alphabet)).foldl Table.insert .empty := by
  obtain ⟨added, built, areEntries⟩ := build_inserts
  have entries : added = shapeList.map (entryOf alphabet) := by
    rw [← List.forall₂_eq_eq_eq, List.forall₂_map_right_iff]
    exact areEntries.imp fun _ _ isEntry => isEntry.eq_entryOf
  rw [table, built, ← entries]
  rfl

/-- The entries of the default grammar are those of its shapes, in order. -/
theorem table_entries : List.Forall₂ (IsEntryOf alphabet) table.entries shapeList := by
  obtain ⟨added, built, areEntries⟩ := build_inserts
  rw [table, built, registeredTable, Except.toOption, Option.getD_some, Table.entries_foldl_insert]
  exact areEntries

/-- The kinds that the shapes of the default grammar name, in the order in which they name them. -/
def kindList : List String :=
  ["preproc_def", "identifier", "preproc_arg", "type_definition", "type_qualifier", "primitive_type",
    "type_identifier", "sized_type_specifier", "struct_specifier", "union_specifier",
    "enum_specifier", "pointer_declarator", "field_declaration_list", "field_declaration",
    "field_identifier", "array_declarator", "bitfield_clause", "number_literal", "enumerator_list",
    "enumerator", "char_literal", "parenthesized_expression", "binary_expression",
    "unary_expression", "math_expression", "bitwise_expression", "shift_expression", "declaration",
    "storage_class_specifier", "function_declarator", "parameter_list", "parameter_declaration"]

theorem alphabet_eq : alphabet = ⟨kindList⟩ := by
  rw [alphabet, build_eq]
  decide +kernel

theorem table_filed : table.Filed := by
  obtain ⟨full, final, _, registered, _⟩ :=
    registerAll_entries closed_of_mem_shapeList (by decide) .empty .empty
  rw [table, build_eq, registered]
  exact filed_of_registerAll Table.filed_empty registered

/-- Every entry of the default grammar is that of one of its shapes. -/
theorem exists_shape_of_mem_entries {entry : Entry Action} (registered : entry ∈ table.entries) :
    ∃ shape ∈ shapeList, IsEntryOf alphabet entry shape :=
  exists_related_of_mem table_entries registered

/-- A claim of the default grammar comes from a shape that names the kind of the node, with the
shape's action, and is what the shape's matcher finds. -/
theorem claim_of_claim? {cursor : Cursor} {claim : Claim Action}
    (claimed : table.claim? alphabet cursor = some claim) :
    claim.entry.matcher.find? alphabet none cursor = some claim.found ∧
      cursor.kind ∈ claim.entry.matcher.pattern.head.kinds ∧
      claim.entry.matcher.Compiled alphabet ∧
      ∃ shape ∈ shapeList, claim.entry.matcher.pattern = shape.1 ∧
        claim.entry.action = some shape.2 := by
  obtain ⟨candidate, isFound⟩ := Table.candidate_of_claim? claimed
  obtain ⟨known, named⟩ := (table_filed cursor.kind claim.entry).mp candidate
  obtain ⟨shape, isShape, compiled, compiledFrom, action⟩ := exists_shape_of_mem_entries known
  exact ⟨isFound, named, compiled, shape, isShape, compiledFrom, action⟩

end Rules

end HeaderBindings
