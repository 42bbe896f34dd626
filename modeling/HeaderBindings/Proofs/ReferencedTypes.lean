/-
Module: HeaderBindings.Proofs.ReferencedTypes
Purpose: The noted types of a session are those that its declarations use, each once, in the order in which
  the declarations were made; the undeclared ones among them are those that no declaration bears.
Main exports: Declaration.usedTypes, Table.emissions, Registry.Chronicled, Offer.Pass.chronicled,
  Session.Offered, Session.Offered.references_exact
-/
import HeaderBindings.Proofs.SessionMerge

namespace HeaderBindings

open Run Spelling

/-! ### Names in order of first use -/

theorem nodup_eraseDups (names : List String) : names.eraseDups.Nodup := by
  cases names with
  | nil => simp
  | cons first rest =>
      rw [List.eraseDups_cons, List.nodup_cons]
      refine ⟨?_, nodup_eraseDups (rest.filter fun name => !name == first)⟩
      simp [List.mem_eraseDups]
termination_by names.length
decreasing_by exact Nat.lt_succ_of_le (List.length_filter_le _ _)

/-- Noting names goes on with the order of first use. -/
theorem Registry.referenced_referAll {registry : Registry} {used : List String} (names : List String)
    (referenced : registry.referenced = used.eraseDups) :
    (registry.referAll names).referenced = (used ++ names).eraseDups := by
  unfold Registry.referAll
  induction names generalizing registry used with
  | nil => simpa using referenced
  | cons first rest ih =>
      have noted : (registry.refer first).referenced = (used ++ [first]).eraseDups := by
        rw [List.eraseDups_append, ← referenced, Registry.refer]
        by_cases known : first ∈ used
        · have isReferenced : first ∈ registry.referenced := by
            rwa [referenced, List.mem_eraseDups]
          simp [isReferenced, known, List.removeAll]
        · have notReferenced : first ∉ registry.referenced := by
            rwa [referenced, List.mem_eraseDups]
          simp [notReferenced, known, List.removeAll, List.eraseDups_cons]
      rw [List.foldl_cons, ih noted, List.append_assoc, List.singleton_append]

/-! ### Types that declarations use -/

namespace Declaration

/-- The types that a declaration uses: the target of an alias that is not opaque, the types of fields, the
type of the result and of parameters. -/
def usedTypes : Declaration → List TypeExpr
  | typeAlias a => if a.isOpaque then [] else [a.target]
  | record r => r.fields.map (·.type)
  | function f => f.returnType.toList ++ f.parameters.map (·.type)
  | constant _ | enumeration _ => []

/-- The names inside all pointers of the types that a declaration uses, without those that are empty or
bound without any declaration. -/
def usedNames (declaration : Declaration) : List String :=
  declaration.usedTypes.filterMap TypeExpr.reference?

theorem mem_usedNames {declaration : Declaration} {name : String} :
    name ∈ declaration.usedNames ↔ ∃ type ∈ declaration.usedTypes, type.baseName = name ∧
      name ≠ "" ∧ name ≠ "None" ∧ name.startsWith "ctypes." = false := by
  simp only [usedNames, List.mem_filterMap, TypeExpr.reference?_eq_some_iff]

/-- What is left out of an opaque alias would use no declared type. -/
theorem usedNames_eq_references {declaration : Declaration}
    (opaqueTarget : ∀ typeAlias, declaration = .typeAlias typeAlias → typeAlias.isOpaque = true →
      typeAlias.target = HeaderBindings.opaqueTarget) :
    declaration.usedNames = declaration.references := by
  cases declaration with
  | typeAlias a =>
      rw [references_typeAlias, usedNames, usedTypes]
      split
      · rename_i isOpaque
        rw [opaqueTarget a rfl isOpaque, reference?_opaqueTarget]
        rfl
      · cases used : a.target.reference? <;> simp [used]
  | record | function | constant | enumeration => rfl

end Declaration

/-! ### What offers emit -/

/-- What each category has further after than before, category by category. -/
def Registry.since (before after : Registry) : List Declaration :=
  Category.all.flatMap fun category =>
    (after.emitted.get category).drop (before.emitted.get category).length

namespace Table

variable (table : Table Action) (alphabet : Alphabet)

/-- The registry that an offer leaves. -/
def afterOffer (registry : Registry) : Offer → Registry
  | .header name => registry.beginHeader name
  | .node bytes cursor =>
      ((ExceptT.run (table.dispatch alphabet bytes Generation.runDefault cursor)).run registry).2

/-- The declarations that offers make, one offer after another. -/
def emissions : Registry → List Offer → List Declaration
  | _, [] => []
  | registry, offer :: rest =>
      registry.since (table.afterOffer alphabet registry offer)
        ++ emissions (table.afterOffer alphabet registry offer) rest

end Table

namespace Registry

variable {before after registry : Registry} {history : List Declaration} {declaration : Declaration}

theorem since_of_emitted_eq (same : after.emitted = before.emitted) : before.since after = [] := by
  simp [since, same]

theorem since_takeIn (registry : Registry) (declaration : Declaration) :
    registry.since (registry.takeIn declaration) = [declaration] := by
  unfold since Category.all
  rw [emitted_takeIn]
  cases declaration <;> simp [Declaration.category, ByCategory.modify, ByCategory.get]

/-- A registry holds what was declared in some order: each category has the declarations that belong to it,
and the noted types are those that the declarations use, in order of first use. -/
structure Chronicled (registry : Registry) (history : List Declaration) : Prop where
  emitted : ∀ category, registry.emitted.get category
    = history.filter fun declaration => declaration.category = category
  referenced : registry.referenced = (history.flatMap Declaration.usedNames).eraseDups

theorem chronicled_empty : empty.Chronicled [] where
  emitted category := by cases category <;> rfl
  referenced := rfl

theorem Chronicled.of_same (chronicled : before.Chronicled history)
    (sameEmitted : after.emitted = before.emitted)
    (sameReferenced : after.referenced = before.referenced) : after.Chronicled history where
  emitted category := by rw [sameEmitted, chronicled.emitted]
  referenced := by rw [sameReferenced, chronicled.referenced]

/-- A declaration that is taken in comes after all others. -/
theorem Chronicled.takeIn (chronicled : registry.Chronicled history) (admits : registry.Admits declaration) :
    (registry.takeIn declaration).Chronicled (history ++ [declaration]) where
  emitted category := by
    rw [emitted_takeIn, List.filter_append, ← chronicled.emitted]
    by_cases same : category = declaration.category
    · subst same
      simp
    · rw [ByCategory.get_modify_of_ne _ _ same]
      have other : declaration.category ≠ category := fun eq => same eq.symm
      simp [other]
  referenced := by
    rw [List.flatMap_append, List.flatMap_singleton, Declaration.usedNames_eq_references admits.opaqueTarget]
    apply referenced_referAll
    rw [reserveAll_eq]
    exact chronicled.referenced

theorem Chronicled.takesInOne (chronicled : before.Chronicled history) (one : TakesInOne before after) :
    after.Chronicled (history ++ before.since after) := by
  rcases one with rfl | ⟨declaration, admits, rfl⟩
  · rwa [since_of_emitted_eq rfl, List.append_nil]
  · rw [since_takeIn]
    exact chronicled.takeIn admits

/-- What an action does when it returns is chronicled. -/
theorem Chronicled.acts {action : Option Action} {cursor : Cursor} {step : Run Unit} {value : Unit}
    (chronicled : before.Chronicled history) (acts : Acts action cursor step)
    (returns : step.Returns before value after) :
    after.Chronicled (history ++ before.since after) := by
  cases acts with
  | idle returns_iff => exact chronicled.takesInOne (Or.inl (returns_iff.mp returns))
  | fails never => exact absurd returns never
  | given _ _ declares => exact chronicled.takesInOne (declares.takesInOne returns)
  | madeUp _ _ _ returns_iff declares =>
      obtain ⟨name, between, made, emitted⟩ := returns_iff.mp returns
      obtain ⟨_, declaresName⟩ := declares name
      -- A name that is made up is counted, and nothing else changes before the declaration is taken in.
      have frame := uniqueName_frame made
      have named : between.Chronicled history :=
        chronicled.of_same (by rw [frame]) (by rw [frame])
      have sameSince : before.since after = between.since after := by
        rw [since, since, emitted_uniqueName made]
      rw [sameSince]
      exact named.takesInOne (declaresName.takesInOne emitted)

end Registry

variable {table : Table Action} {alphabet : Alphabet} {before after : Registry}

/-- Offers add what they emit to what is chronicled. -/
theorem Offer.Pass.chronicled {offers : List Offer} {history : List Declaration}
    (pass : Offer.Pass table alphabet before offers after) (chronicled : before.Chronicled history) :
    after.Chronicled (history ++ table.emissions alphabet before offers) := by
  induction pass generalizing history with
  | done => rwa [Table.emissions, List.append_nil]
  | @header before _ name _ _ ih =>
      rw [Table.emissions, ← List.append_assoc]
      apply ih
      have unchanged : before.since (before.beginHeader name) = [] :=
        Registry.since_of_emitted_eq rfl
      rw [Table.afterOffer, unchanged, List.append_nil]
      exact chronicled.of_same rfl rfl
  | @node before between _ bytes cursor _ _ returns _ ih =>
      have isNext : table.afterOffer alphabet before (.node bytes cursor) = between := by
        rw [Table.afterOffer, returns]
      rw [Table.emissions, isNext, ← List.append_assoc]
      obtain ⟨_, acts, returns_iff⟩ := table.exists_acts_dispatch alphabet bytes cursor
      exact ih (chronicled.acts acts (returns_iff.mp returns).2)

/-! ### Sessions -/

namespace Session

/-- The registries that a session comes to from the empty one, with all that it offered: it generates from
documents, offers a node and all nodes below it, or offers a single node, and no step fails. -/
inductive Offered (table : Table Action) (alphabet : Alphabet) : List Offer → Registry → Prop where
  | nothing : Offered table alphabet [] .empty
  | generated {offers : List Offer} {before after : Registry} {usual : Mode} {claimed : Nat}
      (request : Request) (earlier : Offered table alphabet offers before)
      (returns : (Generation.generate (m := Run) table alphabet Generation.runDefault usual
        request.asked request.header request.document).Returns before claimed after) :
      Offered table alphabet (offers ++ request.offers) after
  | processed {offers : List Offer} {before after : Registry} {bytes : List UInt8} {cursor : Cursor}
      {claimed : Nat} (earlier : Offered table alphabet offers before)
      (returns : (table.processNodes alphabet bytes Generation.runDefault 0 cursor.walk).Returns
        before claimed after) :
      Offered table alphabet (offers ++ cursor.walk.map (.node bytes)) after
  | dispatched {offers : List Offer} {before after : Registry} {bytes : List UInt8} {cursor : Cursor}
      {captures : Option (List Capture)} (earlier : Offered table alphabet offers before)
      (returns : (table.dispatch alphabet bytes Generation.runDefault cursor).Returns
        before captures after) :
      Offered table alphabet (offers ++ [.node bytes cursor]) after

/-- Every registry that a session comes to, it comes to by some offers. -/
theorem Reached.exists_offered {registry : Registry} (reached : Reached table alphabet registry) :
    ∃ offers, Offered table alphabet offers registry := by
  induction reached with
  | empty => exact ⟨_, .nothing⟩
  | @generated _ _ _ asked header document _ _ returns ih =>
      obtain ⟨_, earlier⟩ := ih
      exact ⟨_, .generated ⟨asked, header, document⟩ earlier returns⟩
  | processed _ returns ih =>
      obtain ⟨_, earlier⟩ := ih
      exact ⟨_, .processed earlier returns⟩
  | dispatched _ returns ih =>
      obtain ⟨_, earlier⟩ := ih
      exact ⟨_, .dispatched earlier returns⟩

theorem Offered.pass {offers : List Offer} {registry : Registry}
    (offered : Offered table alphabet offers registry) :
    Offer.Pass table alphabet .empty offers registry := by
  induction offered with
  | nothing => exact .done
  | generated _ _ returns ih =>
      exact ih.append (.header (Table.pass_processNodes (processNodes_of_generate returns)))
  | processed _ returns ih => exact ih.append (Table.pass_processNodes returns)
  | dispatched _ returns ih => exact ih.append (.node returns .done)

end Session

/-- The undeclared types are the noted ones that no declared type and no enumeration bears as its name. -/
theorem Registry.Consistent.undeclaredTypes_eq {registry : Registry} (consistent : registry.Consistent) :
    registry.undeclaredTypes = registry.referenced.filter fun name =>
      ∀ declaration ∈ registry.emitted.types ++ registry.emitted.enumerations,
        declaration.name ≠ name := by
  unfold Registry.undeclaredTypes
  apply List.filter_congr
  intro name _
  have types : registry.isDeclared .types name = true ↔
      name ∈ (registry.emitted.get .types).map Declaration.name :=
    consistent.isDeclared_iff (by decide)
  have enumerations : registry.isDeclared .enumerations name = true ↔
      name ∈ (registry.emitted.get .enumerations).map Declaration.name :=
    consistent.isDeclared_iff (by decide)
  rw [Bool.eq_iff_iff, Bool.and_eq_true, Bool.not_eq_true', Bool.not_eq_true', Bool.eq_false_iff, ne_eq,
    types, Bool.eq_false_iff, ne_eq, enumerations]
  simp only [List.mem_map, not_exists, not_and, ByCategory.get, List.mem_append, decide_eq_true_eq]
  constructor
  · rintro ⟨noType, noEnumeration⟩ declaration (isType | isEnumeration)
    · exact noType declaration isType
    · exact noEnumeration declaration isEnumeration
  · intro noDeclaration
    exact ⟨fun declaration isType => noDeclaration declaration (Or.inl isType),
      fun declaration isEnumeration => noDeclaration declaration (Or.inr isEnumeration)⟩

namespace Session

/-- The noted types of a session are exact. With the declarations that it emitted, in the order in which it
did: they are what each category holds; the noted types are different; they are the names inside all
pointers of the types that declarations use, without those that are empty or bound without any declaration;
they stand in order of first use; and the undeclared ones are those that no declared type and no enumeration
bears as its name, in the same order. -/
theorem Offered.references_exact {offers : List Offer} {registry : Registry}
    (offered : Offered table alphabet offers registry) :
    let emitted := table.emissions alphabet .empty offers
    (∀ category, registry.emitted.get category
      = emitted.filter fun declaration => declaration.category = category) ∧
    registry.referenced.Nodup ∧
    (∀ name, name ∈ registry.referenced ↔
      ∃ category, ∃ declaration ∈ registry.emitted.get category, ∃ type ∈ declaration.usedTypes,
        type.baseName = name ∧ name ≠ "" ∧ name ≠ "None" ∧ name.startsWith "ctypes." = false) ∧
    registry.referenced = (emitted.flatMap Declaration.usedNames).eraseDups ∧
    registry.undeclaredTypes = registry.referenced.filter fun name =>
      ∀ declaration ∈ registry.emitted.types ++ registry.emitted.enumerations,
        declaration.name ≠ name := by
  intro emitted
  have chronicled : registry.Chronicled emitted := offered.pass.chronicled Registry.chronicled_empty
  refine ⟨chronicled.emitted, ?_, ?_, chronicled.referenced, ?_⟩
  · rw [chronicled.referenced]
    exact nodup_eraseDups _
  · intro name
    rw [chronicled.referenced, List.mem_eraseDups, List.mem_flatMap]
    constructor
    · rintro ⟨declaration, isEmitted, used⟩
      refine ⟨declaration.category, declaration, ?_, Declaration.mem_usedNames.mp used⟩
      rw [chronicled.emitted, List.mem_filter]
      exact ⟨isEmitted, by simp⟩
    · rintro ⟨category, declaration, isHeld, used⟩
      rw [chronicled.emitted, List.mem_filter] at isHeld
      exact ⟨declaration, isHeld.1, Declaration.mem_usedNames.mpr used⟩
  · exact offered.pass.consistent.undeclaredTypes_eq

/-- An opaque alias, an alias, another one of the same name, and a function of three parameters. -/
def aliasesThenFunction : Document where
  bytes := "typedef struct X X;\ntypedef U **A;\ntypedef V A;\nvoid f(X *x, W w, W *p);".toUTF8.toList
  tree := .node ⟨"translation_unit", 0, 72, none⟩ [
    .node ⟨"type_definition", 0, 19, none⟩ [
      .node ⟨"struct_specifier", 8, 16, some "type"⟩ [
        .node ⟨"type_identifier", 15, 16, some "name"⟩ []],
      .node ⟨"type_identifier", 17, 18, some "declarator"⟩ []],
    .node ⟨"type_definition", 20, 34, none⟩ [
      .node ⟨"type_identifier", 28, 29, some "type"⟩ [],
      .node ⟨"pointer_declarator", 30, 33, some "declarator"⟩ [
        .node ⟨"pointer_declarator", 31, 33, some "declarator"⟩ [
          .node ⟨"type_identifier", 32, 33, some "declarator"⟩ []]]],
    .node ⟨"type_definition", 35, 47, none⟩ [
      .node ⟨"type_identifier", 43, 44, some "type"⟩ [],
      .node ⟨"type_identifier", 45, 46, some "declarator"⟩ []],
    .node ⟨"declaration", 48, 72, none⟩ [
      .node ⟨"primitive_type", 48, 52, some "type"⟩ [],
      .node ⟨"function_declarator", 53, 71, some "declarator"⟩ [
        .node ⟨"identifier", 53, 54, some "declarator"⟩ [],
        .node ⟨"parameter_list", 54, 71, some "parameters"⟩ [
          .node ⟨"parameter_declaration", 55, 59, none⟩ [
            .node ⟨"type_identifier", 55, 56, some "type"⟩ [],
            .node ⟨"pointer_declarator", 57, 59, some "declarator"⟩ [
              .node ⟨"identifier", 58, 59, some "declarator"⟩ []]],
          .node ⟨"parameter_declaration", 61, 64, none⟩ [
            .node ⟨"type_identifier", 61, 62, some "type"⟩ [],
            .node ⟨"identifier", 63, 64, some "declarator"⟩ []],
          .node ⟨"parameter_declaration", 66, 70, none⟩ [
            .node ⟨"type_identifier", 66, 67, some "type"⟩ [],
            .node ⟨"pointer_declarator", 68, 70, some "declarator"⟩ [
              .node ⟨"identifier", 69, 70, some "declarator"⟩ []]]]]]]
  hasError := false

/-- Neither the contents of the opaque alias nor the target of the later alias are noted, and the type of two
parameters is noted once. -/
theorem Offered.references_exact_aliasesThenFunction : ∃ offers registry,
    Offered Rules.table Rules.alphabet offers registry ∧
    registry.referenced
      = ((Rules.table.emissions Rules.alphabet .empty offers).flatMap Declaration.usedNames).eraseDups ∧
    registry.referenced = ["U", "X", "W"] ∧ registry.undeclaredTypes = ["U", "W"] := by
  have returns : (Generation.generate (m := Run) Rules.table Rules.alphabet Generation.runDefault .c ""
      "t.h" aliasesThenFunction).Returns .empty 4
      ⟨"t.h", ["t.h"], ⟨[], ["X", "A"], [], ["f"]⟩,
        ⟨[], [.typeAlias ⟨"X", opaqueTarget, "t.h", true⟩,
            .typeAlias ⟨"A", .pointer (.pointer (.named "U")), "t.h", false⟩], [],
          [.function ⟨"f", "f", "t.h", none, [⟨"x", .pointer (.named "X")⟩, ⟨"w", .named "W"⟩,
            ⟨"p", .pointer (.named "W")⟩]⟩]⟩,
        ["U", "X", "W"], []⟩ := by
    rw [Rules.table_eq, Rules.alphabet_eq]
    decide +kernel
  have offered := Offered.generated ⟨"", "t.h", aliasesThenFunction⟩ .nothing returns
  obtain ⟨_, _, _, inOrder, _⟩ := offered.references_exact
  exact ⟨_, _, offered, inOrder, rfl, by decide⟩

end Session

end HeaderBindings
