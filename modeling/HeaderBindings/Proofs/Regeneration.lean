/-
Module: HeaderBindings.Proofs.Regeneration
Purpose: Generating from a document a second time, at any later point of the same header, changes
  nothing.
Main exports: Registry.Keeps, Acts.again, Table.processNodes_again, Generation.generate_again
-/
import HeaderBindings.Proofs.Sessions

namespace HeaderBindings

open Run

/-! ### What a second time needs of the first

A second time finds the names reserved and the made-up names remembered. -/

namespace Registry

/-- A later registry has the headers of an earlier one, and still holds all that is reserved and
remembered in it. -/
structure Keeps (before after : Registry) : Prop where
  currentHeader : after.currentHeader = before.currentHeader
  headers : after.headers = before.headers
  declared : ∀ category name, before.isDeclared category name = true →
    after.isDeclared category name = true
  remembered : ∀ key name, before.anonymous.lookup key = some name →
    after.anonymous.lookup key = some name

namespace Keeps

variable {before between after : Registry}

theorem refl (registry : Registry) : Keeps registry registry :=
  ⟨rfl, rfl, fun _ _ => id, fun _ _ => id⟩

theorem trans (first : Keeps before between) (second : Keeps between after) : Keeps before after where
  currentHeader := second.currentHeader.trans first.currentHeader
  headers := second.headers.trans first.headers
  declared category name reserved := second.declared category name (first.declared category name reserved)
  remembered key name found := second.remembered key name (first.remembered key name found)

theorem takeIn (registry : Registry) (declaration : Declaration) :
    Keeps registry (registry.takeIn declaration) where
  currentHeader := by rw [takeIn_eq]
  headers := by rw [takeIn_eq]
  declared category name reserved := by
    unfold isDeclared at reserved ⊢
    rw [declared_takeIn]
    rw [List.contains_iff_mem] at reserved ⊢
    exact List.mem_append_left _ reserved
  remembered key name found := by rwa [takeIn_eq]

theorem of_takesInOne (one : TakesInOne before after) : Keeps before after := by
  rcases one with rfl | ⟨declaration, _, rfl⟩
  · exact .refl _
  · exact .takeIn _ _

end Keeps

theorem isDeclared_takeIn_self (registry : Registry) (declaration : Declaration) :
    (registry.takeIn declaration).isDeclared declaration.category declaration.name = true := by
  unfold isDeclared
  rw [declared_takeIn, List.contains_iff_mem]
  exact List.mem_append_right _ (Declaration.mem_takes.mpr (Or.inl ⟨rfl, rfl⟩))

/-- A name that was made up once is found again. -/
theorem uniqueName_again {before between : Registry} {category : Category} {stem name : String}
    {key : List Int} (made : (name, between) = before.uniqueName category stem (some key)) :
    before.Keeps between ∧
      ∀ later, between.Keeps later → (name, later) = later.uniqueName category stem (some key) := by
  -- A remembered name is found by its key, under the same header.
  have again : ∀ later : Registry, later.currentHeader = before.currentHeader →
      later.anonymous.lookup ⟨category, stem, before.currentHeader, key⟩ = some name →
      (name, later) = later.uniqueName category stem (some key) := by
    intro later sameHeader found
    rw [uniqueName, nameFor, sameHeader, found]
  rcases uniqueName_cases made with ⟨isFound, rfl⟩ | ⟨unknown, _, isBetween⟩
  · exact ⟨.refl _, fun later keeps => again later keeps.currentHeader (keeps.remembered _ _ isFound)⟩
  · have sameHeader : between.currentHeader = before.currentHeader := by rw [isBetween]
    have remembered : ∀ other found, before.anonymous.lookup other = some found →
        between.anonymous.lookup other = some found := by
      intro other found isFound
      rw [isBetween, List.lookup_append, isFound]
      rfl
    have own : between.anonymous.lookup ⟨category, stem, before.currentHeader, key⟩ = some name := by
      rw [isBetween, List.lookup_append, unknown]
      simp
    refine ⟨⟨sameHeader, by rw [isBetween], ?_, remembered⟩, fun later keeps =>
      again later (keeps.currentHeader.trans sameHeader) (keeps.remembered _ _ own)⟩
    intro other _ reserved
    rw [isBetween]
    exact reserved

end Registry

/-! ### Actions -/

variable {before after later : Registry} {value : Unit}

theorem Run.DeclaresUnder.again {category : Category} {name : String} {made : Registry → Declaration}
    {step : Run Unit} (declares : DeclaresUnder category name made step)
    (returns : step.Returns before value after) (keeps : after.Keeps later) :
    step.Returns later value later := by
  apply declares.blocked
  rcases declares.takesIn returns with ⟨unnamed | reserved, rfl⟩ | ⟨_, rfl⟩
  · exact Or.inl unnamed
  · exact Or.inr (keeps.declared _ _ reserved)
  · have own := before.isDeclared_takeIn_self (made before)
    rw [declares.isCategory, declares.isName] at own
    exact Or.inr (keeps.declared _ _ own)

theorem Acts.keeps {action : Option Action} {cursor : Cursor} {step : Run Unit}
    (acts : Acts action cursor step) (returns : step.Returns before value after) :
    before.Keeps after := by
  cases acts with
  | idle returns_iff =>
      rw [returns_iff.mp returns]
      exact .refl _
  | fails never => exact absurd returns never
  | given _ _ declares => exact .of_takesInOne (declares.takesInOne returns)
  | madeUp _ _ _ returns_iff declares =>
      obtain ⟨name, between, made, emitted⟩ := returns_iff.mp returns
      obtain ⟨_, declaresName⟩ := declares name
      exact (Registry.uniqueName_again made).1.trans (.of_takesInOne (declaresName.takesInOne emitted))

/-- What an action has done once it does not do again. -/
theorem Acts.again {action : Option Action} {cursor : Cursor} {step : Run Unit}
    (acts : Acts action cursor step) (returns : step.Returns before value after)
    (keeps : after.Keeps later) : step.Returns later value later := by
  cases acts with
  | idle returns_iff => exact returns_iff.mpr rfl
  | fails never => exact absurd returns never
  | given _ _ declares => exact declares.again returns keeps
  | madeUp _ _ _ returns_iff declares =>
      obtain ⟨name, between, made, emitted⟩ := returns_iff.mp returns
      obtain ⟨_, declaresName⟩ := declares name
      have kept := Registry.Keeps.of_takesInOne (declaresName.takesInOne emitted)
      have sameName := (Registry.uniqueName_again made).2 later (kept.trans keeps)
      exact returns_iff.mpr ⟨name, later, sameName, declaresName.again emitted keeps⟩

/-! ### Nodes and documents -/

namespace Table

variable {table : Table Action} {alphabet : Alphabet} {bytes : List UInt8}

/-- Offering a node keeps what there is, and offering it again changes nothing. -/
theorem dispatch_again {cursor : Cursor} {captures : Option (List Capture)}
    (returns : (table.dispatch alphabet bytes Generation.runDefault cursor).Returns
      before captures after) :
    before.Keeps after ∧ ∀ later, after.Keeps later →
      (table.dispatch alphabet bytes Generation.runDefault cursor).Returns later captures later := by
  obtain ⟨step, acts, returns_iff⟩ := table.exists_acts_dispatch alphabet bytes cursor
  obtain ⟨isCaptures, ran⟩ := returns_iff.mp returns
  refine ⟨acts.keeps ran, ?_⟩
  intro later keeps
  exact returns_iff.mpr ⟨isCaptures, acts.again ran keeps⟩

/-- Offering nodes keeps what there is, and offering them again changes nothing: what each of them did
the first time is still there after the others. -/
theorem processNodes_again {cursors : List Cursor} {claimed result : Nat}
    (returns : (table.processNodes alphabet bytes Generation.runDefault claimed cursors).Returns
      before result after) :
    before.Keeps after ∧ ∀ later, after.Keeps later →
      (table.processNodes alphabet bytes Generation.runDefault claimed cursors).Returns
        later result later := by
  induction cursors generalizing claimed before with
  | nil =>
      obtain ⟨rfl, rfl⟩ := returns_pure_iff.mp returns
      exact ⟨.refl _, fun later _ => returns_pure_iff.mpr ⟨rfl, rfl⟩⟩
  | cons cursor rest ih =>
      obtain ⟨captures, between, dispatched, offered⟩ := returns_processNodes_cons_iff.mp returns
      obtain ⟨firstKeeps, firstAgain⟩ := dispatch_again dispatched
      obtain ⟨restKeeps, restAgain⟩ := ih offered
      refine ⟨firstKeeps.trans restKeeps, ?_⟩
      intro later keeps
      apply returns_processNodes_cons_iff.mpr
      exact ⟨captures, later, firstAgain later (restKeeps.trans keeps), restAgain later keeps⟩

end Table

namespace Generation

/-- If generating from a document returns, from whatever registry, then generating from it again
returns the same count and leaves the whole registry as it is. -/
theorem generate_again {table : Table Action} {alphabet : Alphabet} {usual : Mode}
    {asked header : String} {document : Document} {claimed : Nat}
    (returns : (generate (m := Run) table alphabet runDefault usual asked header document).Returns
      before claimed after) :
    (generate (m := Run) table alphabet runDefault usual asked header document).Returns
      after claimed after := by
  unfold generate at returns ⊢
  obtain ⟨_, began, begins, chosen⟩ := returns_bind_iff.mp returns
  obtain rfl := returns_modify_iff.mp begins
  obtain ⟨mode, between, isMode, processed⟩ := returns_bind_iff.mp chosen
  obtain ⟨knownMode, rfl⟩ := returns_ofExcept_iff.mp isMode
  obtain ⟨keeps, again⟩ := Table.processNodes_again processed
  have noHeader : after = after.beginHeader header := by
    have known : after.headers.contains header = true := by
      rw [keeps.headers, Registry.beginHeader, List.contains_iff_mem]
      by_cases member : header ∈ before.headers
      · simp [member]
      · simp [member]
    have current : after.currentHeader = header := keeps.currentHeader
    rw [Registry.beginHeader, if_pos known, ← current]
  have began : (modify (fun registry => registry.beginHeader header) : Run Unit).Returns
      after () after := returns_modify_iff.mpr noHeader
  have chosenAgain : (Run.ofExcept id (chooseMode usual asked)).Returns after mode after :=
    returns_ofExcept_iff.mpr ⟨knownMode, rfl⟩
  exact began.bind (chosenAgain.bind (again after (.refl after)))

/-- A union and an enumeration without tags, and an enumeration that names a constant again. -/
def untaggedTwice : Document where
  bytes := "union { int a; } u;\nenum { N };\nenum E { N, M };".toUTF8.toList
  tree := .node ⟨"translation_unit", 0, 48, none⟩ [
    .node ⟨"declaration", 0, 19, none⟩ [
      .node ⟨"union_specifier", 0, 16, some "type"⟩ [
        .node ⟨"field_declaration_list", 6, 16, some "body"⟩ [
          .node ⟨"field_declaration", 8, 14, none⟩ [
            .node ⟨"primitive_type", 8, 11, some "type"⟩ [],
            .node ⟨"field_identifier", 12, 13, some "declarator"⟩ []]]],
      .node ⟨"identifier", 17, 18, some "declarator"⟩ []],
    .node ⟨"enum_specifier", 20, 30, none⟩ [
      .node ⟨"enumerator_list", 25, 30, some "body"⟩ [
        .node ⟨"enumerator", 27, 28, none⟩ [.node ⟨"identifier", 27, 28, some "name"⟩ []]]],
    .node ⟨"enum_specifier", 32, 47, none⟩ [
      .node ⟨"type_identifier", 37, 38, some "name"⟩ [],
      .node ⟨"enumerator_list", 39, 47, some "body"⟩ [
        .node ⟨"enumerator", 41, 42, none⟩ [.node ⟨"identifier", 41, 42, some "name"⟩ []],
        .node ⟨"enumerator", 44, 45, none⟩ [.node ⟨"identifier", 44, 45, some "name"⟩ []]]]]
  hasError := false

/-- The second time, the made-up names are those of the first, and no constant is declared again. -/
theorem generate_again_untaggedTwice : ∃ registry,
    registry.declared = ⟨["N", "M"], ["AnonUnion0"], ["AnonEnum0", "E"], []⟩ ∧
    (generate (m := Run) Rules.table Rules.alphabet runDefault .c "" "u.h" untaggedTwice).Returns
      .empty 3 registry ∧
    (generate (m := Run) Rules.table Rules.alphabet runDefault .c "" "u.h" untaggedTwice).Returns
      registry 3 registry := by
  have returns : (generate (m := Run) Rules.table Rules.alphabet runDefault .c "" "u.h"
      untaggedTwice).Returns .empty 3
      ⟨"u.h", ["u.h"], ⟨["N", "M"], ["AnonUnion0"], ["AnonEnum0", "E"], []⟩,
        ⟨[], [.record ⟨"AnonUnion0", "", "u.h", true, [⟨"a", .named "ctypes.c_int", none, none⟩]⟩],
          [.enumeration ⟨"AnonEnum0", "u.h", [⟨"N", "0"⟩]⟩,
            .enumeration ⟨"E", "u.h", [⟨"M", "1"⟩]⟩],
          []⟩,
        [], [(⟨.types, "AnonUnion", "u.h", [0, 16]⟩, "AnonUnion0"),
          (⟨.enumerations, "AnonEnum", "u.h", [20, 30]⟩, "AnonEnum0")]⟩ := by
    rw [Rules.table_eq, Rules.alphabet_eq]
    decide +kernel
  exact ⟨_, rfl, returns, generate_again returns⟩

end Generation

end HeaderBindings
