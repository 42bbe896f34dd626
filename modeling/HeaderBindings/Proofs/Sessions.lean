/-
Module: HeaderBindings.Proofs.Sessions
Purpose: The registries that a session comes to, and that in all of them the reserved names are those that
  declarations bind.
Main exports: Session.Reached, Session.Reached.consistent, Session.Reached.names_agree
-/
import HeaderBindings.Generation
import HeaderBindings.Proofs.ActionSteps
import HeaderBindings.Proofs.DefaultGrammar

namespace HeaderBindings

open Run

variable {table : Table Action} {alphabet : Alphabet} {bytes : List UInt8}
variable {before after : Registry}

/-! ### Steps of a session -/

/-- Offering a node answers the captures of its claim, if there is one, and does what the action of the
claim comes to. -/
theorem Table.exists_acts_dispatch (table : Table Action) (alphabet : Alphabet) (bytes : List UInt8)
    (cursor : Cursor) :
    ∃ step, Acts ((table.claim? alphabet cursor).bind (·.entry.action)) cursor step ∧
      ∀ {before captures after},
        (table.dispatch alphabet bytes Generation.runDefault cursor).Returns before captures after ↔
          captures = (table.claim? alphabet cursor).map (·.found.captures bytes) ∧
          step.Returns before () after := by
  unfold Table.dispatch
  cases table.claim? alphabet cursor with
  | none =>
      refine ⟨pure (), acts_pure, ?_⟩
      intro before captures after
      simp
  | some claim =>
      dsimp only [Option.bind_some, Option.map_some]
      cases claim.entry.action with
      | none =>
          refine ⟨pure (), acts_pure, ?_⟩
          intro before captures after
          simp
      | some action =>
          refine ⟨_, action.acts cursor (claim.found.captures bytes), ?_⟩
          intro before captures after
          simp only [returns_bind_iff, returns_pure_iff]
          constructor
          · rintro ⟨_, _, ran, rfl, rfl⟩
            exact ⟨rfl, ran⟩
          · rintro ⟨rfl, ran⟩
            exact ⟨(), after, ran, rfl, rfl⟩

theorem Table.steps_dispatch {cursor : Cursor} {captures : Option (List Capture)}
    (returns : (table.dispatch alphabet bytes Generation.runDefault cursor).Returns
      before captures after) : Registry.Steps before after := by
  obtain ⟨_, acts, returns_iff⟩ := table.exists_acts_dispatch alphabet bytes cursor
  exact acts.steps (returns_iff.mp returns).2

/-- A node that no action claims changes nothing. -/
theorem Table.eq_of_unclaimed {cursor : Cursor} {captures : Option (List Capture)}
    (unclaimed : (table.claim? alphabet cursor).bind (·.entry.action) = none)
    (returns : (table.dispatch alphabet bytes Generation.runDefault cursor).Returns
      before captures after) : after = before := by
  unfold Table.dispatch at returns
  cases isClaim : table.claim? alphabet cursor with
  | none =>
      rw [isClaim] at returns
      exact (returns_pure_iff.mp returns).2
  | some claim =>
      rw [isClaim] at returns unclaimed
      have idle : claim.entry.action = none := unclaimed
      dsimp only at returns
      rw [idle] at returns
      exact (returns_pure_iff.mp returns).2

/-- Nothing claims a node of a kind that no pattern names. -/
theorem Table.claim?_of_not_hasKind {α : Type} {table : Table α} {cursor : Cursor}
    (unnamed : table.hasKind cursor.kind = false) : table.claim? alphabet cursor = none := by
  have absent : table.buckets.lookup cursor.kind = none := by
    rw [List.lookup_eq_none_iff]
    intro bucket member
    have other : cursor.kind ∉ table.kinds := by simpa [hasKind] using unnamed
    have different : cursor.kind ≠ bucket.1 := by
      intro same
      exact other (List.mem_map.mpr ⟨bucket, member, same.symm⟩)
    simpa using different
  rw [claim?, candidates, absent]
  rfl

/-- Offering nodes offers the first one and then the others; one that is claimed counts. Passing over
nodes of unnamed kinds makes no difference, since nothing claims them. -/
theorem Table.returns_processNodes_cons_iff {cursor : Cursor} {rest : List Cursor}
    {claimed result : Nat} :
    (table.processNodes alphabet bytes Generation.runDefault claimed (cursor :: rest)).Returns
        before result after ↔
      ∃ captures between,
        (table.dispatch alphabet bytes Generation.runDefault cursor).Returns before captures between ∧
        (table.processNodes alphabet bytes Generation.runDefault
          (claimed + captures.toList.length) rest).Returns between result after := by
  rw [Table.processNodes]
  by_cases named : table.hasKind cursor.kind = true
  · rw [if_pos named, returns_bind_iff]
    refine exists_congr fun captures => exists_congr fun between => and_congr_right fun _ => ?_
    cases captures with
    | none => rfl
    | some captures => rfl
  · rw [if_neg named]
    have unclaimed : table.claim? alphabet cursor = none :=
      table.claim?_of_not_hasKind (by simpa using named)
    constructor
    · intro returns
      refine ⟨none, before, ?_, returns⟩
      rw [Table.dispatch, unclaimed]
      exact returns_pure_iff.mpr ⟨rfl, rfl⟩
    · rintro ⟨captures, between, dispatched, returns⟩
      rw [Table.dispatch, unclaimed] at dispatched
      obtain ⟨rfl, rfl⟩ := returns_pure_iff.mp dispatched
      exact returns

/-- Every node that is offered takes the registry through steps, and so do all of them. -/
theorem Table.steps_processNodes {cursors : List Cursor} {claimed result : Nat}
    (returns : (table.processNodes alphabet bytes Generation.runDefault claimed cursors).Returns
      before result after) : Registry.Steps before after := by
  induction cursors generalizing claimed before with
  | nil => rw [(returns_pure_iff.mp returns).2]
  | cons cursor rest ih =>
      obtain ⟨captures, between, dispatched, later⟩ := returns_processNodes_cons_iff.mp returns
      exact (Table.steps_dispatch dispatched).trans (ih later)

namespace Session

/-- The registries that a session comes to from the empty one: it reads documents, offers a node and
all nodes below it to a table, or offers a single node, and no step fails. -/
inductive Reached (table : Table Action) (alphabet : Alphabet) : Registry → Prop where
  | empty : Reached table alphabet .empty
  | generated {before after : Registry} {usual : Mode} {asked header : String}
      {document : Document} {claimed : Nat} (reached : Reached table alphabet before)
      (returns : (Generation.generate (m := Run) table alphabet Generation.runDefault usual asked
        header document).Returns before claimed after) : Reached table alphabet after
  | processed {before after : Registry} {bytes : List UInt8} {cursor : Cursor} {claimed : Nat}
      (reached : Reached table alphabet before)
      (returns : (table.processNodes alphabet bytes Generation.runDefault 0 cursor.walk).Returns
        before claimed after) : Reached table alphabet after
  | dispatched {before after : Registry} {bytes : List UInt8} {cursor : Cursor}
      {captures : Option (List Capture)} (reached : Reached table alphabet before)
      (returns : (table.dispatch alphabet bytes Generation.runDefault cursor).Returns
        before captures after) : Reached table alphabet after

/-- Generating from a header begins it and then offers all nodes of the document. -/
theorem processNodes_of_generate {usual : Mode} {asked header : String} {document : Document}
    {claimed : Nat}
    (returns : (Generation.generate (m := Run) table alphabet Generation.runDefault usual asked
      header document).Returns before claimed after) :
    (table.processNodes alphabet document.bytes Generation.runDefault 0
      (Cursor.root document.tree).walk).Returns (before.beginHeader header) claimed after := by
  unfold Generation.generate at returns
  obtain ⟨_, began, begins, chosen⟩ := returns_bind_iff.mp returns
  obtain rfl := returns_modify_iff.mp begins
  obtain ⟨mode, between, isMode, processed⟩ := returns_bind_iff.mp chosen
  obtain ⟨_, rfl⟩ := returns_ofExcept_iff.mp isMode
  exact processed

theorem steps_generate {usual : Mode} {asked header : String} {document : Document} {claimed : Nat}
    (returns : (Generation.generate (m := Run) table alphabet Generation.runDefault usual asked
      header document).Returns before claimed after) : Registry.Steps before after :=
  .head (.header header) (Table.steps_processNodes (processNodes_of_generate returns))

theorem Reached.steps {registry : Registry} (reached : Reached table alphabet registry) :
    Registry.Steps .empty registry := by
  induction reached with
  | empty => exact .refl
  | generated _ returns ih => exact ih.trans (steps_generate returns)
  | processed _ returns ih => exact ih.trans (Table.steps_processNodes returns)
  | dispatched _ returns ih => exact ih.trans (Table.steps_dispatch returns)

theorem Reached.consistent {registry : Registry} (reached : Reached table alphabet registry) :
    registry.Consistent :=
  Registry.consistent_empty.of_steps reached.steps

/-! ### Names and declarations -/

/-- Names are all there and different, and exactly the reserved ones. -/
structure NamesAgree (names reserved : List String) : Prop where
  nonempty : ∀ name ∈ names, name ≠ ""
  distinct : names.Nodup
  exact_ : ∀ name, name ∈ names ↔ name ∈ reserved

/-- In every registry that a session comes to, the declared types, enumerations and functions each
have exactly the reserved names of their category, and macros and the members of all enumerations
together have exactly the reserved names of constants; all of them are there and different. -/
theorem Reached.names_agree {registry : Registry} (reached : Reached table alphabet registry) :
    (∀ category, category ≠ .constants →
      NamesAgree ((registry.emitted.get category).map Declaration.name)
        (registry.declared.get category)) ∧
    NamesAgree (registry.emitted.constants.map Declaration.name
        ++ registry.emitted.enumerations.flatMap Declaration.memberNames)
      registry.declared.constants := by
  have consistent := reached.consistent
  have agree : ∀ category,
      NamesAgree (registry.boundNames category) (registry.declared.get category) := by
    intro category
    have bound := consistent.bound category
    refine ⟨?_, bound.nodup_iff.mpr (consistent.distinct category), fun name => bound.mem_iff⟩
    rintro name member rfl
    exact consistent.named category (bound.mem_iff.mp member)
  refine ⟨fun category other => ?_, agree .constants⟩
  have named := agree category
  rwa [Registry.boundNames, if_neg other, List.append_nil] at named

/-- A macro, and an enumeration of which one member has the name of the macro. -/
def macroAndEnumeration : Document where
  bytes := "#define N 5\nenum E { N, A };".toUTF8.toList
  tree := .node ⟨"translation_unit", 0, 28, none⟩ [
    .node ⟨"preproc_def", 0, 12, none⟩ [
      .node ⟨"identifier", 8, 9, some "name"⟩ [], .node ⟨"preproc_arg", 10, 11, some "value"⟩ []],
    .node ⟨"enum_specifier", 12, 27, none⟩ [
      .node ⟨"type_identifier", 17, 18, some "name"⟩ [],
      .node ⟨"enumerator_list", 19, 27, some "body"⟩ [
        .node ⟨"enumerator", 21, 22, none⟩ [.node ⟨"identifier", 21, 22, some "name"⟩ []],
        .node ⟨"enumerator", 24, 25, none⟩ [.node ⟨"identifier", 24, 25, some "name"⟩ []]]]]
  hasError := false

/-- The member with the name of the macro is not kept, so that its name is bound once. -/
theorem Reached.names_agree_macroAndEnumeration :
    ∃ registry, Reached Rules.table Rules.alphabet registry ∧
      registry.emitted.enumerations = [.enumeration ⟨"E", "e.h", [⟨"A", "1"⟩]⟩] ∧
      registry.declared.constants = ["N", "A"] ∧
      NamesAgree (registry.emitted.constants.map Declaration.name
        ++ registry.emitted.enumerations.flatMap Declaration.memberNames)
        registry.declared.constants := by
  have returns : (Generation.generate (m := Run) Rules.table Rules.alphabet Generation.runDefault .c
      "" "e.h" macroAndEnumeration).Returns .empty 2
      ⟨"e.h", ["e.h"], ⟨["N", "A"], [], ["E"], []⟩,
        ⟨[.constant ⟨"N", "5", "e.h"⟩], [], [.enumeration ⟨"E", "e.h", [⟨"A", "1"⟩]⟩], []⟩,
        [], []⟩ := by
    rw [Rules.table_eq, Rules.alphabet_eq]
    decide +kernel
  have reached := Reached.generated .empty returns
  exact ⟨_, reached, rfl, rfl, (Reached.names_agree reached).2⟩

end Session

end HeaderBindings
