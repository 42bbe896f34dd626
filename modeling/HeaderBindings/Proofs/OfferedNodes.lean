/-
Module: HeaderBindings.Proofs.OfferedNodes
Purpose: A session as the headers that it begins and the nodes that it offers, one after another, and that
  what a node declares stays declared.
Main exports: Offer, Offer.Pass, Request, Session.Generated, Session.Generated.pass,
  Registry.Steps.mem_emitted, Registry.Steps.isDeclared
-/
import HeaderBindings.Proofs.Sessions

namespace HeaderBindings

open Run

/-! ### Offers -/

/-- What a session does, step by step: it begins a header, or offers a node of a document with some
bytes. -/
inductive Offer where
  | header (name : String)
  | node (bytes : List UInt8) (cursor : Cursor)

namespace Offer

variable {table : Table Action} {alphabet : Alphabet}

/-- Offers take one registry to another, and no step fails. -/
inductive Pass (table : Table Action) (alphabet : Alphabet) :
    Registry → List Offer → Registry → Prop where
  | done {registry : Registry} : Pass table alphabet registry [] registry
  | header {before after : Registry} {name : String} {rest : List Offer}
      (later : Pass table alphabet (before.beginHeader name) rest after) :
      Pass table alphabet before (.header name :: rest) after
  | node {before between after : Registry} {bytes : List UInt8} {cursor : Cursor}
      {captures : Option (List Capture)} {rest : List Offer}
      (returns : (table.dispatch alphabet bytes Generation.runDefault cursor).Returns
        before captures between)
      (later : Pass table alphabet between rest after) :
      Pass table alphabet before (.node bytes cursor :: rest) after

namespace Pass

variable {before after : Registry} {first second : List Offer}

theorem append {between : Registry} (one : Pass table alphabet before first between)
    (two : Pass table alphabet between second after) :
    Pass table alphabet before (first ++ second) after := by
  induction one with
  | done => exact two
  | header _ ih => exact .header (ih two)
  | node returns _ ih => exact .node returns (ih two)

theorem split (both : Pass table alphabet before (first ++ second) after) :
    ∃ between, Pass table alphabet before first between ∧
      Pass table alphabet between second after := by
  induction first generalizing before with
  | nil => exact ⟨before, .done, both⟩
  | cons offer rest ih =>
      cases both with
      | header later =>
          obtain ⟨between, one, two⟩ := ih later
          exact ⟨between, .header one, two⟩
      | node returns later =>
          obtain ⟨between, one, two⟩ := ih later
          exact ⟨between, .node returns one, two⟩

/-- At every offered node there is a registry from which its offer returned. -/
theorem at_node {bytes : List UInt8} {cursor : Cursor}
    (pass : Pass table alphabet before (first ++ .node bytes cursor :: second) after) :
    ∃ here captures next, Pass table alphabet before first here ∧
      (table.dispatch alphabet bytes Generation.runDefault cursor).Returns here captures next ∧
      Pass table alphabet next second after := by
  obtain ⟨here, earlier, rest⟩ := pass.split
  cases rest with
  | node returns later => exact ⟨here, _, _, earlier, returns, later⟩

theorem steps {offers : List Offer} (pass : Pass table alphabet before offers after) :
    Registry.Steps before after := by
  induction pass with
  | done => exact .refl
  | header _ ih => exact .head (.header _) ih
  | node returns _ ih => exact (Table.steps_dispatch returns).trans ih

theorem consistent {offers : List Offer} (pass : Pass table alphabet .empty offers after) :
    after.Consistent :=
  Registry.consistent_empty.of_steps pass.steps

end Pass

end Offer

/-- Offering nodes in order passes through them all. -/
theorem Table.pass_processNodes {table : Table Action} {alphabet : Alphabet} {bytes : List UInt8}
    {cursors : List Cursor} {claimed result : Nat} {before after : Registry}
    (returns : (table.processNodes alphabet bytes Generation.runDefault claimed cursors).Returns
      before result after) :
    Offer.Pass table alphabet before (cursors.map (.node bytes)) after := by
  induction cursors generalizing claimed before with
  | nil =>
      obtain ⟨_, rfl⟩ := returns_pure_iff.mp returns
      exact .done
  | cons cursor rest ih =>
      obtain ⟨captures, between, dispatched, later⟩ := returns_processNodes_cons_iff.mp returns
      exact .node dispatched (ih later)

/-! ### Sessions of requests -/

/-- A request to generate from a header: the language asked for, the name, and the document. -/
structure Request where
  asked : String
  header : String
  document : Document

/-- What a request does: it begins the header, and offers all nodes of the document. -/
def Request.offers (request : Request) : List Offer :=
  .header request.header :: (Cursor.root request.document.tree).walk.map (.node request.document.bytes)

theorem Request.mem_offers_iff {requests : List Request} {bytes : List UInt8} {node : Cursor} :
    Offer.node bytes node ∈ requests.flatMap Request.offers ↔
      ∃ request ∈ requests, bytes = request.document.bytes ∧
        node ∈ (Cursor.root request.document.tree).walk := by
  rw [List.mem_flatMap]
  refine exists_congr fun request => and_congr_right fun _ => ?_
  simp [Request.offers, eq_comm, and_comm]

namespace Session

variable {table : Table Action} {alphabet : Alphabet} {usual : Mode}

/-- The registries that requests come to from the empty one, when none of them fails. -/
inductive Generated (table : Table Action) (alphabet : Alphabet) (usual : Mode) :
    List Request → Registry → Prop where
  | nothing : Generated table alphabet usual [] .empty
  | more {requests : List Request} {request : Request} {before after : Registry} {claimed : Nat}
      (earlier : Generated table alphabet usual requests before)
      (returns : (Generation.generate (m := Run) table alphabet Generation.runDefault usual
        request.asked request.header request.document).Returns before claimed after) :
      Generated table alphabet usual (requests ++ [request]) after

theorem Generated.pass {requests : List Request} {registry : Registry}
    (generated : Generated table alphabet usual requests registry) :
    Offer.Pass table alphabet .empty (requests.flatMap Request.offers) registry := by
  induction generated with
  | nothing => exact .done
  | more _ returns ih =>
      rw [List.flatMap_append, List.flatMap_singleton]
      exact ih.append (.header (Table.pass_processNodes (processNodes_of_generate returns)))

end Session

/-! ### What stays -/

namespace Registry

variable {before after : Registry} {category : Category} {declaration : Declaration}

theorem Step.mem_emitted (step : Step before after)
    (emitted : declaration ∈ before.emitted.get category) :
    declaration ∈ after.emitted.get category := by
  cases step with
  | header name => exact emitted
  | made entry => exact emitted
  | admitted admits => exact mem_emitted_takeIn.mpr (Or.inl emitted)

/-- A declaration stays in its category. -/
theorem Steps.mem_emitted (steps : Steps before after)
    (emitted : declaration ∈ before.emitted.get category) :
    declaration ∈ after.emitted.get category := by
  induction steps with
  | refl => exact emitted
  | tail _ step ih => exact step.mem_emitted ih

theorem Step.isDeclared {name : String} (step : Step before after)
    (declared : before.isDeclared category name = true) : after.isDeclared category name = true := by
  cases step with
  | header name => exact declared
  | made entry => exact declared
  | admitted admits =>
      unfold Registry.isDeclared at declared ⊢
      rw [declared_takeIn, List.contains_iff_mem]
      exact List.mem_append_left _ (List.contains_iff_mem.mp declared)

/-- A name stays reserved. -/
theorem Steps.isDeclared {name : String} (steps : Steps before after)
    (declared : before.isDeclared category name = true) : after.isDeclared category name = true := by
  induction steps with
  | refl => exact declared
  | tail _ step ih => exact step.isDeclared ih

end Registry

end HeaderBindings
