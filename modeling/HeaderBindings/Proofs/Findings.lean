/-
Module: HeaderBindings.Proofs.Findings
Purpose: Generating from a document and inspecting it see the same claims: the actions are handed what the
  findings show, whatever they do and whatever was declared before.
Main exports: Claimed, Table.claims, Table.processNodes_eq, Table.Acting, Rules.acting,
  Table.Acting.process_agrees_with_findings
-/
import HeaderBindings.Proofs.DocumentOrder
import HeaderBindings.Proofs.Sessions

namespace HeaderBindings

variable {Action : Type}

/-! ### Claims in order -/

/-- A node with its claim. -/
structure Claimed (Action : Type) where
  cursor : Cursor
  claim : Claim Action

namespace Table

/-- What a table claims among nodes, in their order. -/
def claimsAmong (table : Table Action) (alphabet : Alphabet) (cursors : List Cursor) :
    List (Claimed Action) :=
  cursors.filterMap fun cursor => (table.claim? alphabet cursor).map (⟨cursor, ·⟩)

/-- What a table claims in a document, in document order. -/
def claims (table : Table Action) (alphabet : Alphabet) (document : Document) :
    List (Claimed Action) :=
  table.claimsAmong alphabet (Cursor.root document.tree).walk

variable {table : Table Action} {alphabet : Alphabet} {cursor : Cursor}

theorem claimsAmong_cons_of_none (unclaimed : table.claim? alphabet cursor = none)
    (rest : List Cursor) :
    table.claimsAmong alphabet (cursor :: rest) = table.claimsAmong alphabet rest := by
  rw [claimsAmong, List.filterMap_cons_none (by rw [unclaimed]; rfl), claimsAmong]

theorem claimsAmong_cons_of_some {claim : Claim Action}
    (claimed : table.claim? alphabet cursor = some claim) (rest : List Cursor) :
    table.claimsAmong alphabet (cursor :: rest)
      = ⟨cursor, claim⟩ :: table.claimsAmong alphabet rest := by
  rw [claimsAmong, List.filterMap_cons_some (by rw [claimed]; rfl), claimsAmong]

theorem claim?_of_mem_claims {document : Document} {claimed : Claimed Action}
    (member : claimed ∈ table.claims alphabet document) :
    table.claim? alphabet claimed.cursor = some claimed.claim := by
  obtain ⟨cursor, _, isClaim⟩ := List.mem_filterMap.mp member
  obtain ⟨claim, isSome, rfl⟩ := Option.map_eq_some_iff.mp isClaim
  exact isSome

end Table

namespace Claimed

/-- The node and the captures of a claim. -/
def shown (bytes : List UInt8) (claimed : Claimed Action) : Cursor × List Capture :=
  (claimed.cursor, claimed.claim.found.captures bytes)

/-- The finding that shows a claim. -/
def finding (document : Document) (claimed : Claimed Action) : Finding where
  kind := claimed.cursor.kind
  line := Document.lineOf document.bytes claimed.cursor + 1
  pattern := claimed.claim.entry.matcher.pattern
  captures := claimed.claim.found.captures document.bytes

/-- Whether the pattern that claims has an action. -/
def hasAction (claimed : Claimed Action) : Bool := claimed.claim.entry.action.isSome

end Claimed

/-- Inspection shows every claim. -/
theorem Table.findings_eq (table : Table Action) (alphabet : Alphabet) (document : Document) :
    table.findings alphabet document
      = (table.claims alphabet document).map (Claimed.finding document) := by
  rw [findings, claims, claimsAmong, List.map_filterMap]
  refine List.filterMap_congr fun cursor _ => ?_
  rw [Option.map_map]
  rfl

/-! ### Actions on claims -/

section

variable {m : Type → Type} [Monad m]

/-- Carry out the action of a claim, if it has one, on the captures. -/
def Claimed.carryOut (bytes : List UInt8) (run : Action → Cursor → List Capture → m Unit)
    (claimed : Claimed Action) : m Unit :=
  match claimed.claim.entry.action with
  | some action => run action claimed.cursor (claimed.claim.found.captures bytes)
  | none => pure ()

variable [LawfulMonad m]

/-- Offering nodes to a table carries out the actions of the claims in order and counts the claims. What
an action does cannot change a later claim, and nothing that is passed over would be claimed. -/
theorem Table.processNodes_eq (table : Table Action) (alphabet : Alphabet) (bytes : List UInt8)
    (run : Action → Cursor → List Capture → m Unit) (count : Nat) (cursors : List Cursor) :
    table.processNodes alphabet bytes run count cursors = (do
      forM (table.claimsAmong alphabet cursors) (Claimed.carryOut bytes run)
      pure (count + (table.claimsAmong alphabet cursors).length)) := by
  induction cursors generalizing count with
  | nil => simp [processNodes, claimsAmong]
  | cons cursor rest ih =>
      have offered : table.processNodes alphabet bytes run count (cursor :: rest) = (do
          let captures ← table.dispatch alphabet bytes run cursor
          table.processNodes alphabet bytes run (count + captures.toList.length) rest) := by
        rw [processNodes]
        by_cases named : table.hasKind cursor.kind = true
        · rw [if_pos named]
          refine bind_congr fun captures => ?_
          cases captures <;> rfl
        · have unclaimed : table.claim? alphabet cursor = none :=
            Table.claim?_of_not_hasKind (by simpa using named)
          rw [if_neg named, dispatch, unclaimed, pure_bind]
          rfl
      rw [offered, dispatch]
      cases claimed : table.claim? alphabet cursor with
      | none =>
          rw [claimsAmong_cons_of_none claimed]
          simp [ih]
      | some claim =>
          rw [claimsAmong_cons_of_some claimed, List.forM_cons, Claimed.carryOut]
          cases action : claim.entry.action <;> simp [action, ih, Nat.add_assoc, Nat.add_comm 1]

/-! ### What actions are handed -/

/-- An action carried out after the node and the captures that it is handed are noted. -/
def Generation.noting (run : Action → Cursor → List Capture → m Unit) (action : Action)
    (cursor : Cursor) (captures : List Capture) : StateT (List (Cursor × List Capture)) m Unit := do
  modify fun noted => noted ++ [(cursor, captures)]
  monadLift (run action cursor captures)

theorem Claimed.run_carryOut_noting (bytes : List UInt8)
    (run : Action → Cursor → List Capture → m Unit) (claims : List (Claimed Action))
    (noted : List (Cursor × List Capture)) :
    (forM claims (carryOut bytes (Generation.noting run))).run noted = (do
      forM claims (carryOut bytes run)
      pure ((), noted ++ (claims.filter hasAction).map (shown bytes))) := by
  induction claims generalizing noted with
  | nil => simp
  | cons claimed rest ih =>
      rw [List.forM_cons, List.forM_cons, StateT.run_bind, List.filter_cons]
      cases action : claimed.claim.entry.action with
      | none => simp [carryOut, hasAction, action, ih]
      | some action => simp [carryOut, hasAction, action, Generation.noting, shown, ih]

/-- Noting what the actions are handed changes nothing else, and notes the claims with an action. -/
theorem Table.run_process_noting (table : Table Action) (alphabet : Alphabet)
    (run : Action → Cursor → List Capture → m Unit) (document : Document) :
    (table.process alphabet (Generation.noting run) document).run [] = (do
      let count ← table.process alphabet run document
      pure (count, ((table.claims alphabet document).filter Claimed.hasAction).map
        (Claimed.shown document.bytes))) := by
  rw [process, process, processNodes_eq, processNodes_eq, StateT.run_bind,
    Claimed.run_carryOut_noting]
  simp [claims]

end

/-! ### Tables in which every pattern has an action -/

/-- Every pattern of a table has an action. -/
def Table.Acting (table : Table Action) : Prop :=
  ∀ kind, ∀ entry ∈ table.candidates kind, entry.action.isSome = true

theorem Table.Acting.hasAction {table : Table Action} (acting : table.Acting) {alphabet : Alphabet}
    {document : Document} {claimed : Claimed Action}
    (member : claimed ∈ table.claims alphabet document) : claimed.hasAction = true := by
  have isClaim := Table.claim?_of_mem_claims member
  obtain ⟨entry, isEntry, found⟩ := List.exists_of_findSome?_eq_some isClaim
  obtain ⟨match_, _, isClaimed⟩ := Option.map_eq_some_iff.mp found
  rw [Claimed.hasAction, ← isClaimed]
  exact acting _ entry isEntry

theorem Rules.acting : table.Acting := by
  intro kind entry candidate
  obtain ⟨registered, _⟩ := (table_filed kind entry).mp candidate
  obtain ⟨shape, _, _, _, action⟩ := exists_shape_of_mem_entries registered
  rw [action]
  rfl

/-- A walk is the recursive preorder of the nodes that are reached from its start by children that are not
comments, each of them once. From whatever registry offering the nodes of a document returns, the actions
are handed one after another exactly the nodes and captures that inspection shows, and the answer is their
number. -/
theorem Table.Acting.process_agrees_with_findings {table : Table Action} (acting : table.Acting)
    (alphabet : Alphabet) (run : Action → Cursor → List Capture → Run Unit) (document : Document) :
    (∀ cursor : Cursor, cursor.walk = cursor :: cursor.named.flatMap Cursor.walk ∧
      cursor.walk.Nodup ∧ ∀ node, node ∈ cursor.walk ↔ cursor.Reaches node) ∧
    ∀ before count after, (table.process alphabet run document).Returns before count after →
      ∃ handed,
        Run.Returns ((table.process alphabet (Generation.noting run) document).run [])
          before (count, handed) after ∧
        handed = (table.claims alphabet document).map (Claimed.shown document.bytes) ∧
        table.findings alphabet document
          = (table.claims alphabet document).map (Claimed.finding document) ∧
        count = (table.findings alphabet document).length := by
  refine ⟨fun cursor => ⟨cursor.walk_eq, cursor.nodup_walk, fun _ => Cursor.mem_walk_iff⟩, ?_⟩
  intro before count after returns
  have handed : (table.claims alphabet document).filter Claimed.hasAction
      = table.claims alphabet document :=
    List.filter_eq_self.mpr fun _ member => acting.hasAction member
  refine ⟨_, ?_, rfl, table.findings_eq alphabet document, ?_⟩
  · rw [run_process_noting, handed]
    exact returns.bind (Run.returns_pure_iff.mpr ⟨rfl, rfl⟩)
  · rw [process, processNodes_eq] at returns
    obtain ⟨_, _, _, counted⟩ := Run.returns_bind_iff.mp returns
    rw [(Run.returns_pure_iff.mp counted).1, Nat.zero_add, findings_eq, List.length_map]
    rfl

/-- A macro and an enumeration are claimed in this order, though the enumerators are walked as well. -/
theorem Rules.process_agrees_with_findings_macroAndEnumeration :
    let document := Session.macroAndEnumeration
    let after : Registry := ⟨"", [], ⟨["N", "A"], [], ["E"], []⟩,
      ⟨[.constant ⟨"N", "5", ""⟩], [], [.enumeration ⟨"E", "", [⟨"A", "1"⟩]⟩], []⟩, [], []⟩
    table.Acting ∧
    (table.process alphabet Generation.runDefault document).Returns .empty 2 after ∧
    ∃ handed,
      Run.Returns ((table.process alphabet (Generation.noting Generation.runDefault) document).run [])
        .empty (2, handed) after ∧
      handed = (table.claims alphabet document).map (Claimed.shown document.bytes) ∧
      table.findings alphabet document
        = (table.claims alphabet document).map (Claimed.finding document) ∧
      2 = (table.findings alphabet document).length := by
  intro document after
  have returns : (table.process alphabet Generation.runDefault document).Returns .empty 2 after := by
    rw [table_eq, alphabet_eq]
    decide +kernel
  refine ⟨acting, returns, ?_⟩
  exact (acting.process_agrees_with_findings alphabet Generation.runDefault document).2 _ _ _ returns

end HeaderBindings
