/-
Module: HeaderBindings.Proofs.DocumentOrder
Purpose: A walk with a stack goes through a node and all nodes that are reached from it by children that
  are not comments, once each, and every node before those below it.
Main exports: Cursor.walk_eq, Cursor.Reaches, Cursor.mem_walk_iff, Cursor.nodup_walk
-/
import Mathlib.Algebra.Order.BigOperators.Group.List
import Mathlib.Algebra.Order.Ring.Nat
import Mathlib.Data.List.Nodup
import Mathlib.Logic.Relation
import HeaderBindings.Proofs.FoundNodes

namespace HeaderBindings

theorem Tree.sizes_eq_sum (trees : List Tree) : sizes trees = (trees.map size).sum := by
  induction trees with
  | nil => rfl
  | cons tree rest ih => rw [sizes, ih, List.map_cons, List.sum_cons]

namespace Cursor

/-! ### The stack and the recursion -/

theorem pushAll_reverse (nodes stack : List Cursor) : pushAll nodes.reverse stack = nodes ++ stack := by
  rw [pushAll, List.foldl_reverse, List.foldr_cons_eq_append, List.map_id']

/-- The number of nodes below the nodes of a stack, these included. -/
def stackSize (stack : List Cursor) : Nat := (stack.map fun cursor => cursor.focus.size).sum

theorem stackSize_cons (cursor : Cursor) (stack : List Cursor) :
    stackSize (cursor :: stack) = cursor.focus.size + stackSize stack := by
  rw [stackSize, List.map_cons, List.sum_cons, stackSize]

theorem stackSize_append (first second : List Cursor) :
    stackSize (first ++ second) = stackSize first + stackSize second := by
  rw [stackSize, List.map_append, List.sum_append, stackSize, stackSize]

/-- The nodes below the children are fewer than those below the node, as it is one of them itself. -/
theorem stackSize_named_lt (cursor : Cursor) : stackSize cursor.named < cursor.focus.size := by
  have isSum : stackSize cursor.named = (cursor.focus.named.map Tree.size).sum := by
    rw [stackSize, ← map_focus_named, List.map_map]
    rfl
  have fewer : (cursor.focus.named.map Tree.size).sum ≤ (cursor.focus.children.map Tree.size).sum :=
    (List.filter_sublist.map _).sum_le_sum fun _ _ => Nat.zero_le _
  have isSize : cursor.focus.size = (cursor.focus.children.map Tree.size).sum + 1 := by
    obtain ⟨⟨label, trees⟩, above⟩ := cursor
    rw [Tree.size, Tree.sizes_eq_sum]
    rfl
  omega

/-- As many steps as there are nodes go through the stack, and do for every node on it what they do for
it alone. The node on top gives way to its children, which have fewer nodes below them. -/
theorem visited_eq {steps : Nat} {stack : List Cursor} (enough : stackSize stack ≤ steps) :
    visited steps stack = stack.flatMap walk := by
  induction steps using Nat.strongRecOn generalizing stack with
  | ind steps ih =>
      cases stack with
      | nil => cases steps <;> rfl
      | cons cursor ahead =>
          rw [stackSize_cons] at enough
          have fewer := stackSize_named_lt cursor
          obtain ⟨rest, isSize⟩ : ∃ rest, cursor.focus.size = rest + 1 :=
            ⟨_, (Nat.succ_pred (by omega)).symm⟩
          obtain ⟨more, rfl⟩ : ∃ more, steps = more + 1 := ⟨_, (Nat.succ_pred (by omega)).symm⟩
          have alone : cursor.walk = cursor :: cursor.named.flatMap walk := by
            rw [walk, isSize, visited, pushAll_reverse, List.append_nil, ih rest (by omega) (by omega)]
          have pushed : stackSize (cursor.named ++ ahead) ≤ more := by
            rw [stackSize_append]
            omega
          rw [visited, pushAll_reverse, ih more (by omega) pushed, List.flatMap_append,
            List.flatMap_cons, alone, List.cons_append]

/-- The walk from a node goes through its children that are not comments, one after another. -/
theorem walk_eq (cursor : Cursor) : cursor.walk = cursor :: cursor.named.flatMap walk := by
  have fewer := stackSize_named_lt cursor
  obtain ⟨rest, isSize⟩ : ∃ rest, cursor.focus.size = rest + 1 :=
    ⟨_, (Nat.succ_pred (by omega)).symm⟩
  rw [walk, isSize, visited, pushAll_reverse, List.append_nil, visited_eq (by omega)]

/-! ### Which nodes are visited -/

/-- A node is reached from another by going down through children that are not comments. -/
def Reaches : Cursor → Cursor → Prop :=
  Relation.ReflTransGen fun parent child => child ∈ parent.named

theorem mem_walk_of_reaches {cursor node : Cursor} (reaches : cursor.Reaches node) :
    node ∈ cursor.walk := by
  induction reaches using Relation.ReflTransGen.head_induction_on with
  | refl =>
      rw [walk_eq]
      exact List.mem_cons_self
  | head isChild _ ih =>
      rw [walk_eq]
      exact List.mem_cons_of_mem _ (List.mem_flatMap.mpr ⟨_, isChild, ih⟩)

theorem reaches_of_mem_walk {cursor node : Cursor} (member : node ∈ cursor.walk) :
    cursor.Reaches node := by
  rw [walk_eq] at member
  rcases List.mem_cons.mp member with rfl | below
  · exact .refl
  · obtain ⟨child, isChild, inside⟩ := List.mem_flatMap.mp below
    have lower := height_lt_of_mem_named isChild
    exact .head isChild (reaches_of_mem_walk inside)
termination_by cursor.focus.height

theorem mem_walk_iff {cursor node : Cursor} : node ∈ cursor.walk ↔ cursor.Reaches node :=
  ⟨reaches_of_mem_walk, mem_walk_of_reaches⟩

/-! ### No node twice -/

/-- The frames above a node stand above all nodes that are reached from it. -/
theorem Reaches.above_suffix {cursor node : Cursor} (reaches : cursor.Reaches node) :
    cursor.above <:+ node.above := by
  induction reaches with
  | refl => exact List.suffix_rfl
  | tail _ isChild ih =>
      obtain ⟨index, isAbove, _⟩ := exists_index_of_mem_named isChild
      rw [isAbove]
      exact ih.trans (List.suffix_cons _ _)

/-- No node is reached from two different siblings: it has the frames of only one of them above it. -/
theorem onSiblings_pairwise (parent : Cursor) (index : Nat) (trees : List Tree) :
    (onSiblings parent index trees).Pairwise fun first second =>
      List.Disjoint first.walk second.walk := by
  have apart : ∀ (trees : List Tree) (start : Nat), ∀ child ∈ onSiblings parent start trees,
      ∃ place, start ≤ place ∧ child.above = ⟨parent.focus, place⟩ :: parent.above := by
    intro trees
    induction trees with
    | nil => simp [onSiblings]
    | cons tree rest ih =>
        intro start child member
        rcases List.mem_cons.mp member with rfl | later
        · exact ⟨start, Nat.le_refl _, rfl⟩
        · obtain ⟨place, isLater, isAbove⟩ := ih (start + 1) child later
          exact ⟨place, by omega, isAbove⟩
  induction trees generalizing index with
  | nil => exact .nil
  | cons tree rest ih =>
      refine .cons ?_ (ih (index + 1))
      intro second member node inFirst inSecond
      obtain ⟨place, isLater, isAbove⟩ := apart rest (index + 1) second member
      have underFirst := (reaches_of_mem_walk inFirst).above_suffix
      have underSecond := (reaches_of_mem_walk inSecond).above_suffix
      rw [isAbove] at underSecond
      have same := (List.suffix_of_suffix_length_le underFirst underSecond (by simp)).eq_of_length (by simp)
      simp only [List.cons.injEq, Frame.mk.injEq, true_and, and_true] at same
      omega

/-- A walk comes to no node twice. -/
theorem nodup_walk (cursor : Cursor) : cursor.walk.Nodup := by
  rw [walk_eq, List.nodup_cons, List.nodup_flatMap]
  refine ⟨?_, ?_, ?_⟩
  · intro again
    obtain ⟨child, isChild, inside⟩ := List.mem_flatMap.mp again
    obtain ⟨index, isAbove, _⟩ := exists_index_of_mem_named isChild
    have longer := (reaches_of_mem_walk inside).above_suffix.length_le
    rw [isAbove, List.length_cons] at longer
    omega
  · intro child isChild
    have lower := height_lt_of_mem_named isChild
    exact child.nodup_walk
  · exact (onSiblings_pairwise cursor 0 cursor.focus.children).filter _
termination_by cursor.focus.height

end Cursor

end HeaderBindings
