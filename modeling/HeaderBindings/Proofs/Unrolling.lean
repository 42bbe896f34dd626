/-
Module: HeaderBindings.Proofs.Unrolling
Purpose: A recursive child stands for the children of the shape around it at every depth: written out
  deeply enough, without any recursive child, a pattern finds the same nodes.
Main exports: Match.outline, Pattern.unrolled, Pattern.recursive_unrolled, Pattern.find_unrolled
-/
import HeaderBindings.Proofs.AlphabetHistory

namespace HeaderBindings

/-! ### Outlines -/

/-- The nodes of a match in the shape of its tree. -/
inductive Outline where
  | node (cursor : Cursor) (below : List Outline)

namespace Match

mutual

/-- What is left of a match without its patterns. -/
def outline : Match → Outline
  | node cursor _ children => .node cursor (outlines children)

/-- The outlines of matches in order. -/
def outlines : List Match → List Outline
  | [] => []
  | first :: rest => first.outline :: outlines rest

end

end Match

/-! ### Cuts among patterns that consume the same -/

/-- A change of patterns that keeps their kinds and quantifiers. -/
structure KeepsConsumption (change : Pattern → Pattern) : Prop where
  kinds : ∀ pattern, (change pattern).head.kinds = pattern.head.kinds
  quantifier : ∀ pattern, (change pattern).head.quantifier = pattern.head.quantifier

namespace KeepsConsumption

variable {change : Pattern → Pattern} {items : List (List Pattern)} {kinds : List String}
  {shares : List Share}

theorem consumes_iff (keeps : KeepsConsumption change) (child : Pattern) (segment : List String) :
    (change child).Consumes segment ↔ child.Consumes segment := by
  simp only [Pattern.Consumes, Head.accepts, keeps.kinds, keeps.quantifier]

theorem childItems_map (keeps : KeepsConsumption change) (children : List Pattern) :
    Pattern.childItems (children.map change) = (Pattern.childItems children).map (List.map change) := by
  induction children with
  | nil => rfl
  | cons child rest ih =>
      rw [List.map_cons, Pattern.childItems, Pattern.childItems, keeps.quantifier, ih]
      split
      · cases Pattern.childItems rest <;> rfl
      · rfl

theorem cut_map_iff (keeps : KeepsConsumption change) :
    Cut (items.map (List.map change)) kinds shares ↔ Cut items kinds shares := by
  constructor
  · intro cut
    induction items generalizing kinds shares with
    | nil =>
        cases cut
        exact .done
    | cons item items ih =>
        cases cut with
        | @take _ _ index child segment rest others chosen consumed later =>
        rw [List.getElem?_map, Option.map_eq_some_iff] at chosen
        obtain ⟨original, isOriginal, rfl⟩ := chosen
        exact .take isOriginal ((keeps.consumes_iff original segment).mp consumed) (ih later)
  · intro cut
    induction cut with
    | done => exact .done
    | @take item items index child segment rest others chosen consumed _ ih =>
        refine .take ?_ ((keeps.consumes_iff child segment).mpr consumed) ih
        rw [List.getElem?_map, chosen]
        rfl

theorem firstCut_map_iff (keeps : KeepsConsumption change) :
    FirstCut (items.map (List.map change)) kinds shares ↔ FirstCut items kinds shares := by
  constructor
  · intro first
    exact ⟨keeps.cut_map_iff.mp first.isCut,
      fun other isOther => first.first other (keeps.cut_map_iff.mpr isOther)⟩
  · intro first
    exact ⟨keeps.cut_map_iff.mpr first.isCut,
      fun other isOther => first.first other (keeps.cut_map_iff.mp isOther)⟩

theorem endsOpen_map (keeps : KeepsConsumption change) (children : List Pattern) :
    Pattern.endsOpen (children.map change) = Pattern.endsOpen children := by
  unfold Pattern.endsOpen
  rw [List.getLast?_map]
  cases children.getLast? with
  | none => rfl
  | some last => simp [keeps.quantifier]

end KeepsConsumption

theorem takers_map (change : Pattern → Pattern) (items : List (List Pattern)) (shares : List Share) :
    takers (items.map (List.map change)) shares = (takers items shares).map change := by
  induction items generalizing shares with
  | nil => cases shares <;> rfl
  | cons item items ih =>
      cases shares with
      | nil => rfl
      | cons share shares =>
          rw [List.map_cons, takers, takers, ih, List.map_append, List.getElem?_map]
          cases item[share.alternative]? <;> simp

/-! ### Patterns without recursive children -/

/-- A head that accepts the same nodes and is not recursive. -/
def Head.plain (head : Head) : Head := { head with recursive := false }

namespace Pattern

mutual

/-- A pattern in which every recursive child has children of its own: those that are lent to it for
the children of the shape around it. -/
def graft (lend : List Pattern → List Pattern) : Pattern → Pattern
  | node head children => node head (graftAll lend children children)

/-- The same for some children of a shape, among all of its children. -/
def graftAll (lend : List Pattern → List Pattern) (around : List Pattern) :
    List Pattern → List Pattern
  | [] => []
  | child :: rest =>
      (if child.head.recursive then node child.head.plain (lend around) else child.graft lend)
        :: graftAll lend around rest

end

/-- What is lent to a recursive child so that it reaches a number of levels deep: the children of the
shape around it, in which recursive children reach one level less; on the last level nothing. -/
def lent : Nat → List Pattern → List Pattern
  | 0, _ => []
  | depth + 1, around => graftAll (lent depth) around around

/-- What becomes of a child of a shape. -/
def graftChild (lend : List Pattern → List Pattern) (around : List Pattern) (child : Pattern) : Pattern :=
  if child.head.recursive then node child.head.plain (lend around) else child.graft lend

/-- A pattern with its recursive children written out a number of levels deep. -/
def unrolled (depth : Nat) (pattern : Pattern) : Pattern :=
  pattern.graft (lent depth)

section

variable {lend : List Pattern → List Pattern} {around : List Pattern} {child : Pattern}

theorem head_graft (lend : List Pattern → List Pattern) (pattern : Pattern) :
    (pattern.graft lend).head = pattern.head := by
  cases pattern
  rfl

theorem graftAll_eq_map (patterns : List Pattern) :
    graftAll lend around patterns = patterns.map (graftChild lend around) := by
  induction patterns with
  | nil => rfl
  | cons first rest ih => rw [graftAll, ih, List.map_cons, graftChild]

theorem graftChild_of_recursive (recursive : child.head.recursive = true) :
    graftChild lend around child = node child.head.plain (lend around) :=
  if_pos recursive

theorem graftChild_of_plain (plain : child.head.recursive = false) :
    graftChild lend around child = child.graft lend := by
  unfold graftChild
  rw [plain]
  rfl

theorem keepsConsumption_graftChild (lend : List Pattern → List Pattern) (around : List Pattern) :
    KeepsConsumption (graftChild lend around) where
  kinds pattern := by
    cases recursive : pattern.head.recursive with
    | true => rw [graftChild_of_recursive recursive]; rfl
    | false => rw [graftChild_of_plain recursive, head_graft]
  quantifier pattern := by
    cases recursive : pattern.head.recursive with
    | true => rw [graftChild_of_recursive recursive]; rfl
    | false => rw [graftChild_of_plain recursive, head_graft]

end

theorem lent_succ (depth : Nat) (around : List Pattern) :
    lent (depth + 1) around = around.map (graftChild (lent depth) around) :=
  graftAll_eq_map around

theorem children_unrolled (depth : Nat) (pattern : Pattern) :
    (pattern.unrolled depth).children = lent (depth + 1) pattern.children := by
  cases pattern
  rfl

/-! ### What is written out is closed and has no recursive child -/

/-- Patterns that may be the children of a closed pattern. -/
def ClosedAsChildren (patterns : List Pattern) : Prop :=
  endsOpen patterns = false ∧ ∀ pattern ∈ patterns, pattern.Closed

section

variable {lend : List Pattern → List Pattern}

theorem endsOpen_graftAll (around patterns : List Pattern) :
    endsOpen (graftAll lend around patterns) = endsOpen patterns := by
  rw [graftAll_eq_map, (keepsConsumption_graftChild lend around).endsOpen_map]

mutual

theorem closed_graft (lends : ∀ around, ClosedAsChildren around → ClosedAsChildren (lend around)) :
    ∀ pattern : Pattern, pattern.Closed → (pattern.graft lend).Closed
  | node head children, closed => by
      have childrenClosed : ClosedAsChildren children := closed_node_iff.mp closed
      rw [graft, closed_node_iff, endsOpen_graftAll]
      exact ⟨childrenClosed.1, closed_graftAll lends childrenClosed children childrenClosed.2⟩

theorem closed_graftAll
    (lends : ∀ around, ClosedAsChildren around → ClosedAsChildren (lend around))
    {around : List Pattern} (aroundClosed : ClosedAsChildren around) :
    ∀ patterns : List Pattern, (∀ pattern ∈ patterns, pattern.Closed) →
      ∀ pattern ∈ graftAll lend around patterns, pattern.Closed
  | [], _ => by simp [graftAll]
  | first :: rest, closed => by
      rw [List.forall_mem_cons] at closed
      rw [graftAll, List.forall_mem_cons]
      refine ⟨?_, closed_graftAll lends aroundClosed rest closed.2⟩
      split
      · exact closed_node_iff.mpr (lends around aroundClosed)
      · exact closed_graft lends first closed.1

end

mutual

theorem plain_graft (lends : ∀ around, ∀ below ∈ descendantsOfList (lend around),
      below.head.recursive = false) : ∀ pattern : Pattern,
    ∀ below ∈ descendantsOfList (pattern.graft lend).children, below.head.recursive = false
  | node _ children => plain_graftAll lends children children

theorem plain_graftAll (lends : ∀ around, ∀ below ∈ descendantsOfList (lend around),
      below.head.recursive = false) (around : List Pattern) : ∀ patterns : List Pattern,
    ∀ below ∈ descendantsOfList (graftAll lend around patterns), below.head.recursive = false
  | [] => by simp [graftAll, descendantsOfList]
  | first :: rest => by
      rw [graftAll, descendantsOfList]
      intro below member
      rcases List.mem_append.mp member with inFirst | later
      · cases recursive : first.head.recursive with
        | true =>
            rw [if_pos recursive, descendants] at inFirst
            rcases List.mem_cons.mp inFirst with rfl | deeper
            · rfl
            · exact lends around below deeper
        | false =>
            rw [if_neg (by simp [recursive])] at inFirst
            have deep := plain_graft lends first
            have top := head_graft lend first
            generalize first.graft lend = grafted at inFirst deep top
            obtain ⟨head, children⟩ := grafted
            rw [descendants] at inFirst
            rcases List.mem_cons.mp inFirst with rfl | deeper
            · rw [top, recursive]
            · exact deep below deeper
      · exact plain_graftAll lends around rest below later

end

end

theorem closedAsChildren_lent {around : List Pattern} (closed : ClosedAsChildren around) (depth : Nat) :
    ClosedAsChildren (lent depth around) := by
  induction depth generalizing around with
  | zero => exact ⟨rfl, by simp [lent]⟩
  | succ depth ih =>
      refine ⟨?_, ?_⟩
      · rw [lent, endsOpen_graftAll]
        exact closed.1
      · exact closed_graftAll (fun _ otherClosed => ih otherClosed) closed around closed.2

theorem Closed.unrolled {pattern : Pattern} (closed : pattern.Closed) (depth : Nat) :
    (pattern.unrolled depth).Closed :=
  closed_graft (fun _ childrenClosed => closedAsChildren_lent childrenClosed depth) pattern closed

theorem recursive_lent (depth : Nat) (around : List Pattern) :
    ∀ below ∈ descendantsOfList (lent depth around), below.head.recursive = false := by
  induction depth generalizing around with
  | zero => simp [lent, descendantsOfList]
  | succ depth ih => exact plain_graftAll ih around around

/-- No pattern below the top of what is written out is recursive. -/
theorem recursive_unrolled (depth : Nat) (pattern : Pattern) :
    ∀ below ∈ descendantsOfList (pattern.unrolled depth).children, below.head.recursive = false :=
  plain_graft (recursive_lent depth) pattern

/-! ### The same outlines -/

/-- A pattern inside an enclosing shape reads a node, first cuts only, by a match with an outline. -/
def Draws (enclosing : Option Pattern) (pattern : Pattern) (cursor : Cursor) (outline : Outline) :
    Prop :=
  ∃ found, Reads FirstCut enclosing pattern cursor found ∧ found.outline = outline

/-- Patterns inside a shape read sibling nodes by matches with these outlines. -/
def DrawsAll (shape : Pattern) (patterns : List Pattern) (cursors : List Cursor)
    (outlines : List Outline) : Prop :=
  ∃ matches_, ReadsAll FirstCut shape patterns cursors matches_ ∧ Match.outlines matches_ = outlines

variable {enclosing : Option Pattern} {pattern shape : Pattern} {cursor : Cursor} {outline : Outline}

theorem draws_iff_of_childless (accepts : pattern.head.accepts cursor.kind = true)
    (childless : (pattern.shape enclosing).children = []) :
    Draws enclosing pattern cursor outline ↔ outline = .node cursor [] := by
  simp only [Draws, reads_iff_of_childless accepts childless, exists_eq_left, Match.outline,
    Match.outlines, eq_comm]

theorem draws_iff_of_shaped (accepts : pattern.head.accepts cursor.kind = true)
    (shaped : (pattern.shape enclosing).children ≠ []) :
    Draws enclosing pattern cursor outline ↔ ∃ shares below,
      FirstCut (childItems (pattern.shape enclosing).children) (cursor.named.map Cursor.kind) shares ∧
      DrawsAll (pattern.shape enclosing)
        (takers (childItems (pattern.shape enclosing).children) shares) cursor.named below ∧
      outline = .node cursor below := by
  unfold Draws
  simp only [reads_iff_of_shaped accepts shaped]
  constructor
  · rintro ⟨_, ⟨shares, below, first, children, rfl⟩, rfl⟩
    exact ⟨shares, _, first, ⟨below, children, rfl⟩, rfl⟩
  · rintro ⟨shares, _, first, ⟨below, children, rfl⟩, rfl⟩
    exact ⟨_, ⟨shares, below, first, children, rfl⟩, rfl⟩

theorem drawsAll_cons_iff {first : Pattern} {rest : List Pattern} {cursors : List Cursor}
    {outlines : List Outline} :
    DrawsAll shape (first :: rest) (cursor :: cursors) outlines ↔ ∃ one others,
      Draws (some shape) first cursor one ∧ DrawsAll shape rest cursors others ∧
      outlines = one :: others := by
  unfold DrawsAll Draws
  simp only [readsAll_cons_iff]
  constructor
  · rintro ⟨_, ⟨one, others, head, tail, rfl⟩, rfl⟩
    exact ⟨_, _, ⟨one, head, rfl⟩, ⟨others, tail, rfl⟩, rfl⟩
  · rintro ⟨_, _, ⟨one, head, rfl⟩, ⟨others, tail, rfl⟩, rfl⟩
    exact ⟨_, ⟨one, others, head, tail, rfl⟩, rfl⟩

/-- Siblings have the same outlines under changed patterns inside another shape if each of them has. -/
theorem drawsAll_map_iff {other : Pattern} {change : Pattern → Pattern} {patterns : List Pattern}
    {cursors : List Cursor} {outlines : List Outline}
    (same : ∀ part ∈ patterns, ∀ child ∈ cursors, ∀ outline,
      Draws (some other) (change part) child outline ↔ Draws (some shape) part child outline) :
    DrawsAll other (patterns.map change) cursors outlines ↔
      DrawsAll shape patterns cursors outlines := by
  induction patterns generalizing cursors outlines with
  | nil =>
      constructor
      · rintro ⟨_, ⟨⟩, rfl⟩
        exact ⟨[], .nil, rfl⟩
      · rintro ⟨_, ⟨⟩, rfl⟩
        exact ⟨[], .nil, rfl⟩
  | cons first rest ih =>
      cases cursors with
      | nil =>
          constructor
          · rintro ⟨_, ⟨⟩, _⟩
          · rintro ⟨_, ⟨⟩, _⟩
      | cons child cursors =>
          have later : ∀ more, DrawsAll other (rest.map change) cursors more ↔
              DrawsAll shape rest cursors more := by
            intro more
            apply ih
            intro part isPart below isBelow
            exact same part (List.mem_cons_of_mem _ isPart) below (List.mem_cons_of_mem _ isBelow)
          rw [List.map_cons, drawsAll_cons_iff, drawsAll_cons_iff]
          simp only [same first (by simp) child (by simp), later]

/-- Two patterns of the same kinds draw the same on a node if the children of one shape become those of the
other by a change that keeps what they take, and draw the same below the node. -/
theorem draws_iff_of_children {enclosing otherEnclosing : Option Pattern} {pattern other : Pattern}
    {change : Pattern → Pattern} (kinds : other.head.kinds = pattern.head.kinds)
    (changed : (other.shape otherEnclosing).children = (pattern.shape enclosing).children.map change)
    (keeps : KeepsConsumption change)
    (below : ∀ part, ∀ child ∈ cursor.named, ∀ outline,
      Draws (some (other.shape otherEnclosing)) (change part) child outline ↔
        Draws (some (pattern.shape enclosing)) part child outline) :
    Draws otherEnclosing other cursor outline ↔ Draws enclosing pattern cursor outline := by
  have sameAccepts : other.head.accepts cursor.kind = pattern.head.accepts cursor.kind := by
    rw [Head.accepts, Head.accepts, kinds]
  cases accepted : pattern.head.accepts cursor.kind with
  | false =>
      rw [accepted] at sameAccepts
      constructor
      · rintro ⟨found, reads, _⟩
        simp [reads.accepts] at sameAccepts
      · rintro ⟨found, reads, _⟩
        simp [reads.accepts] at accepted
  | true =>
      rw [accepted] at sameAccepts
      by_cases childless : (pattern.shape enclosing).children = []
      · have otherChildless : (other.shape otherEnclosing).children = [] := by
          rw [changed, childless, List.map_nil]
        rw [draws_iff_of_childless accepted childless,
          draws_iff_of_childless sameAccepts otherChildless]
      · have otherShaped : (other.shape otherEnclosing).children ≠ [] := by
          rw [changed]
          exact mt List.map_eq_nil_iff.mp childless
        rw [draws_iff_of_shaped accepted childless, draws_iff_of_shaped sameAccepts otherShaped,
          changed, keeps.childItems_map]
        refine exists_congr fun shares => exists_congr fun outlines => ?_
        refine and_congr keeps.firstCut_map_iff (and_congr ?_ Iff.rfl)
        rw [takers_map]
        exact drawsAll_map_iff fun part _ => below part

/-- On a node that is not higher than a depth, a pattern draws the same as another one whose shape has
the children of its own shape written out that deep. -/
theorem draws_unrolled {enclosing otherEnclosing : Option Pattern} {pattern other : Pattern}
    {cursor : Cursor} {outline : Outline} {depth : Nat}
    (deep : cursor.focus.height ≤ depth) (kinds : other.head.kinds = pattern.head.kinds)
    (written : (other.shape otherEnclosing).children
      = lent (depth + 1) (pattern.shape enclosing).children) :
    Draws otherEnclosing other cursor outline ↔ Draws enclosing pattern cursor outline := by
  rw [lent_succ] at written
  apply draws_iff_of_children kinds written (keepsConsumption_graftChild _ _)
  intro part child isChild outline
  have lower := Cursor.height_lt_of_mem_named isChild
  cases recursive : part.head.recursive with
  | true =>
      -- The shape stays, and the child is lent its children one level less deep.
      obtain ⟨less, rfl⟩ : ∃ less, depth = less + 1 := ⟨depth - 1, by omega⟩
      have shapeOfPart : part.shape (some (pattern.shape enclosing)) = pattern.shape enclosing := by
        simp [Pattern.shape, recursive]
      rw [graftChild_of_recursive recursive]
      have lessDeep : child.focus.height ≤ less := by omega
      apply draws_unrolled lessDeep
      · rfl
      · rw [shapeOfPart]
        rfl
  | false =>
      -- The child is the shape around those below it.
      rw [graftChild_of_plain recursive]
      have plain : (part.graft (lent depth)).head = part.head := head_graft (lent depth) part
      have deepEnough : child.focus.height ≤ depth := by omega
      apply draws_unrolled deepEnough
      · rw [plain]
      · simp only [Pattern.shape, plain, recursive, Bool.false_eq_true, if_false]
        exact children_unrolled depth part
termination_by cursor.focus.height

/-! ### Written out deeply enough -/

/-- A pattern, compiled against any alphabet, and what it is when its recursive children are written
out at least as many levels deep as a node is high, compiled against any other, find the same nodes in
the same places below the node, or both find nothing. -/
theorem find_unrolled {pattern : Pattern} (closed : pattern.Closed) {cursor : Cursor} {depth : Nat}
    (deep : cursor.focus.height ≤ depth) :
    (∀ below ∈ descendantsOfList (pattern.unrolled depth).children, below.head.recursive = false) ∧
    ∀ earlier otherEarlier : Alphabet, ∃ matcher compiledIn unrolled unrolledIn,
      pattern.compile earlier = (.ok matcher, compiledIn) ∧
      (pattern.unrolled depth).compile otherEarlier = (.ok unrolled, unrolledIn) ∧
      ∀ later otherLater, compiledIn.Later later → unrolledIn.Later otherLater →
        (matcher.find? later none cursor).map Match.outline
          = (unrolled.find? otherLater none cursor).map Match.outline := by
  refine ⟨recursive_unrolled depth pattern, ?_⟩
  intro earlier otherEarlier
  obtain ⟨matcher, compiledIn, compiles, stands⟩ := closed.compile_stands earlier
  obtain ⟨unrolled, unrolledIn, unrolledCompiles, unrolledStands⟩ :=
    (closed.unrolled depth).compile_stands otherEarlier
  refine ⟨matcher, compiledIn, unrolled, unrolledIn, compiles, unrolledCompiles, ?_⟩
  intro later otherLater isLater isOtherLater
  apply Option.ext
  intro outline
  rw [Option.map_eq_some_iff, Option.map_eq_some_iff]
  simp only [(stands later isLater).find?_eq_some_iff,
    (unrolledStands otherLater isOtherLater).find?_eq_some_iff]
  have top : ∀ part : Pattern, part.shape none = part := by
    intro part
    unfold Pattern.shape
    split <;> rfl
  exact (draws_unrolled deep (by rw [Pattern.unrolled, head_graft])
    (by rw [top, top, children_unrolled])).symm

/-- A recursive child, and another one below a child with children of its own. -/
def borrowsTwice : Pattern :=
  .node ⟨["a"], .one, false⟩
    [.node ⟨["a"], .zeroOrOne, true⟩ [],
      .node ⟨["b"], .zeroOrOne, false⟩
        [.node ⟨["a"], .zeroOrOne, true⟩ [], .node ⟨["c"], .zeroOrOne, false⟩ []]]

/-- The first `a` below the top borrows the children of the top; below `b`, both borrow those of `b`. -/
def borrowedTwice : Cursor :=
  .root (.node ⟨"a", 0, 4, none⟩
    [.node ⟨"a", 0, 1, none⟩ [.node ⟨"b", 0, 1, none⟩ [.node ⟨"c", 0, 1, none⟩ []]],
      .node ⟨"b", 1, 4, none⟩
        [.node ⟨"a", 1, 3, none⟩ [.node ⟨"a", 1, 2, none⟩ [], .node ⟨"c", 2, 3, none⟩ []],
          .node ⟨"c", 3, 4, none⟩ []]])

theorem find_unrolled_borrowedTwice :
    borrowsTwice.Closed ∧ borrowedTwice.focus.height ≤ 3 ∧
    ∃ matcher compiledIn unrolled unrolledIn found,
      borrowsTwice.compile .empty = (.ok matcher, compiledIn) ∧
      (borrowsTwice.unrolled 3).compile compiledIn = (.ok unrolled, unrolledIn) ∧
      matcher.find? compiledIn none borrowedTwice = some found ∧ found.nodes.length = 9 ∧
      (unrolled.find? unrolledIn none borrowedTwice).map Match.outline = some found.outline := by
  have closed : borrowsTwice.Closed := by
    unfold Closed
    decide
  have deep : borrowedTwice.focus.height ≤ 3 := by decide
  obtain ⟨_, alphabets⟩ := find_unrolled closed deep
  obtain ⟨_, compiledIn, _, _, compiles, _⟩ := alphabets .empty .empty
  obtain ⟨matcher, _, unrolled, unrolledIn, again, unrolledCompiles, same⟩ := alphabets .empty compiledIn
  obtain rfl : compiledIn = _ := (congrArg Prod.snd (compiles.symm.trans again))
  have outlines := same _ _ .same .same
  obtain ⟨found, isFound, size⟩ : ∃ found,
      matcher.find? compiledIn none borrowedTwice = some found ∧ found.nodes.length = 9 := by
    cases again
    exact ⟨_, rfl, rfl⟩
  refine ⟨closed, deep, matcher, compiledIn, unrolled, unrolledIn, found, again, unrolledCompiles, isFound,
    size, ?_⟩
  rw [← outlines, isFound]
  rfl

end Pattern

end HeaderBindings
