/-
Module: HeaderBindings.Proofs.ChildCut
Purpose: The declarative reading of a list of child patterns, and that the regular expression compiled
  from it finds the preferred reading.
Main exports: Pattern.Consumes, Pattern.childItems, Cut, FirstCut, groupSpans,
  Regex.spans?_eq_some_iff, Regex.isSome_spans?_iff
-/
import HeaderBindings.Proofs.AlphabetCodes

namespace HeaderBindings

/-! ### What a list of child patterns says

A list of child patterns is read as items. Kinds are cut into one segment for each item, and one of
the alternatives of the item consumes the segment. -/

/-- How many siblings a quantifier lets a pattern consume. -/
def Quantifier.Allows : Quantifier → Nat → Prop
  | .one, count | .alternative, count => count = 1
  | .oneOrMore, count => 1 ≤ count
  | .zeroOrMore, _ => True
  | .zeroOrOne, count => count ≤ 1

namespace Pattern

/-- A child pattern consumes a segment of kinds. -/
def Consumes (child : Pattern) (segment : List String) : Prop :=
  child.head.quantifier.Allows segment.length ∧ ∀ kind ∈ segment, child.head.accepts kind = true

/-- The items of child patterns, each a list of alternatives: a run of alternatives belongs to the
item of the child after it, and every other child is an item of its own. -/
def childItems : List Pattern → List (List Pattern)
  | [] => []
  | child :: rest =>
      if child.head.quantifier == .alternative then
        match childItems rest with
        | [] => [[child]]
        | item :: items => (child :: item) :: items
      else [child] :: childItems rest

theorem flatten_childItems (children : List Pattern) : (childItems children).flatten = children := by
  induction children with
  | nil => rfl
  | cons child rest ih =>
      unfold childItems
      split
      · cases items : childItems rest with
        | nil =>
            rw [items] at ih
            simpa using ih
        | cons item items' =>
            rw [items] at ih
            simpa using ih
      · simpa using ih

theorem mem_of_mem_childItems {children item : List Pattern} {child : Pattern}
    (inItem : child ∈ item) (isItem : item ∈ childItems children) : child ∈ children := by
  rw [← flatten_childItems children]
  exact List.mem_flatten.mpr ⟨item, isItem, inItem⟩

end Pattern

/-- What an item is given: which of its alternatives consumes, and how many kinds. -/
structure Share where
  alternative : Nat
  length : Nat
deriving Repr, DecidableEq

/-- A cut of kinds into consecutive segments, one for each item, each consumed by an alternative of
its item. -/
inductive Cut : List (List Pattern) → List String → List Share → Prop where
  | done : Cut [] [] []
  | take {item : List Pattern} {items : List (List Pattern)} {index : Nat} {child : Pattern}
      {segment rest : List String} {shares : List Share} (chosen : item[index]? = some child)
      (consumed : child.Consumes segment) (others : Cut items rest shares) :
      Cut (item :: items) (segment ++ rest) (⟨index, segment.length⟩ :: shares)

namespace Cut

variable {first : Pattern} {items : List (List Pattern)} {kinds : List String} {shares : List Share}

/-- An item without alternatives is consumed by its one pattern. -/
theorem of_single (cut : Cut ([first] :: items) kinds shares) :
    ∃ segment rest later, kinds = segment ++ rest ∧ first.Consumes segment ∧ Cut items rest later := by
  cases cut with
  | @take _ _ index child segment rest later chosen consumed others =>
      obtain rfl : first = child := by
        cases index with
        | zero => simpa using chosen
        | succ index => simp at chosen
      exact ⟨segment, rest, later, rfl, consumed, others⟩

/-- Something is cut if the first pattern has to consume something. -/
theorem ne_nil (cut : Cut ([first] :: items) kinds shares)
    (needed : ¬ first.head.quantifier.Allows 0) : kinds ≠ [] := by
  obtain ⟨segment, rest, _, rfl, consumed, _⟩ := cut.of_single
  intro empty
  rw [(List.append_eq_nil_iff.mp empty).1] at consumed
  exact needed consumed.1

end Cut

/-- An earlier alternative is preferred, and of one alternative the longer segment. -/
def Share.Preferred (one other : Share) : Prop :=
  one.alternative < other.alternative ∨
    one.alternative = other.alternative ∧ other.length < one.length

theorem Share.Preferred.asymm {one other : Share} (preferred : one.Preferred other) :
    ¬ other.Preferred one := by
  unfold Share.Preferred at *
  omega

/-- Of two different shares, one is preferred. -/
theorem Share.eq_or_preferred (one other : Share) :
    other = one ∨ one.Preferred other ∨ other.Preferred one := by
  obtain ⟨alternative, length⟩ := one
  obtain ⟨otherAlternative, otherLength⟩ := other
  simp only [Share.mk.injEq, Share.Preferred]
  omega

/-- The cut that is preferred to all others, going through the items from left to right. -/
structure FirstCut (items : List (List Pattern)) (kinds : List String) (shares : List Share) :
    Prop where
  isCut : Cut items kinds shares
  first : ∀ other, Cut items kinds other → other = shares ∨ List.Lex Share.Preferred shares other

theorem FirstCut.unique {items : List (List Pattern)} {kinds : List String}
    {shares others : List Share} (one : FirstCut items kinds shares)
    (two : FirstCut items kinds others) : shares = others := by
  rcases one.first others two.isCut with same | before
  · exact same.symm
  · rcases two.first shares one.isCut with same | after
    · exact same
    · exact absurd after (List.lex_asymm Share.Preferred.asymm before)

/-- The first cut gives the first item the share that is preferred to all others with which the other
items can be cut, and cuts the other items by their first cut. -/
theorem FirstCut.take {item : List Pattern} {items : List (List Pattern)} {index : Nat}
    {child : Pattern} {segment rest : List String} {shares : List Share}
    (chosen : item[index]? = some child) (consumed : child.Consumes segment)
    (others : FirstCut items rest shares)
    (preferred : ∀ (otherIndex : Nat) (other : Pattern) (otherSegment otherRest : List String)
      (otherShares : List Share), otherSegment ++ otherRest = segment ++ rest →
      item[otherIndex]? = some other → other.Consumes otherSegment →
      Share.Preferred ⟨otherIndex, otherSegment.length⟩ ⟨index, segment.length⟩ →
      ¬ Cut items otherRest otherShares) :
    FirstCut (item :: items) (segment ++ rest) (⟨index, segment.length⟩ :: shares) where
  isCut := .take chosen consumed others.isCut
  first := by
    intro otherCut isOther
    generalize whole : segment ++ rest = kinds at isOther
    cases isOther with
    | @take _ _ otherIndex other otherSegment otherRest otherShares otherChosen otherConsumed otherCut =>
    rcases Share.eq_or_preferred ⟨index, segment.length⟩ ⟨otherIndex, otherSegment.length⟩ with
      same | later | earlier
    · -- The same share: the rest of the cut decides.
      obtain ⟨rfl, sameLength⟩ := Share.mk.inj same
      obtain ⟨rfl, rfl⟩ := List.append_inj whole sameLength.symm
      rcases others.first otherShares otherCut with rfl | before
      · exact Or.inl rfl
      · exact Or.inr (.cons before)
    · exact Or.inr (.rel later)
    · exact absurd otherCut (preferred _ _ _ _ _ whole.symm otherChosen otherConsumed earlier)

/-- Where the groups of items lie in a cut from a position on: the alternative that consumes has the
segment of its item, and the other alternatives of the item have no span. -/
def groupSpans : Nat → List (List Pattern) → List Share → List (Option Span)
  | position, item :: items, share :: shares =>
      item.mapIdx (fun index _ => if index = share.alternative then
          some ⟨position, position + share.length⟩ else none)
        ++ groupSpans (position + share.length) items shares
  | _, _, _ => []

/-- Spans that follow one another without gap from a start to a stop. -/
def Consecutive : Nat → List Span → Nat → Prop
  | start, [], stop => start = stop
  | start, span :: rest, stop =>
      span.start = start ∧ start ≤ span.stop ∧ Consecutive span.stop rest stop

/-- One entry stands at an index, and nothing stands at the others. -/
theorem mapIdx_chosen {α β : Type} {item : List α} {index : Nat} (chosen : β)
    (within : index < item.length) :
    (item.mapIdx fun i _ => if i = index then some chosen else none)
      = List.replicate index none
        ++ some chosen :: List.replicate (item.length - 1 - index) none := by
  induction item generalizing index with
  | nil => simp at within
  | cons first rest ih =>
      rw [List.mapIdx_cons]
      cases index with
      | zero => simp [List.mapIdx_eq_replicate_iff]
      | succ index =>
          simp only [List.length_cons, Nat.add_lt_add_iff_right] at within
          have later := ih within
          simp only [Nat.add_right_cancel_iff] at later ⊢
          rw [later, List.replicate_succ]
          simp only [List.length_cons, List.cons_append]
          congr 4
          omega

namespace Cut

theorem length_groupSpans {items : List (List Pattern)} {kinds : List String} {shares : List Share}
    (cut : Cut items kinds shares) (position : Nat) :
    (groupSpans position items shares).length = items.flatten.length := by
  induction cut generalizing position with
  | done => rfl
  | take _ _ _ ih => simp [groupSpans, ih]

/-- The spans of the alternatives that consume lie side by side and cover all kinds. -/
theorem consecutive_groupSpans {items : List (List Pattern)} {kinds : List String}
    {shares : List Share} (cut : Cut items kinds shares) (position : Nat) :
    Consecutive position ((groupSpans position items shares).filterMap id)
      (position + kinds.length) := by
  induction cut generalizing position with
  | done => rfl
  | @take item items index child segment rest shares chosen consumed others ih =>
      obtain ⟨within, _⟩ := List.getElem?_eq_some_iff.mp chosen
      have later := ih (position + segment.length)
      rw [groupSpans, mapIdx_chosen _ within, List.filterMap_append, List.filterMap_append]
      simp only [List.filterMap_replicate_of_none, List.filterMap_cons, id, List.nil_append,
        List.cons_append, Consecutive, List.length_append]
      refine ⟨trivial, Nat.le_add_right _ _, ?_⟩
      rwa [← Nat.add_assoc]

end Cut

/-! ### What a group takes

On codes of kinds, the lengths a group may take are those its child pattern may consume. -/

namespace Group

theorem mem_downToZero {length bound : Nat} : length ∈ downToZero bound ↔ length ≤ bound := by
  induction bound with
  | zero => simp [downToZero]
  | succ bound ih =>
      simp only [downToZero, List.mem_cons, ih]
      omega

theorem mem_downToOne {length bound : Nat} :
    length ∈ downToOne bound ↔ 1 ≤ length ∧ length ≤ bound := by
  induction bound with
  | zero =>
      simp only [downToOne, List.not_mem_nil, false_iff]
      omega
  | succ bound ih =>
      simp only [downToOne, List.mem_cons, ih]
      omega

theorem pairwise_downToZero (bound : Nat) : (downToZero bound).Pairwise (· > ·) := by
  induction bound with
  | zero => simp [downToZero]
  | succ bound ih =>
      refine List.pairwise_cons.mpr ⟨fun length member => ?_, ih⟩
      exact Nat.lt_succ_of_le (mem_downToZero.mp member)

theorem pairwise_downToOne (bound : Nat) : (downToOne bound).Pairwise (· > ·) := by
  induction bound with
  | zero => simp [downToOne]
  | succ bound ih =>
      refine List.pairwise_cons.mpr ⟨fun length member => ?_, ih⟩
      exact Nat.lt_succ_of_le (mem_downToOne.mp member).2

/-- Longer lengths come first. -/
theorem pairwise_lengths (group : Group) (codes : List Nat) :
    (group.lengths codes).Pairwise (· > ·) := by
  unfold lengths
  cases group.quantifier with
  | one | alternative | oneOrMore => exact pairwise_downToOne _
  | zeroOrMore | zeroOrOne => exact pairwise_downToZero _

end Group

namespace Pattern

theorem has_group_code {alphabet : Alphabet} {child : Pattern}
    (named : ∀ kind ∈ child.head.kinds, kind ∈ alphabet.kinds) (kind : String) :
    (child.group alphabet).codes.has (alphabet.code kind) = child.head.accepts kind := by
  unfold group Head.accepts
  cases wild : child.head.kinds.isEmpty with
  | true => simp [CodeClass.has]
  | false =>
      rw [Bool.eq_iff_iff]
      simp [CodeClass.has, alphabet.code_mem_encode_iff named]

theorem le_length_takeWhile_iff {α : Type} (test : α → Bool) (xs : List α) (count : Nat) :
    count ≤ (xs.takeWhile test).length ↔
      count ≤ xs.length ∧ ∀ x ∈ xs.take count, test x = true := by
  induction xs generalizing count with
  | nil => simp
  | cons first rest ih =>
      cases count with
      | zero => simp
      | succ count =>
          rw [List.takeWhile_cons]
          split
          · rename_i passes
            simp [ih, passes]
          · rename_i fails
            simp [fails]

/-- A group may take as many leading codes as its child pattern may consume of the kinds. -/
theorem mem_lengths_group_iff {alphabet : Alphabet} {child : Pattern}
    (named : ∀ kind ∈ child.head.kinds, kind ∈ alphabet.kinds) (kinds : List String)
    (length : Nat) :
    length ∈ (child.group alphabet).lengths (alphabet.encode kinds) ↔
      length ≤ kinds.length ∧ child.Consumes (kinds.take length) := by
  have run : ((alphabet.encode kinds).takeWhile (child.group alphabet).codes.has).length
      = (kinds.takeWhile child.head.accepts).length := by
    unfold Alphabet.encode
    rw [List.takeWhile_map, List.length_map]
    congr 2
    funext kind
    exact has_group_code named kind
  have accepted := le_length_takeWhile_iff child.head.accepts kinds length
  have quantified : (child.group alphabet).quantifier = child.head.quantifier := rfl
  unfold Group.lengths Consumes
  rw [run, quantified, List.length_take]
  cases child.head.quantifier with
  | one | alternative | oneOrMore =>
      simp only [Group.mem_downToOne, Quantifier.Allows]
      grind
  | zeroOrMore | zeroOrOne =>
      simp only [Group.mem_downToZero, Quantifier.Allows]
      grind

end Pattern

/-! ### The regular expression of items -/

/-- In a list in order of preference, what a search finds comes from an entry such that the search
fails at all entries preferred to it. -/
theorem findSome?_preferred {α β : Type} {search : α → Option β} {entries : List α} {found : β}
    {prefer : α → α → Prop} (sorted : entries.Pairwise prefer)
    (asymm : ∀ a b, prefer a b → ¬ prefer b a) (result : entries.findSome? search = some found) :
    ∃ entry ∈ entries, search entry = some found ∧
      ∀ other ∈ entries, prefer other entry → search other = none := by
  obtain ⟨before, entry, after, rfl, atEntry, failed⟩ := List.findSome?_eq_some_iff.mp result
  refine ⟨entry, by simp, atEntry, ?_⟩
  intro other member preferred
  rcases List.mem_append.mp member with early | late
  · exact failed other early
  · rcases List.mem_cons.mp late with rfl | later
    · exact absurd preferred (asymm _ _ preferred)
    · have tail := (List.pairwise_append.mp sorted).2.1
      exact absurd preferred (asymm _ _ ((List.pairwise_cons.mp tail).1 other later))

namespace Regex

variable {alphabet : Alphabet} {items : List (List Pattern)}

/-- The regular expression of items. -/
def ofItems (alphabet : Alphabet) (items : List (List Pattern)) : Regex :=
  items.map fun item => item.map (Pattern.group alphabet)

/-- All kinds named in items have codes of their own. -/
def Named (alphabet : Alphabet) (items : List (List Pattern)) : Prop :=
  ∀ item ∈ items, ∀ child ∈ item, ∀ kind ∈ child.head.kinds, kind ∈ alphabet.kinds

theorem pairwise_zipIdx {α : Type} (xs : List α) :
    xs.zipIdx.Pairwise fun one other => one.2 < other.2 := by
  have sorted : (xs.zipIdx.map Prod.snd).Pairwise (· < ·) := by
    rw [List.zipIdx_map_snd]
    exact List.pairwise_lt_range'
  exact List.pairwise_map.mp sorted

theorem mem_zipIdx_group {item : List Pattern} {child : Pattern} {index : Nat}
    (chosen : item[index]? = some child) :
    (child.group alphabet, index) ∈ (item.map (Pattern.group alphabet)).zipIdx := by
  rw [List.mem_zipIdx_iff_getElem?, List.getElem?_map, chosen]
  rfl

/-- What follows the codes of a segment are the codes of the rest. -/
theorem drop_encode_append (segment rest : List String) :
    (alphabet.encode (segment ++ rest)).drop segment.length = alphabet.encode rest := by
  rw [Alphabet.encode, ← List.map_drop, List.drop_left, Alphabet.encode]

/-- A group may take what its child pattern consumes. -/
theorem length_mem_lengths {child : Pattern} {segment : List String}
    (named : ∀ kind ∈ child.head.kinds, kind ∈ alphabet.kinds) (consumed : child.Consumes segment)
    (rest : List String) :
    segment.length ∈ (child.group alphabet).lengths (alphabet.encode (segment ++ rest)) :=
  (Pattern.mem_lengths_group_iff named _ _).mpr ⟨by simp, by simpa using consumed⟩

/-- Where the search fails there is no cut. -/
theorem not_cut_of_spansFrom?_eq_none {position : Nat} {kinds : List String} {shares : List Share}
    (named : Named alphabet items)
    (failed : spansFrom? (ofItems alphabet items) position (alphabet.encode kinds) = none) :
    ¬ Cut items kinds shares := by
  induction items generalizing position kinds shares with
  | nil =>
      rintro ⟨⟩
      simp [ofItems, spansFrom?, Alphabet.encode] at failed
  | cons item items ih =>
      intro cut
      cases cut with
      | @take _ _ index child segment rest shares chosen consumed others =>
      have restNamed : Named alphabet items :=
        fun other member => named other (List.mem_cons_of_mem _ member)
      have childNamed : ∀ kind ∈ child.head.kinds, kind ∈ alphabet.kinds :=
        named item (by simp) child (List.mem_of_getElem? chosen)
      simp only [ofItems, List.map_cons, spansFrom?, List.findSome?_eq_none_iff] at failed
      have restFailed := failed _ (mem_zipIdx_group chosen) _
        (length_mem_lengths childNamed consumed rest)
      rw [Option.map_eq_none_iff, drop_encode_append] at restFailed
      exact ih restNamed restFailed others

/-- What the search finds is the first cut. -/
theorem firstCut_of_spansFrom? {position : Nat} {kinds : List String} {spans : List (Option Span)}
    (named : Named alphabet items)
    (found : spansFrom? (ofItems alphabet items) position (alphabet.encode kinds) = some spans) :
    ∃ shares, FirstCut items kinds shares ∧ spans = groupSpans position items shares := by
  induction items generalizing position kinds spans with
  | nil =>
      cases kinds with
      | nil =>
          simp only [ofItems, List.map_nil, Alphabet.encode, spansFrom?, Option.some.injEq] at found
          subst found
          refine ⟨[], ⟨.done, ?_⟩, rfl⟩
          rintro _ ⟨⟩
          exact Or.inl rfl
      | cons kind kinds => simp [ofItems, Alphabet.encode, spansFrom?] at found
  | cons item items ih =>
      have restNamed : Named alphabet items :=
        fun other member => named other (List.mem_cons_of_mem _ member)
      have childNamed : ∀ {i : Nat} {other : Pattern}, item[i]? = some other →
          ∀ kind ∈ other.head.kinds, kind ∈ alphabet.kinds :=
        fun at_ => named item (by simp) _ (List.mem_of_getElem? at_)
      simp only [ofItems, List.map_cons, spansFrom?] at found
      -- The alternative that takes part, and that no earlier one can.
      obtain ⟨⟨group, index⟩, atIndex, foundLength, earlier⟩ :=
        findSome?_preferred (pairwise_zipIdx _) (fun _ _ => Nat.lt_asymm) found
      -- The length it takes, and that it cannot take more.
      obtain ⟨length, isLength, foundRest, longer⟩ :=
        findSome?_preferred (Group.pairwise_lengths _ _) (fun _ _ => Nat.lt_asymm) foundLength
      obtain ⟨child, chosen, rfl⟩ : ∃ child, item[index]? = some child ∧
          child.group alphabet = group := by
        rw [List.mem_zipIdx_iff_getElem?, List.getElem?_map, Option.map_eq_some_iff] at atIndex
        exact atIndex
      obtain ⟨inRange, consumed⟩ :=
        (Pattern.mem_lengths_group_iff (childNamed chosen) _ _).mp isLength
      obtain ⟨segment, rest, rfl, rfl⟩ : ∃ segment rest, kinds = segment ++ rest ∧
          segment.length = length :=
        ⟨kinds.take length, kinds.drop length, (List.take_append_drop length kinds).symm,
          List.length_take_of_le inRange⟩
      rw [List.take_left] at consumed
      obtain ⟨restSpans, foundSpans, rfl⟩ := Option.map_eq_some_iff.mp foundRest
      rw [drop_encode_append] at foundSpans
      obtain ⟨shares, restFirst, rfl⟩ := ih restNamed foundSpans
      refine ⟨⟨index, segment.length⟩ :: shares, restFirst.take chosen consumed ?_, ?_⟩
      · intro otherIndex other otherSegment otherRest otherShares whole otherChosen otherConsumed
          preferred
        have otherLength := length_mem_lengths (childNamed otherChosen) otherConsumed otherRest
        rw [whole] at otherLength
        rcases preferred with before | ⟨same, more⟩
        · have failed := earlier _ (mem_zipIdx_group otherChosen) before
          have restFailed := List.findSome?_eq_none_iff.mp failed _ otherLength
          rw [← whole, Option.map_eq_none_iff, drop_encode_append] at restFailed
          exact not_cut_of_spansFrom?_eq_none restNamed restFailed
        · obtain rfl : otherIndex = index := same
          obtain rfl : child = other := Option.some.inj (chosen.symm.trans otherChosen)
          have restFailed := longer _ otherLength more
          rw [← whole, Option.map_eq_none_iff, drop_encode_append] at restFailed
          exact not_cut_of_spansFrom?_eq_none restNamed restFailed
      · have within : index < item.length := (List.getElem?_eq_some_iff.mp chosen).1
        simp only [groupSpans, mapIdx_chosen _ within, List.length_map, List.append_assoc]

theorem spans?_eq_some_iff (named : Named alphabet items) (kinds : List String)
    (spans : List (Option Span)) :
    (ofItems alphabet items).spans? (alphabet.encode kinds) = some spans ↔
      ∃ shares, FirstCut items kinds shares ∧ spans = groupSpans 0 items shares := by
  constructor
  · exact firstCut_of_spansFrom? named
  · rintro ⟨shares, first, rfl⟩
    cases found : (ofItems alphabet items).spans? (alphabet.encode kinds) with
    | none => exact absurd first.isCut (not_cut_of_spansFrom?_eq_none named found)
    | some spans =>
        obtain ⟨others, otherFirst, rfl⟩ := firstCut_of_spansFrom? named found
        rw [first.unique otherFirst]

theorem isSome_spans?_iff (named : Named alphabet items) (kinds : List String) :
    ((ofItems alphabet items).spans? (alphabet.encode kinds)).isSome = true ↔
      ∃ shares, Cut items kinds shares := by
  constructor
  · intro some
    obtain ⟨spans, found⟩ := Option.isSome_iff_exists.mp some
    obtain ⟨shares, first, _⟩ := firstCut_of_spansFrom? named found
    exact ⟨shares, first.isCut⟩
  · rintro ⟨shares, cut⟩
    rw [Option.isSome_iff_ne_none]
    exact fun failed => not_cut_of_spansFrom?_eq_none named failed cut

end Regex

end HeaderBindings
