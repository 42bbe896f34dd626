/-
Module: HeaderBindings.Proofs.NumberedNames
Purpose: Names that are made up: each is the first free one of a stem's numbered names, and it is handed
  out for one key only, whatever happens between two calls.
Main exports: numbered_injective, freshName_spec, Registry.uniqueName_cases, Registry.DistinctNames,
  NameCall, Registry.answers, Registry.answers_distinct_and_least
-/
import HeaderBindings.Binding.Registry
import Mathlib.Data.List.Nodup
import Mathlib.Data.List.Perm.Subperm
import Mathlib.Order.Bounds.Defs

namespace HeaderBindings

/-! ### The first free number -/

theorem numbered_injective (stem : String) :
    Function.Injective fun number : Nat => stem ++ toString number := by
  intro one other same
  have digits : Nat.toDigits 10 one = Nat.toDigits 10 other := by
    simpa using congrArg String.toList same
  simpa using congrArg (fun digits => Nat.ofDigitChars 10 digits 0) digits

/-- Of the numbered names of a stem one more than there are in a list is not in the list. -/
theorem exists_numbered_not_mem (taken : List String) (stem : String) :
    ∃ number ∈ List.range (taken.length + 1), stem ++ toString number ∉ taken := by
  by_contra allTaken
  have inside : (List.range (taken.length + 1)).map (fun number => stem ++ toString number) ⊆ taken := by
    intro name member
    obtain ⟨number, inRange, rfl⟩ := List.mem_map.mp member
    exact not_not.mp fun free => allTaken ⟨number, inRange, free⟩
  have distinct : ((List.range (taken.length + 1)).map fun number =>
      stem ++ toString number).Nodup := List.nodup_range.map (numbered_injective stem)
  have tooMany := (List.subperm_of_subset distinct inside).length_le
  rw [List.length_map, List.length_range] at tooMany
  omega

/-- A fresh name has the least number whose name is not taken, and this number is at most the count of
taken names. -/
theorem freshName_spec (taken : List String) (stem : String) :
    ∃ number ≤ taken.length, Registry.freshName taken stem = stem ++ toString number ∧
      IsLeast {other : Nat | stem ++ toString other ∉ taken} number := by
  obtain ⟨free, inRange, isFree⟩ := exists_numbered_not_mem taken stem
  unfold Registry.freshName
  dsimp only
  rw [List.find?_map]
  cases found : (List.range (taken.length + 1)).find?
      ((fun name => !taken.contains name) ∘ fun number => stem ++ toString number) with
  | none =>
      have isTaken := List.find?_eq_none.mp found free inRange
      exact absurd (by simpa using isTaken) isFree
  | some number =>
      obtain ⟨notTaken, inside, before⟩ := List.find?_range_eq_some.mp found
      refine ⟨number, ?_, rfl, ?_, ?_⟩
      · have := List.mem_range.mp inside
        omega
      · show stem ++ toString number ∉ taken
        simpa using notTaken
      · intro other otherFree
        by_contra less
        have isTaken := before other (by omega)
        simp at isTaken
        exact otherFree isTaken

namespace Registry

variable {registry before after : Registry} {category : Category} {stem name : String}

/-! ### What is remembered -/

/-- A name for a key is the one that is remembered, and nothing changes; or none is remembered, and the
name is fresh and is remembered from now on. -/
theorem uniqueName_cases {key : List Int}
    (made : (name, after) = before.uniqueName category stem (some key)) :
    before.anonymous.lookup ⟨category, stem, before.currentHeader, key⟩ = some name ∧
      after = before ∨
      before.anonymous.lookup ⟨category, stem, before.currentHeader, key⟩ = none ∧
        name = freshName (before.taken category) stem ∧
        after = { before with
          anonymous := before.anonymous ++ [(⟨category, stem, before.currentHeader, key⟩, name)] } := by
  unfold uniqueName nameFor at made
  dsimp only at made
  split at made
  · rename_i known isKnown
    obtain ⟨rfl, rfl⟩ := Prod.mk.inj made
    exact Or.inl ⟨isKnown, rfl⟩
  · rename_i unknown
    obtain ⟨rfl, rfl⟩ := Prod.mk.inj made
    exact Or.inr ⟨unknown, rfl, rfl⟩

/-- Making up a name changes only which made-up names are remembered. -/
theorem uniqueName_frame {key : Option (List Int)}
    (made : (name, after) = before.uniqueName category stem key) :
    after = { before with anonymous := after.anonymous } := by
  cases key with
  | none => rw [(Prod.mk.inj made).2]
  | some key =>
      rcases uniqueName_cases made with ⟨_, same⟩ | ⟨_, _, noted⟩
      · rw [same]
      · rw [noted]

theorem emitted_uniqueName {key : Option (List Int)}
    (made : (name, after) = before.uniqueName category stem key) : after.emitted = before.emitted := by
  rw [uniqueName_frame made]

/-- A fresh name is neither remembered nor reserved. -/
theorem freshName_not_mem (registry : Registry) (category : Category) (stem : String) :
    freshName (registry.taken category) stem ∉ registry.anonymous.map (·.2) ∧
      registry.isDeclared category (freshName (registry.taken category) stem) = false := by
  obtain ⟨number, _, isName, notTaken, _⟩ := freshName_spec (registry.taken category) stem
  rw [isName]
  have free := List.mem_append.not.mp notTaken
  rw [not_or] at free
  exact ⟨free.1, by simpa [isDeclared] using free.2⟩

/-- A name that is not there, or is declared already, is not fresh: it was remembered. -/
theorem eq_of_uniqueName_blocked {key : List Int}
    (made : (name, after) = before.uniqueName category stem (some key))
    (blocked : name = "" ∨ before.isDeclared category name = true) : after = before := by
  rcases uniqueName_cases made with ⟨_, same⟩ | ⟨_, rfl, _⟩
  · exact same
  · exfalso
    rcases blocked with unnamed | declared
    · obtain ⟨number, _, spelled, _⟩ := freshName_spec (before.taken category) stem
      rw [spelled, String.append_eq_empty_iff] at unnamed
      exact Nat.repr_ne_empty unnamed.2
    · rw [(freshName_not_mem before category stem).2] at declared
      cases declared

/-- What is remembered: one name for each key, and one key for each name. -/
structure DistinctNames (registry : Registry) : Prop where
  keys : (registry.anonymous.map (·.1)).Nodup
  names : (registry.anonymous.map (·.2)).Nodup

theorem distinctNames_empty : empty.DistinctNames := ⟨List.nodup_nil, List.nodup_nil⟩

theorem DistinctNames.uniqueName {key : List Int} (distinct : before.DistinctNames)
    (made : (name, after) = before.uniqueName category stem (some key)) : after.DistinctNames := by
  rcases uniqueName_cases made with ⟨_, rfl⟩ | ⟨unknown, rfl, rfl⟩
  · exact distinct
  · constructor
    · rw [List.map_append, List.map_singleton, List.nodup_append_comm, List.singleton_append,
        List.nodup_cons]
      refine ⟨fun member => ?_, distinct.keys⟩
      obtain ⟨⟨_, found⟩, inside, rfl⟩ := List.mem_map.mp member
      have different := List.lookup_eq_none_iff.mp unknown _ inside
      simp at different
    · rw [List.map_append, List.map_singleton, List.nodup_append_comm, List.singleton_append,
        List.nodup_cons]
      exact ⟨(freshName_not_mem before category stem).1, distinct.names⟩

theorem DistinctNames.lookup_eq_some_iff {key : AnonymousKey} (distinct : registry.DistinctNames) :
    registry.anonymous.lookup key = some name ↔ (key, name) ∈ registry.anonymous := by
  constructor
  · intro found
    obtain ⟨_, _, listed, _⟩ := List.lookup_eq_some_iff.mp found
    exact listed ▸ List.mem_append_right _ List.mem_cons_self
  · intro member
    cases found : registry.anonymous.lookup key with
    | none =>
        have different := List.lookup_eq_none_iff.mp found _ member
        simp at different
    | some other =>
        obtain ⟨_, _, listed, _⟩ := List.lookup_eq_some_iff.mp found
        have isOther : (key, other) ∈ registry.anonymous :=
          listed ▸ List.mem_append_right _ List.mem_cons_self
        have same := List.inj_on_of_nodup_map distinct.keys isOther member rfl
        rw [(Prod.mk.inj same).2]

end Registry

/-! ### Calls -/

/-- The calls on a registry that names which are made up depend on. -/
inductive NameCall where
  | beginHeader (header : String)
  | declare (category : Category) (name : String)
  | uniqueName (category : Category) (stem : String) (key : List Int)
deriving Repr, DecidableEq

namespace NameCall

/-- The registry after a call. -/
def after (registry : Registry) : NameCall → Registry
  | beginHeader header => registry.beginHeader header
  | declare category name => (registry.declare category name).2
  | uniqueName category stem key => (registry.uniqueName category stem (some key)).2

/-- The name that a call asks for, if it does, with all that tells what it is asked for. -/
def answer? (registry : Registry) : NameCall → Option (AnonymousKey × String)
  | uniqueName category stem key =>
      some (⟨category, stem, registry.currentHeader, key⟩,
        (registry.uniqueName category stem (some key)).1)
  | _ => none

end NameCall

namespace Registry

variable {registry : Registry} {handedOut : List (AnonymousKey × String)}

/-- The registry after several calls. -/
def afterCalls (registry : Registry) (calls : List NameCall) : Registry :=
  calls.foldl NameCall.after registry

/-- The names that calls are answered with, one after another. -/
def answers (registry : Registry) : List NameCall → List (AnonymousKey × String)
  | [] => []
  | call :: rest => (call.answer? registry).toList ++ answers (call.after registry) rest

/-- A registry remembers what was handed out: all of it, and nothing else. -/
structure HandedOut (registry : Registry) (handedOut : List (AnonymousKey × String)) : Prop
    extends registry.DistinctNames where
  remembered : ∀ entry, entry ∈ registry.anonymous ↔ entry ∈ handedOut

namespace HandedOut

theorem empty : Registry.empty.HandedOut [] where
  toDistinctNames := distinctNames_empty
  remembered _ := Iff.rfl

/-- Whatever a call is, what it answers is remembered after it, besides all that was. -/
theorem after (handed : registry.HandedOut handedOut) (call : NameCall) :
    (call.after registry).HandedOut (handedOut ++ (call.answer? registry).toList) := by
  cases call with
  | beginHeader header =>
      refine ⟨⟨handed.keys, handed.names⟩, ?_⟩
      rw [NameCall.answer?, Option.toList_none, List.append_nil]
      · exact handed.remembered
      · simp
  | declare category name =>
      have same : ((NameCall.declare category name).after registry).anonymous = registry.anonymous := by
        unfold NameCall.after Registry.declare
        dsimp only
        split <;> rfl
      refine ⟨⟨same ▸ handed.keys, same ▸ handed.names⟩, fun entry => ?_⟩
      simpa [same, NameCall.answer?] using handed.remembered entry
  | uniqueName category stem key =>
      cases made : registry.uniqueName category stem (some key) with
      | mk name left =>
          have isAfter : (NameCall.uniqueName category stem key).after registry = left := by
            rw [NameCall.after, made]
          refine ⟨isAfter ▸ handed.toDistinctNames.uniqueName made.symm, fun entry => ?_⟩
          rw [isAfter, NameCall.answer?, made, Option.toList_some, List.mem_append,
            List.mem_singleton, ← handed.remembered]
          rcases uniqueName_cases made.symm with ⟨known, rfl⟩ | ⟨_, _, rfl⟩
          · have isKnown := handed.lookup_eq_some_iff.mp known
            exact ⟨Or.inl, fun either => either.elim id fun isAnswer => isAnswer ▸ isKnown⟩
          · rw [List.mem_append, List.mem_singleton]

theorem afterCalls (handed : registry.HandedOut handedOut) (calls : List NameCall) :
    (registry.afterCalls calls).HandedOut (handedOut ++ registry.answers calls) := by
  induction calls generalizing registry handedOut with
  | nil => simpa [Registry.afterCalls, answers] using handed
  | cons call rest ih =>
      rw [answers, ← List.append_assoc]
      exact ih (handed.after call)

/-- Two names that were handed out are the same exactly if they were asked for as the same. -/
theorem key_eq_iff (handed : registry.HandedOut handedOut) {one other : AnonymousKey × String}
    (isOne : one ∈ handedOut) (isOther : other ∈ handedOut) : one.1 = other.1 ↔ one.2 = other.2 := by
  rw [← handed.remembered] at isOne isOther
  constructor
  · intro sameKey
    rw [List.inj_on_of_nodup_map handed.keys isOne isOther sameKey]
  · intro sameName
    rw [List.inj_on_of_nodup_map handed.names isOne isOther sameName]

end HandedOut

/-- However headers begin, names are declared and names are made up in a run: two names that are made up
are the same exactly if they are asked for in the same category, with the same stem, under the same header
and with the same key. What is asked for next either has its name already, and gets it again, or gets the
name with the least number whose name neither is declared in the category by then nor was handed out
before; there always is one, at most as large as the count of all these names. -/
theorem answers_distinct_and_least (calls : List NameCall) (category : Category) (stem : String)
    (key : List Int) :
    let here := empty.afterCalls calls
    let asked : AnonymousKey := ⟨category, stem, here.currentHeader, key⟩
    let name := (here.uniqueName category stem (some key)).1
    let handedOut := empty.answers calls
    (∀ one ∈ handedOut, ∀ other ∈ handedOut, one.1 = other.1 ↔ one.2 = other.2) ∧
      ((asked, name) ∈ handedOut ∨
        asked ∉ handedOut.map (·.1) ∧ ∃ number ≤ (here.taken category).length,
          name = stem ++ toString number ∧
          IsLeast {other : Nat | here.isDeclared category (stem ++ toString other) = false ∧
            stem ++ toString other ∉ handedOut.map (·.2)} number) := by
  intro here asked name handedOut
  have handed : here.HandedOut handedOut := HandedOut.empty.afterCalls calls
  refine ⟨fun one isOne other isOther => handed.key_eq_iff isOne isOther, ?_⟩
  rcases uniqueName_cases (rfl : (name, _) = here.uniqueName category stem (some key)) with
    ⟨known, _⟩ | ⟨unknown, isName, _⟩
  · exact Or.inl ((handed.remembered _).mp (handed.lookup_eq_some_iff.mp known))
  · refine Or.inr ⟨fun member => ?_, ?_⟩
    · obtain ⟨⟨_, found⟩, inside, rfl⟩ := List.mem_map.mp member
      have isKnown := handed.lookup_eq_some_iff.mpr ((handed.remembered _).mpr inside)
      rw [unknown] at isKnown
      cases isKnown
    · obtain ⟨number, bounded, spelled, least⟩ := freshName_spec (here.taken category) stem
      refine ⟨number, bounded, isName.trans spelled, ?_⟩
      -- A name is taken if it is declared in the category or remembered for any key.
      have free : ∀ other : Nat, stem ++ toString other ∉ here.taken category ↔
          here.isDeclared category (stem ++ toString other) = false ∧
            stem ++ toString other ∉ handedOut.map (·.2) := by
        intro other
        have same : stem ++ toString other ∈ here.anonymous.map (·.2) ↔
            stem ++ toString other ∈ handedOut.map (·.2) := by
          simp only [List.mem_map, handed.remembered]
        rw [taken, List.mem_append, not_or, same, isDeclared, List.contains_eq_mem,
          decide_eq_false_iff_not, and_comm]
      simpa only [free] using least

/-- Stems that begin alike, in two categories and under two headers. -/
example : empty.answers [.uniqueName .enumerations "A1" [0], .declare .types "A0",
      .uniqueName .types "A" [0], .beginHeader "a.h", .uniqueName .types "A" [0], .beginHeader "",
      .uniqueName .types "A" [0]]
    = [(⟨.enumerations, "A1", "", [0]⟩, "A10"), (⟨.types, "A", "", [0]⟩, "A1"),
        (⟨.types, "A", "a.h", [0]⟩, "A2"), (⟨.types, "A", "", [0]⟩, "A1")] := by
  decide +kernel

end Registry

end HeaderBindings
