/-
Module: HeaderBindings.Proofs.AlphabetCodes
Purpose: What codes keep apart, and what later additions to an alphabet leave as it is.
Main exports: Alphabet.Extends, Alphabet.code_of_extends, Alphabet.code_eq_code_iff,
  Alphabet.code_mem_encode_iff
-/
import HeaderBindings.Matching.Matcher

namespace HeaderBindings

namespace Alphabet

/-- `large` has the kinds of `small`, in the same places, and maybe more after them. -/
def Extends (small large : Alphabet) : Prop :=
  ∃ added, large.kinds = small.kinds ++ added

namespace Extends

theorem refl (alphabet : Alphabet) : alphabet.Extends alphabet :=
  ⟨[], by simp⟩

theorem trans {a b c : Alphabet} (first : a.Extends b) (second : b.Extends c) : a.Extends c := by
  rcases first with ⟨ab, hab⟩
  rcases second with ⟨bc, hbc⟩
  exact ⟨ab ++ bc, by rw [hbc, hab, List.append_assoc]⟩

theorem mem_kinds {small large : Alphabet} (extends_ : small.Extends large) {kind : String}
    (named : kind ∈ small.kinds) : kind ∈ large.kinds := by
  rcases extends_ with ⟨added, equal⟩
  rw [equal]
  exact List.mem_append_left added named

end Extends

/-! ### Additions -/

theorem add_extends (alphabet : Alphabet) (kind : String) :
    alphabet.Extends (alphabet.add kind) := by
  unfold add
  split
  · exact Extends.refl alphabet
  · exact ⟨[kind], rfl⟩

theorem mem_kinds_add (alphabet : Alphabet) (kind : String) : kind ∈ (alphabet.add kind).kinds := by
  unfold add
  split
  · rename_i has
    exact List.contains_iff_mem.mp has
  · simp

theorem addAll_extends (alphabet : Alphabet) (kinds : List String) :
    alphabet.Extends (alphabet.addAll kinds) := by
  induction kinds generalizing alphabet with
  | nil => exact Extends.refl alphabet
  | cons kind kinds ih => exact (alphabet.add_extends kind).trans (ih (alphabet.add kind))

theorem mem_kinds_addAll (alphabet : Alphabet) {kinds : List String} {kind : String}
    (named : kind ∈ kinds) : kind ∈ (alphabet.addAll kinds).kinds := by
  induction kinds generalizing alphabet with
  | nil => cases named
  | cons first rest ih =>
      rcases List.mem_cons.mp named with rfl | later
      · exact (addAll_extends (alphabet.add kind) rest).mem_kinds (alphabet.mem_kinds_add kind)
      · exact ih (alphabet.add first) later

/-! ### Codes

A kind with a code of its own shares it with no other kind, whether that one was added or not, and
keeps it when further kinds are added. -/

theorem code_eq_code_iff (alphabet : Alphabet) {named other : String}
    (has : named ∈ alphabet.kinds) : alphabet.code other = alphabet.code named ↔ other = named := by
  constructor
  · intro same
    obtain ⟨index, found⟩ : ∃ index, alphabet.kinds.idxOf? named = some index := by
      cases found : alphabet.kinds.idxOf? named with
      | none => exact absurd has (List.idxOf?_eq_none_iff.mp found)
      | some index => exact ⟨index, rfl⟩
    cases found' : alphabet.kinds.idxOf? other with
    | none =>
        simp only [code, found, found', otherCode, firstCode] at same
        omega
    | some index' =>
        simp only [code, found, found', Nat.add_left_cancel_iff] at same
        subst same
        obtain ⟨_, atIndex, _⟩ := List.idxOf?_eq_some_iff.mp found
        obtain ⟨_, atIndex', _⟩ := List.idxOf?_eq_some_iff.mp found'
        exact atIndex'.symm.trans atIndex
  · rintro rfl
    rfl

theorem code_mem_encode_iff (alphabet : Alphabet) {kinds : List String}
    (has : ∀ kind ∈ kinds, kind ∈ alphabet.kinds) (kind : String) :
    alphabet.code kind ∈ alphabet.encode kinds ↔ kind ∈ kinds := by
  simp only [encode, List.mem_map]
  constructor
  · rintro ⟨named, member, same⟩
    rw [(alphabet.code_eq_code_iff (has named member)).mp same.symm]
    exact member
  · intro member
    exact ⟨kind, member, rfl⟩

theorem code_of_extends {small large : Alphabet} (extends_ : small.Extends large) {kind : String}
    (has : kind ∈ small.kinds) : large.code kind = small.code kind := by
  rcases extends_ with ⟨added, equal⟩
  have place : large.kinds.idxOf? kind = small.kinds.idxOf? kind := by
    rw [equal]
    unfold List.idxOf?
    rw [List.findIdx?_append]
    cases found : small.kinds.findIdx? (· == kind) with
    | none =>
        have differs := List.findIdx?_eq_none_iff.mp found kind has
        simp at differs
    | some index => rfl
  simp only [code, place]

theorem encode_of_extends {small large : Alphabet} (extends_ : small.Extends large)
    {kinds : List String} (has : ∀ kind ∈ kinds, kind ∈ small.kinds) :
    large.encode kinds = small.encode kinds :=
  List.map_congr_left fun kind member => code_of_extends extends_ (has kind member)

end Alphabet

namespace Pattern

theorem addKinds_extends (alphabet : Alphabet) (patterns : List Pattern) :
    alphabet.Extends (addKinds alphabet patterns) := by
  induction patterns generalizing alphabet with
  | nil => exact .refl alphabet
  | cons first rest ih => exact (alphabet.addAll_extends first.head.kinds).trans (ih _)

theorem mem_kinds_addKinds (alphabet : Alphabet) {patterns : List Pattern} {pattern : Pattern}
    (member : pattern ∈ patterns) {kind : String} (named : kind ∈ pattern.head.kinds) :
    kind ∈ (addKinds alphabet patterns).kinds := by
  induction patterns generalizing alphabet with
  | nil => cases member
  | cons first rest ih =>
      rcases List.mem_cons.mp member with rfl | later
      · exact (addKinds_extends _ rest).mem_kinds (alphabet.mem_kinds_addAll named)
      · exact ih (alphabet.addAll first.head.kinds) later

end Pattern

end HeaderBindings
