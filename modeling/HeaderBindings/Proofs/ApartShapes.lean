/-
Module: HeaderBindings.Proofs.ApartShapes
Purpose: At most one shape of the default grammar finds a node, so the order in which the shapes are
  registered decides no claim.
Main exports: Pattern.Apart, Claim.content, Rules.pairwise_apart_shapeList, Rules.claim_of_reads,
  Rules.claims_of_any_order
-/
import Mathlib.Data.List.Pairwise
import HeaderBindings.Proofs.AlphabetHistory
import HeaderBindings.Proofs.RecordFields

namespace HeaderBindings

theorem pairwise_of_related {α β : Type} {related : α → β → Prop} {between : β → β → Prop}
    {apart : α → α → Prop} {xs : List α} {ys : List β} (paired : List.Forall₂ related xs ys)
    (pairwise : ys.Pairwise between) (carried : ∀ x y other otherY, related x y →
      related other otherY → between y otherY → apart x other) : xs.Pairwise apart := by
  induction paired with
  | nil => exact .nil
  | @cons first other rest others isPair later ih =>
      rw [List.pairwise_cons] at pairwise ⊢
      refine ⟨?_, ih pairwise.2⟩
      intro x member
      obtain ⟨y, isOther, isRelated⟩ := exists_related_of_mem later member
      exact carried first other x y isPair isRelated (pairwise.1 y isOther)

/-! ### Patterns that share no node -/

namespace Pattern

variable {alphabet : Alphabet} {enclosing : Option Pattern} {one other part pattern : Pattern}
  {cursor : Cursor}

/-- No node is found by both of two patterns. -/
def Apart (one other : Pattern) : Prop :=
  ∀ alphabet cursor, Finds alphabet none one cursor → ¬ Finds alphabet none other cursor

theorem Apart.symm (apart : Apart one other) : Apart other one :=
  fun alphabet cursor otherFinds finds => apart alphabet cursor finds otherFinds

instance {Action : Type} : Std.Symm fun one other : Pattern × Action => Apart one.1 other.1 :=
  ⟨fun _ _ => Apart.symm⟩

/-- Patterns that name different kinds share no node. -/
theorem Apart.of_kinds (oneNamed : one.head.kinds ≠ []) (otherNamed : other.head.kinds ≠ [])
    (differ : ∀ kind ∈ one.head.kinds, kind ∉ other.head.kinds) : Apart one other := by
  intro alphabet cursor finds otherFinds
  exact differ _ (finds.kind_mem oneNamed) (otherFinds.kind_mem otherNamed)

theorem shape_of_not_recursive (plain : pattern.head.recursive = false) :
    pattern.shape enclosing = pattern := by
  simp [shape, plain]

/-- A node that is found has a child for each child of the shape that must occur. -/
theorem Finds.exists_required (finds : Finds alphabet enclosing pattern cursor)
    (plain : pattern.head.recursive = false) (unmixed : Unmixed pattern.children)
    (isPart : part ∈ pattern.children) (required : part.head.quantifier = .one) :
    ∃ child ∈ cursor.ofKinds part.head.kinds, Finds alphabet (some pattern) part child := by
  have shape : pattern.shape enclosing = pattern := shape_of_not_recursive plain
  have parts := finds.siblings (congrArg children shape) (List.ne_nil_of_mem isPart) unmixed
  obtain ⟨allowed, found⟩ := parts.2 part isPart
  rw [required] at allowed
  obtain ⟨child, only⟩ := List.length_eq_one_iff.mp allowed
  have member : child ∈ cursor.ofKinds part.head.kinds := by simp [only]
  rw [shape] at found
  exact ⟨child, member, found child member⟩

end Pattern

namespace Rules

open Pattern

variable {alphabet : Alphabet} {cursor : Cursor}

/-! ### The shapes of type definitions

Three shapes name type definitions. One of them lets a specifier have nothing but a tag; the others ask
for a body in it, of fields or of enumerators. -/

/-- A node has a child of one of some kinds that has a child of one kind. -/
def HasBody (specifiers : List String) (body : String) (cursor : Cursor) : Prop :=
  ∃ specifier ∈ cursor.named,
    specifier.kind ∈ specifiers ∧ ∃ child ∈ specifier.named, child.kind = body

/-- A type definition around a specifier holds the body that the specifier must have. -/
theorem hasBody_of_typedefAround {pattern part : Pattern} {body : String}
    (finds : Finds alphabet none (typedefAround pattern) cursor)
    (outer : Unmixed (typedefAround pattern).children) (plain : pattern.head.recursive = false)
    (one : pattern.head.quantifier = .one) (inner : Unmixed pattern.children)
    (isPart : part ∈ pattern.children) (required : part.head.quantifier = .one)
    (only : part.head.kinds = [body]) : HasBody pattern.head.kinds body cursor := by
  obtain ⟨specifier, isSpecifier, found⟩ :=
    finds.exists_required rfl outer List.mem_cons_self one
  obtain ⟨child, isChild, _⟩ := found.exists_required plain inner isPart required
  obtain ⟨inNode, kind⟩ := Cursor.mem_ofKinds.mp isSpecifier
  obtain ⟨inSpecifier, childKind⟩ := Cursor.mem_ofKinds.mp isChild
  rw [only] at childKind
  exact ⟨specifier, inNode, kind, child, inSpecifier, List.mem_singleton.mp childKind⟩

theorem hasBody_of_typedefAround_record
    (finds : Finds alphabet none (typedefAround recordPattern) cursor) :
    HasBody ["struct_specifier", "union_specifier"] "field_declaration_list" cursor :=
  hasBody_of_typedefAround finds (by decide) rfl rfl (by decide)
    (List.mem_cons_of_mem _ List.mem_cons_self) rfl rfl

theorem hasBody_of_typedefAround_enumeration
    (finds : Finds alphabet none (typedefAround enumerationPattern) cursor) :
    HasBody ["enum_specifier"] "enumerator_list" cursor :=
  hasBody_of_typedefAround finds (by decide) rfl rfl (by decide)
    (List.mem_cons_of_mem _ List.mem_cons_self) rfl rfl

/-- In a type definition without body, specifiers hold nothing but tags. -/
theorem not_hasBody_of_typedef {specifiers : List String} {body : String}
    (finds : Finds alphabet none typedefPattern cursor)
    (tagged : specifiers ⊆ ["struct_specifier", "union_specifier", "enum_specifier"])
    (noTag : body ≠ "type_identifier") : ¬ HasBody specifiers body cursor := by
  rintro ⟨specifier, member, kind, child, inside, isBody⟩
  obtain ⟨part, isPart, found⟩ := (finds.parts (List.cons_ne_nil _ _)).2 specifier member
  have onlyTag : ∀ part ∈ (typedefPattern.shape none).children, part.head.kinds ≠ [] ∧
      ∀ kind ∈ part.head.kinds, kind ∈ ["struct_specifier", "union_specifier", "enum_specifier"] →
        (part.shape (some (typedefPattern.shape none))).children = [leaf ["type_identifier"] .one] := by
    decide
  obtain ⟨named, tag⟩ := onlyTag part isPart
  have children := tag _ (found.kind_mem named) (tagged kind)
  have nonempty : (part.shape (some (typedefPattern.shape none))).children ≠ [] := by simp [children]
  obtain ⟨name, isName, nameFound⟩ := (found.parts nonempty).2 child inside
  rw [children] at isName
  obtain rfl := List.mem_singleton.mp isName
  exact noTag (isBody.symm.trans (nameFound.kind_eq rfl))

/-- In a type definition around an enumeration, no child is a struct or a union. -/
theorem not_hasBody_record_of_typedefAround_enumeration {body : String}
    (finds : Finds alphabet none (typedefAround enumerationPattern) cursor) :
    ¬ HasBody ["struct_specifier", "union_specifier"] body cursor := by
  rintro ⟨specifier, member, kind, _⟩
  obtain ⟨part, isPart, found⟩ := (finds.parts (List.cons_ne_nil _ _)).2 specifier member
  have noRecord : ∀ part ∈ (typedefAround enumerationPattern |>.shape none).children,
      part.head.kinds ≠ [] ∧
      ∀ kind ∈ part.head.kinds, kind ∉ ["struct_specifier", "union_specifier"] := by
    decide
  obtain ⟨named, other⟩ := noRecord part isPart
  exact other _ (found.kind_mem named) kind

theorem apart_typedef_record : Apart typedefPattern (typedefAround recordPattern) := by
  intro alphabet cursor finds otherFinds
  apply not_hasBody_of_typedef finds _ _ (hasBody_of_typedefAround_record otherFinds)
  · decide
  · decide

theorem apart_typedef_enumeration : Apart typedefPattern (typedefAround enumerationPattern) := by
  intro alphabet cursor finds otherFinds
  apply not_hasBody_of_typedef finds _ _ (hasBody_of_typedefAround_enumeration otherFinds)
  · decide
  · decide

theorem apart_record_enumeration :
    Apart (typedefAround recordPattern) (typedefAround enumerationPattern) := by
  intro alphabet cursor finds otherFinds
  apply not_hasBody_record_of_typedefAround_enumeration otherFinds
  exact hasBody_of_typedefAround_record finds

/-- No two shapes of the default grammar find the same node. -/
theorem pairwise_apart_shapeList : shapeList.Pairwise fun one other => Apart one.1 other.1 := by
  have separated : shapeList.Pairwise fun one other =>
      (one.1.head.kinds ≠ [] ∧ other.1.head.kinds ≠ [] ∧
        ∀ kind ∈ one.1.head.kinds, kind ∉ other.1.head.kinds) ∨
      (one.1 = typedefPattern ∧ other.1 = typedefAround recordPattern) ∨
      (one.1 = typedefPattern ∧ other.1 = typedefAround enumerationPattern) ∨
      (one.1 = typedefAround recordPattern ∧ other.1 = typedefAround enumerationPattern) := by
    decide
  apply separated.imp
  rintro ⟨one, _⟩ ⟨other, _⟩
    (⟨oneNamed, otherNamed, differ⟩ | ⟨rfl, rfl⟩ | ⟨rfl, rfl⟩ | ⟨rfl, rfl⟩)
  · exact .of_kinds oneNamed otherNamed differ
  · exact apart_typedef_record
  · exact apart_typedef_enumeration
  · exact apart_record_enumeration

end Rules

/-! ### Claims of any order -/

/-- What a claim says apart from codes: the pattern, the action, and the match. -/
def Claim.content {Action : Type} (claim : Claim Action) : Pattern × Option Action × Match :=
  (claim.entry.matcher.pattern, claim.entry.action, claim.found)

namespace Rules

open Pattern

section

variable {alphabet later : Alphabet} {table : Table Action} {cursor : Cursor}
  {listed : List (Pattern × Action)}

theorem IsEntryOf.stands {entry : Entry Action} {shape : Pattern × Action}
    (isEntry : IsEntryOf alphabet entry shape) (extends_ : alphabet.Extends later) :
    Matcher.Stands later none shape.1 none entry.matcher :=
  (isEntry.1.of_extends extends_).stands isEntry.2.1

theorem IsEntryOf.finds {entry : Entry Action} {shape : Pattern × Action}
    (isEntry : IsEntryOf alphabet entry shape) (extends_ : alphabet.Extends later)
    (found : (entry.matcher.find? later none cursor).isSome = true) :
    Finds later none shape.1 cursor :=
  ⟨none, entry.matcher, isEntry.stands extends_, found⟩

/-- The claim on a node is that of the shape that reads it, wherever the shape stands in the order, if
no two shapes share a node. -/
theorem content_claim?_eq_some_iff (filed : table.Filed)
    (entries : List.Forall₂ (IsEntryOf alphabet) table.entries listed)
    (named : ∀ shape ∈ listed, shape.1.head.kinds ≠ [])
    (apart : listed.Pairwise fun one other => Apart one.1 other.1) (extends_ : alphabet.Extends later)
    (content : Pattern × Option Action × Match) :
    (table.claim? later cursor).map Claim.content = some content ↔
      ∃ shape ∈ listed, ∃ found, Reads FirstCut none shape.1 cursor found ∧
        content = (shape.1, some shape.2, found) := by
  have ofClaim : ∀ claim, table.claim? later cursor = some claim → ∃ shape ∈ listed,
      IsEntryOf alphabet claim.entry shape ∧
      claim.entry.matcher.find? later none cursor = some claim.found := by
    intro claim claimed
    obtain ⟨candidate, finds⟩ := Table.candidate_of_claim? claimed
    have known := ((filed cursor.kind claim.entry).mp candidate).1
    obtain ⟨shape, isShape, isEntry⟩ := exists_related_of_mem entries known
    exact ⟨shape, isShape, isEntry, finds⟩
  constructor
  · intro claimed
    obtain ⟨claim, isClaim, rfl⟩ := Option.map_eq_some_iff.mp claimed
    obtain ⟨shape, isShape, isEntry, finds⟩ := ofClaim claim isClaim
    refine ⟨shape, isShape, claim.found, (isEntry.stands extends_).find?_eq_some_iff.mp finds, ?_⟩
    rw [Claim.content, isEntry.2.1, isEntry.2.2]
  · rintro ⟨shape, isShape, found, reads, rfl⟩
    obtain ⟨entry, known, (isEntry : IsEntryOf alphabet entry shape)⟩ :=
      exists_related_of_mem entries.flip isShape
    have finds := (isEntry.stands extends_).find?_eq_some_iff.mpr reads
    have names : cursor.kind ∈ entry.matcher.pattern.head.kinds := by
      rw [isEntry.2.1]
      exact (Head.accepts_iff (named shape isShape) _).mp reads.accepts
    have candidate := (filed cursor.kind entry).mpr ⟨known, names⟩
    obtain ⟨claim, isClaim⟩ : ∃ claim, table.claim? later cursor = some claim := by
      rw [← Option.isSome_iff_exists, Table.claim?, List.findSome?_isSome_iff]
      exact ⟨entry, candidate, by simp [finds]⟩
    -- Another shape might have claimed the node before; but none shares it with this one.
    obtain ⟨other, isOther, otherEntry, otherFinds⟩ := ofClaim claim isClaim
    obtain rfl : other = shape := by
      by_contra differs
      have sharesNone : Apart other.1 shape.1 :=
        apart.forall isOther isShape differs
      apply sharesNone later cursor (otherEntry.finds extends_ _) (isEntry.finds extends_ _)
      · simp [otherFinds]
      · simp [finds]
    have same : some claim.found = some found := by
      rw [← otherFinds]
      exact (otherEntry.stands extends_).find?_eq_some_iff.mpr reads
    rw [isClaim, Option.map_some, Claim.content, otherEntry.2.1, otherEntry.2.2,
      Option.some.inj same]

end

/-- A node that a shape of the default grammar reads is claimed by it. -/
theorem claim_of_reads {pattern : Pattern} {action : Action} {cursor : Cursor} {found : Match}
    (isShape : (pattern, action) ∈ shapeList) (reads : Reads FirstCut none pattern cursor found) :
    ∃ claim, table.claim? alphabet cursor = some claim ∧ claim.entry.matcher.pattern = pattern ∧
      claim.entry.action = some action := by
  have named : ∀ shape ∈ shapeList, shape.1.head.kinds ≠ [] := by decide
  have unchanged : Alphabet.Later alphabet alphabet := .same
  have content := (content_claim?_eq_some_iff table_filed table_entries named pairwise_apart_shapeList
    unchanged.extends (pattern, some action, found)).mpr
      ⟨(pattern, action), isShape, found, reads, rfl⟩
  obtain ⟨claim, isClaim, same⟩ := Option.map_eq_some_iff.mp content
  obtain ⟨isPattern, isAction, _⟩ : claim.entry.matcher.pattern = pattern ∧
      claim.entry.action = some action ∧ claim.found = found := by
    simpa [Claim.content] using same
  exact ⟨claim, isClaim, isPattern, isAction⟩

/-- At most one registered pattern of the default grammar finds a node, whatever kinds got codes since;
and registering the shapes in any other order, with any alphabet to start from, gives every node the
claim that it has: of the same pattern, with the same action and the same match. -/
theorem claims_of_any_order :
    (∀ later, alphabet.Later later → ∀ cursor, table.entries.Pairwise fun one other =>
      ¬ ((one.matcher.find? later none cursor).isSome = true ∧
        (other.matcher.find? later none cursor).isSome = true)) ∧
    ∃ listed, shapes = .ok listed ∧ ∀ shuffled, shuffled.Perm listed → ∀ start,
      ∃ other final, registerAll .empty start shuffled = (.ok other, final) ∧
        ∀ later, final.Later later → ∀ usual, alphabet.Later usual → ∀ cursor,
          (other.claim? later cursor).map Claim.content
            = (table.claim? usual cursor).map Claim.content := by
  have named : ∀ shape ∈ shapeList, shape.1.head.kinds ≠ [] := by decide
  constructor
  · intro later isLater cursor
    apply pairwise_of_related table_entries pairwise_apart_shapeList
    rintro one shape other otherShape isEntry otherEntry apart ⟨found, otherFound⟩
    exact apart later cursor (isEntry.finds isLater.extends found)
      (otherEntry.finds isLater.extends otherFound)
  · refine ⟨shapeList, shapes_eq, ?_⟩
    intro shuffled perm start
    have ofShuffled : ∀ shape ∈ shuffled, shape ∈ shapeList := fun shape => perm.mem_iff.mp
    obtain ⟨other, final, added, registered, _, entries, areEntries⟩ :=
      registerAll_entries (fun shape member => closed_of_mem_shapeList shape (ofShuffled shape member))
        (fun shape member => by simpa using named shape (ofShuffled shape member)) .empty start
    refine ⟨other, final, registered, ?_⟩
    intro later isLater usual isUsual cursor
    rw [Table.empty, List.nil_append] at entries
    rw [← entries] at areEntries
    apply Option.ext
    intro content
    rw [content_claim?_eq_some_iff (filed_of_registerAll Table.filed_empty registered) areEntries
        (fun shape member => named shape (ofShuffled shape member))
        (perm.symm.pairwise pairwise_apart_shapeList Apart.symm) isLater.extends,
      content_claim?_eq_some_iff table_filed table_entries named pairwise_apart_shapeList isUsual.extends]
    exact exists_congr fun shape => and_congr_left' perm.mem_iff

/-- With the shapes registered last to first, a definition of a record is still claimed as one. -/
theorem claims_of_any_order_lastFirst :
    ∃ other final, registerAll .empty .empty shapeList.reverse = (.ok other, final) ∧
      ∃ claim, other.claim? final (.root everyFormDefinition.tree) = some claim ∧
        claim.entry.action = some .declareTypedefRecord := by
  obtain ⟨_, listed, spelled, reordered⟩ := claims_of_any_order
  obtain rfl : shapeList = listed := Except.ok.inj (shapes_eq.symm.trans spelled)
  obtain ⟨other, final, registered, agrees⟩ :=
    reordered shapeList.reverse (List.reverse_perm shapeList) .empty
  have claimed : ((table.claim? alphabet (.root everyFormDefinition.tree)).map Claim.content).map
      (·.2.1) = some (some .declareTypedefRecord) := by
    rw [table_eq, alphabet_eq]
    decide +kernel
  rw [← agrees final .same alphabet .same] at claimed
  obtain ⟨content, isContent, isAction⟩ := Option.map_eq_some_iff.mp claimed
  obtain ⟨claim, isClaim, rfl⟩ := Option.map_eq_some_iff.mp isContent
  exact ⟨other, final, registered, claim, isClaim, isAction⟩

end Rules

end HeaderBindings
