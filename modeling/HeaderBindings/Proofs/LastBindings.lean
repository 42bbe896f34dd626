/-
Module: HeaderBindings.Proofs.LastBindings
Purpose: What the name of a type stands for at the end of a generated module: for the declared type with
  this name, also if an enumeration has it as well.
Main exports: Module.BindsLast, Module.bindingLines, Module.bindsLast_of_emitted,
  Module.not_bindsLast_enumeration
-/
import HeaderBindings.Proofs.BindingOrder

namespace HeaderBindings.Module

open Spelling

/-- The last of some lines that binds a name to a type is in a group of neighbouring lines. -/
def BindsLast (given group : List Line) (name : String) : Prop :=
  ∃ before after, given = before ++ group ++ after ∧ ∀ line ∈ after, line.binds ≠ some name

/-- The lines with which a module binds a declared type or an enumeration. -/
def bindingLines : Declaration → List Line
  | .record record => recordLines record
  | .typeAlias typeAlias =>
      if typeAlias.isOpaque then opaqueLines typeAlias else [.aliasLine typeAlias]
  | .enumeration enumeration => enumerationLines enumeration
  | .constant _ | .function _ => []

/-! ### The last binding among groups -/

section

variable {blanks : Nat} {group inner : List Line} {name : String}

theorem mem_spaced {groups : List (List Line)} {line : Line} (member : line ∈ spaced blanks groups) :
    line = .blank ∨ ∃ group ∈ groups, line ∈ group := by
  induction groups with
  | nil => cases member
  | cons first rest ih =>
      by_cases more : rest = []
      · subst more
        have own : line ∈ first := by simpa [spaced] using member
        exact Or.inr ⟨first, List.mem_cons_self, own⟩
      · rw [spaced_cons more] at member
        rcases List.mem_append.mp member with own | later
        · exact Or.inr ⟨first, List.mem_cons_self, own⟩
        · rcases List.mem_append.mp later with between | further
          · exact Or.inl (List.mem_replicate.mp between).2
          · rcases ih further with isBlank | ⟨group, isGroup, inGroup⟩
            · exact Or.inl isBlank
            · exact Or.inr ⟨group, List.mem_cons_of_mem _ isGroup, inGroup⟩

/-- The last binding in one of several groups is the last of all if no later group binds the name. -/
theorem BindsLast.spaced (before : List (List Line)) {after : List (List Line)}
    (last : BindsLast group inner name)
    (later : ∀ other ∈ after, ∀ line ∈ other, line.binds ≠ some name) :
    BindsLast (spaced blanks (before ++ group :: after)) inner name := by
  induction before with
  | nil =>
      obtain ⟨front, back, parts, unbound⟩ := last
      by_cases more : after = []
      · subst more
        refine ⟨front, back, ?_, unbound⟩
        simpa [Module.spaced] using parts
      · refine ⟨front, back ++ (List.replicate blanks .blank ++ Module.spaced blanks after), ?_, ?_⟩
        · rw [List.nil_append, spaced_cons more, parts]
          simp
        · intro line member
          rcases List.mem_append.mp member with own | behind
          · exact unbound line own
          · rcases List.mem_append.mp behind with between | further
            · rw [(List.mem_replicate.mp between).2]
              exact (Option.some_ne_none name).symm
            · rcases mem_spaced further with rfl | ⟨other, isOther, inOther⟩
              · exact (Option.some_ne_none name).symm
              · exact later other isOther line inOther
  | cons first rest ih =>
      obtain ⟨front, back, parts, unbound⟩ := ih
      refine ⟨first ++ (List.replicate blanks .blank ++ front), back, ?_, unbound⟩
      rw [List.cons_append, spaced_cons (by simp), parts]
      simp

/-- The last line that binds the name is the one that binds it in the group. -/
theorem BindsLast.getLast?_filter {given : List Line} (last : BindsLast given group name) {line : Line}
    (only : group.filter (fun line => line.binds == some name) = [line]) :
    (given.filter fun line => line.binds == some name).getLast? = some line := by
  obtain ⟨before, after, rfl, unbound⟩ := last
  have none_ : after.filter (fun line => line.binds == some name) = [] := by
    simpa [List.filter_eq_nil_iff] using unbound
  rw [List.filter_append, List.filter_append, only, none_, List.append_nil, List.getLast?_concat]

end

/-! ### The block of types -/

section

variable {registry : Registry} {inner : List Line} {name : String}

theorem binds_titledFunctions {titled : List Line}
    (isTitled : titledLines? registry .functions = some titled) :
    ∀ line ∈ titled, line.binds ≠ some name := by
  intro line member
  unfold titledLines? at isTitled
  split at isTitled
  · cases isTitled
  · cases isTitled
    rcases mem_spaced member with rfl | ⟨group, isGroup, inGroup⟩
    · exact (Option.some_ne_none name).symm
    · rcases List.mem_pair.mp isGroup with rfl | rfl
      · simp only [bannerLines, List.mem_cons, List.not_mem_nil, or_false] at inGroup
        rcases inGroup with rfl | rfl | rfl <;> exact (Option.some_ne_none name).symm
      · rcases mem_spaced inGroup with rfl | ⟨functionGroup, isFunction, inFunction⟩
        · exact (Option.some_ne_none name).symm
        · obtain ⟨function, _, rfl⟩ := List.mem_map.mp isFunction
          simp only [functionLines, List.mem_cons, List.not_mem_nil, or_false] at inFunction
          rcases inFunction with rfl | rfl <;> exact (Option.some_ne_none name).symm

theorem titledLines?_of_ne_nil {category : Category} (written : blockLines registry category ≠ []) :
    titledLines? registry category
      = some (spaced 1 [bannerLines category, blockLines registry category]) :=
  if_neg (by simpa using written)

/-- The last binding in the block of types is the last of the module: only functions come after it. -/
theorem BindsLast.layout (last : BindsLast (blockLines registry .types) inner name) (some_ : inner ≠ [])
    (library : Option String) : BindsLast (layout registry library) inner name := by
  have written : blockLines registry .types ≠ [] := by
    obtain ⟨before, after, parts, _⟩ := last
    rw [parts]
    simp [some_]
  have inTitled : BindsLast (Module.spaced 1 [bannerLines .types, blockLines registry .types]) inner
      name := last.spaced [bannerLines .types] (by simp)
  have order : blockOrder.filterMap (titledLines? registry)
      = [Category.constants, Category.enumerations].filterMap (titledLines? registry)
        ++ Module.spaced 1 [bannerLines .types, blockLines registry .types]
          :: [Category.functions].filterMap (titledLines? registry) := by
    have parts : blockOrder
        = [Category.constants, Category.enumerations] ++ ([Category.types] ++ [Category.functions]) := rfl
    rw [parts, List.filterMap_append, List.filterMap_append,
      List.filterMap_cons_some (titledLines?_of_ne_nil written)]
    rfl
  unfold Module.layout
  rw [order, ← List.append_assoc]
  apply inTitled.spaced
  intro group isGroup
  obtain ⟨category, isLast, isTitled⟩ := List.mem_filterMap.mp isGroup
  rw [List.mem_singleton.mp isLast] at isTitled
  exact binds_titledFunctions isTitled

/-! ### Declared types -/

/-- Declared types with one name are the same. -/
theorem eq_of_name (consistent : registry.Consistent) {one other : Declaration}
    (isOne : one ∈ registry.emitted.types) (isOther : other ∈ registry.emitted.types)
    (same : one.name = other.name) : one = other :=
  List.inj_on_of_nodup_map (nodup_typeNames consistent) isOne isOther same

theorem binds_classLines {declaration : Declaration} {group : List Line}
    (isClass : classLines? declaration = some group) {line : Line} (member : line ∈ group)
    (binds : line.binds = some name) : name = declaration.name := by
  cases declaration with
  | record r =>
      cases isClass
      simp only [recordLines, List.mem_cons, List.not_mem_nil, or_false] at member
      rcases member with rfl | rfl | rfl
      · exact (Option.some.inj binds).symm
      · cases binds
      · cases binds
  | typeAlias a =>
      simp only [classLines?] at isClass
      split at isClass
      · cases isClass
        simp only [opaqueLines, List.mem_cons, List.not_mem_nil, or_false] at member
        rcases member with rfl | rfl | rfl
        · exact (Option.some.inj binds).symm
        · cases binds
        · cases binds
      · cases isClass
  | constant | enumeration | function => cases isClass

/-- The lines with which fields are bound bind no type. -/
theorem binds_fields {group : List Line}
    (isGroup : group ∈ gathered 1 ((records registry).map fieldsLines)) :
    ∀ line ∈ group, line.binds ≠ some name := by
  intro line member
  unfold gathered at isGroup
  split at isGroup
  · cases isGroup
  · rw [List.mem_singleton.mp isGroup] at member
    rcases mem_spaced member with rfl | ⟨fields, isFields, inFields⟩
    · exact (Option.some_ne_none name).symm
    · obtain ⟨record, _, rfl⟩ := List.mem_map.mp isFields
      unfold fieldsLines at inFields
      split at inFields
      · rw [List.mem_singleton.mp inFields]
        exact (Option.some_ne_none name).symm
      · rcases List.mem_append.mp inFields with early | isEnd
        · rcases List.mem_append.mp early with isHead | isField
          · rw [List.mem_singleton.mp isHead]
            exact (Option.some_ne_none name).symm
          · obtain ⟨field, _, rfl⟩ := List.mem_map.mp isField
            exact (Option.some_ne_none name).symm
        · rw [List.mem_singleton.mp isEnd]
          exact (Option.some_ne_none name).symm

/-- The lines of further names bind these names. -/
theorem binds_plainAliases {group : List Line}
    (isGroup : group ∈ gathered 0 ((plainAliases registry).map fun typeAlias => [.aliasLine typeAlias]))
    {line : Line} (member : line ∈ group) (binds : line.binds = some name) :
    ∃ typeAlias ∈ plainAliases registry, typeAlias.name = name := by
  unfold gathered at isGroup
  split at isGroup
  · cases isGroup
  · rw [List.mem_singleton.mp isGroup] at member
    rcases mem_spaced member with rfl | ⟨single, isSingle, inSingle⟩
    · cases binds
    · obtain ⟨typeAlias, isAlias, rfl⟩ := List.mem_map.mp isSingle
      rw [List.mem_singleton.mp inSingle] at binds
      exact ⟨typeAlias, isAlias, Option.some.inj binds⟩

/-- The types that are declared after one have other names. -/
theorem further_names (consistent : registry.Consistent) {declaration : Declaration}
    (declared : declaration ∈ registry.emitted.types) :
    ∃ before after, registry.emitted.types = before ++ declaration :: after ∧
      ∀ other ∈ after, other.name ≠ declaration.name := by
  obtain ⟨before, after, parts⟩ := List.append_of_mem declared
  refine ⟨before, after, parts, ?_⟩
  have distinct := nodup_typeNames consistent
  rw [parts, List.map_append, List.map_cons] at distinct
  have own := (List.nodup_cons.mp (List.nodup_append.mp distinct).2.1).1
  intro other member same
  exact own (List.mem_map.mpr ⟨other, member, same⟩)

theorem gathered_of_mem {blanks : Nat} {groups : List (List Line)} {group : List Line}
    (member : group ∈ groups) : gathered blanks groups = [Module.spaced blanks groups] := by
  have nonempty : groups.isEmpty = false := by
    simpa using List.ne_nil_of_mem member
  rw [gathered, nonempty]
  rfl

theorem BindsLast.self (group : List Line) (name : String) : BindsLast group group name :=
  ⟨[], [], by simp, by simp⟩

/-- The class of a declared type is bound last in the block of types: other classes have other names, and
so have the further names of types. -/
theorem bindsLast_class (consistent : registry.Consistent) {declaration : Declaration} {group : List Line}
    (declared : declaration ∈ registry.emitted.types) (isClass : classLines? declaration = some group) :
    BindsLast (blockLines registry .types) group declaration.name := by
  obtain ⟨before, after, parts, further⟩ := further_names consistent declared
  have classes : classGroups registry = (registry.undeclaredTypes.map placeholderLines
      ++ before.filterMap classLines?) ++ group :: after.filterMap classLines? := by
    rw [classGroups, parts, List.filterMap_append, List.filterMap_cons_some isClass, List.append_assoc]
  have inClasses : BindsLast (Module.spaced 2 (classGroups registry)) group declaration.name := by
    rw [classes]
    apply (BindsLast.self group _).spaced
    intro other isOther line member binds
    obtain ⟨later, isLater, laterClass⟩ := List.mem_filterMap.mp isOther
    exact further later isLater (binds_classLines laterClass member binds).symm
  have isGroup : group ∈ classGroups registry := by
    rw [classes]
    simp
  have notAlias : ∀ typeAlias ∈ plainAliases registry, typeAlias.name ≠ declaration.name := by
    intro typeAlias isAlias same
    obtain ⟨isDeclared, plain⟩ := mem_plainAliases.mp isAlias
    obtain rfl : .typeAlias typeAlias = declaration := eq_of_name consistent isDeclared declared same
    simp [classLines?, plain] at isClass
  rw [blockLines, groups, typeGroups, gathered_of_mem isGroup, List.append_assoc, List.singleton_append]
  apply inClasses.spaced []
  intro other isOther line member
  rcases List.mem_append.mp isOther with ofAliases | ofFields
  · intro binds
    obtain ⟨typeAlias, isAlias, same⟩ := binds_plainAliases ofAliases member binds
    exact notAlias typeAlias isAlias same
  · exact binds_fields ofFields line member

/-- A further name of a type is bound last in the block of types. -/
theorem bindsLast_plainAlias (consistent : registry.Consistent) {typeAlias : Alias}
    (declared : .typeAlias typeAlias ∈ registry.emitted.types) (plain : typeAlias.isOpaque = false) :
    BindsLast (blockLines registry .types) [.aliasLine typeAlias] typeAlias.name := by
  obtain ⟨before, after, parts, further⟩ := further_names consistent declared
  have aliases : (plainAliases registry).map (fun typeAlias => [Line.aliasLine typeAlias])
      = (before.filterMap plainAlias?).map (fun typeAlias => [Line.aliasLine typeAlias])
        ++ [.aliasLine typeAlias]
          :: (after.filterMap plainAlias?).map fun typeAlias => [Line.aliasLine typeAlias] := by
    have isPlain : plainAlias? (.typeAlias typeAlias) = some typeAlias := by simp [plainAlias?, plain]
    rw [plainAliases, parts, List.filterMap_append, List.filterMap_cons_some isPlain, List.map_append,
      List.map_cons]
  have inAliases : BindsLast (Module.spaced 0 ((plainAliases registry).map fun typeAlias =>
      [Line.aliasLine typeAlias])) [.aliasLine typeAlias] typeAlias.name := by
    rw [aliases]
    apply (BindsLast.self _ _).spaced
    intro other isOther line member binds
    obtain ⟨later, isLater, rfl⟩ := List.mem_map.mp isOther
    rw [List.mem_singleton.mp member] at binds
    obtain ⟨declaration, isDeclaration, isPlain⟩ := List.mem_filterMap.mp isLater
    apply further declaration isDeclaration
    rw [name_of_plainAlias? isPlain]
    exact Option.some.inj binds
  have isGroup : [Line.aliasLine typeAlias]
      ∈ (plainAliases registry).map fun typeAlias => [Line.aliasLine typeAlias] := by
    rw [aliases]
    simp
  rw [blockLines, groups, typeGroups, gathered_of_mem isGroup, List.append_assoc]
  apply inAliases.spaced
  intro other isOther
  exact binds_fields isOther

/-- A declared type is what its name stands for at the end of a module. -/
theorem bindsLast_of_emitted (consistent : registry.Consistent) {declaration : Declaration}
    (declared : declaration ∈ registry.emitted.types) (library : Option String) :
    BindsLast (layout registry library) (bindingLines declaration) declaration.name := by
  have placed := consistent.placed .types declaration declared
  cases declaration with
  | record r => exact (bindsLast_class consistent declared rfl).layout (by simp [recordLines]) library
  | typeAlias a =>
      cases isOpaque : a.isOpaque with
      | true =>
          have ownLines : bindingLines (.typeAlias a) = opaqueLines a := if_pos isOpaque
          rw [ownLines]
          have isClass : classLines? (.typeAlias a) = some (opaqueLines a) := by
            simp [classLines?, isOpaque]
          exact (bindsLast_class consistent declared isClass).layout (by simp [opaqueLines]) library
      | false =>
          have ownLines : bindingLines (.typeAlias a) = [.aliasLine a] := if_neg (by simp [isOpaque])
          rw [ownLines]
          exact (bindsLast_plainAlias consistent declared isOpaque).layout (by simp) library
  | constant | enumeration | function => cases placed

theorem infix_spaced {blanks : Nat} {group : List Line} {groups : List (List Line)}
    (member : group ∈ groups) : group <:+: spaced blanks groups := by
  induction groups with
  | nil => cases member
  | cons first rest ih =>
      by_cases more : rest = []
      · subst more
        obtain rfl := List.mem_singleton.mp member
        simp [spaced]
      · rw [spaced_cons more]
        rcases List.mem_cons.mp member with rfl | later
        · exact (List.prefix_append _ _).isInfix
        · apply (ih later).trans
          rw [← List.append_assoc]
          exact (List.suffix_append _ _).isInfix

/-- A block with lines is part of its module. -/
theorem blockLines_within {category : Category} (written : blockLines registry category ≠ [])
    (library : Option String) : blockLines registry category <:+: layout registry library := by
  have inTitled : blockLines registry category
      <:+: spaced 1 [bannerLines category, blockLines registry category] := infix_spaced (by simp)
  apply inTitled.trans
  apply infix_spaced
  apply List.mem_append_right
  exact List.mem_filterMap.mpr
    ⟨category, by cases category <;> decide, titledLines?_of_ne_nil written⟩

/-- The fields of a declared record are bound in a module. -/
theorem fieldsLines_infix {record : Record} (declared : .record record ∈ registry.emitted.types)
    (library : Option String) : fieldsLines record <:+: layout registry library := by
  have isRecord : fieldsLines record ∈ (records registry).map fieldsLines :=
    List.mem_map_of_mem (List.mem_filterMap.mpr ⟨_, declared, rfl⟩)
  have inFields : spaced 1 ((records registry).map fieldsLines) ∈ typeGroups registry := by
    rw [typeGroups, gathered_of_mem isRecord]
    simp
  have inBlock : fieldsLines record <:+: blockLines registry .types :=
    (infix_spaced isRecord).trans (infix_spaced inFields)
  have written : blockLines registry .types ≠ [] := by
    apply inBlock.ne_nil
    unfold fieldsLines
    split <;> simp
  exact inBlock.trans (blockLines_within written library)

/-! ### Enumerations with the name of a declared type -/

/-- Of the lines of a declared type one binds its name, and it is no head of an enumeration. -/
theorem filter_bindingLines (consistent : registry.Consistent) {declaration : Declaration}
    (declared : declaration ∈ registry.emitted.types) :
    ∃ line,
      (bindingLines declaration).filter (fun line => line.binds == some declaration.name) = [line] ∧
      line ≠ .classHead declaration.name (.named "ctypes.c_int") := by
  have placed := consistent.placed .types declaration declared
  cases declaration with
  | record r =>
      refine ⟨.classHead r.name (.named (if r.isUnion then "ctypes.Union" else "ctypes.Structure")), ?_,
        ?_⟩
      · simp [bindingLines, recordLines, Line.binds, Declaration.name]
      · cases r.isUnion <;> simp
  | typeAlias a =>
      cases isOpaque : a.isOpaque with
      | true =>
          refine ⟨.classHead a.name a.target, ?_, ?_⟩
          · simp [bindingLines, isOpaque, opaqueLines, Line.binds, Declaration.name]
          · rw [consistent.opaqueTarget a declared isOpaque]
            simp [opaqueTarget]
      | false =>
          refine ⟨.aliasLine a, ?_, by simp⟩
          simp [bindingLines, isOpaque, Line.binds, Declaration.name]
  | constant | enumeration | function => cases placed

theorem filter_enumerationLines (enumeration : Enumeration) :
    (enumerationLines enumeration).filter (fun line => line.binds == some enumeration.name)
      = [.classHead enumeration.name (.named "ctypes.c_int")] := by
  have members : (enumeration.members.map fun member =>
      Line.plain (member.name ++ " = " ++ member.value)).filter
        (fun line => line.binds == some enumeration.name) = [] := by
    simp [List.filter_eq_nil_iff, Line.binds]
  unfold enumerationLines
  rw [List.filter_append, List.filter_append, members]
  split <;> simp [Line.binds, Line.blank]

/-- The class of an enumeration with the name of a declared type is not what the name stands for at the
end of a module. -/
theorem not_bindsLast_enumeration (consistent : registry.Consistent) {declaration : Declaration}
    (declared : declaration ∈ registry.emitted.types) {enumeration : Enumeration}
    (same : declaration.name = enumeration.name) (library : Option String) :
    ¬ BindsLast (layout registry library) (enumerationLines enumeration) enumeration.name := by
  intro last
  obtain ⟨line, only, other⟩ := filter_bindingLines consistent declared
  have ofType := (bindsLast_of_emitted consistent declared library).getLast?_filter only
  have ofEnumeration := last.getLast?_filter (filter_enumerationLines enumeration)
  rw [← same] at ofEnumeration
  exact other (Option.some.inj (ofType.symm.trans ofEnumeration))

end

end HeaderBindings.Module
