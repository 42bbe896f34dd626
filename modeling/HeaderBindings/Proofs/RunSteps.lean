/-
Module: HeaderBindings.Proofs.RunSteps
Purpose: When a step over a registry returns, with which value, and which registry it leaves.
Main exports: Run.Returns, Run.returns_bind_iff, Run.capture_bind_eq, Run.returns_declare_iff,
  Run.returns_target_iff
-/
import HeaderBindings.Binding.Run
import HeaderBindings.Proofs.FaultySteps
import HeaderBindings.Proofs.TypeReferences

namespace HeaderBindings

open Spelling

/-! ### Notes of several types -/

/-- The registry after a declaration has noted the types it uses. -/
def Registry.referAll (registry : Registry) (names : List String) : Registry :=
  names.foldl Registry.refer registry

namespace Run

variable {α β : Type} {before after : Registry}

/-- A step returns a value from a registry and leaves another one. -/
def Returns (step : Run α) (before : Registry) (value : α) (after : Registry) : Prop :=
  (ExceptT.run step).run before = (.ok value, after)

instance [DecidableEq α] (step : Run α) (before : Registry) (value : α) (after : Registry) :
    Decidable (step.Returns before value after) :=
  match result : (ExceptT.run step).run before with
  | (.ok given, left) =>
      decidable_of_iff (given = value ∧ left = after) <| by
        rw [Returns, result]
        constructor
        · rintro ⟨rfl, rfl⟩
          rfl
        · intro same
          cases same
          exact ⟨rfl, rfl⟩
  | (.error _, _) => .isFalse <| by
      rw [Returns, result]
      intro same
      cases same

/-! ### Steps in general -/

@[simp] theorem returns_pure_iff {given value : α} :
    (pure given : Run α).Returns before value after ↔ value = given ∧ after = before := by
  constructor
  · intro returns
    cases returns
    exact ⟨rfl, rfl⟩
  · rintro ⟨rfl, rfl⟩
    rfl

@[simp] theorem not_returns_throw {fault : RunFault} {value : α} :
    ¬ (throw fault : Run α).Returns before value after := by
  intro returns
  cases returns

/-- A sequence returns what its second step returns from the registry that the first one leaves. -/
theorem returns_bind_iff {first : Run α} {next : α → Run β} {value : β} :
    (first >>= next).Returns before value after ↔
      ∃ middle between, first.Returns before middle between ∧
        (next middle).Returns between value after := by
  unfold Returns
  rw [run_bind]
  rcases (ExceptT.run first).run before with ⟨result, between⟩
  constructor
  · intro returns
    cases result with
    | error fault => cases returns
    | ok middle => exact ⟨middle, between, rfl, returns⟩
  · rintro ⟨middle, state, first, rest⟩
    cases first
    exact rest

theorem Returns.bind {first : Run α} {next : α → Run β} {middle : α} {between : Registry} {value : β}
    (returns : first.Returns before middle between)
    (rest : (next middle).Returns between value after) :
    (first >>= next).Returns before value after :=
  returns_bind_iff.mpr ⟨middle, between, returns, rest⟩

/-- A step returns at most one value, and leaves at most one registry with it. -/
theorem Returns.unique {step : Run α} {value other : α} {left : Registry}
    (one : step.Returns before value after) (two : step.Returns before other left) :
    other = value ∧ left = after := by
  have same := two.symm.trans one
  cases same
  exact ⟨rfl, rfl⟩

@[simp] theorem returns_get_iff {value : Registry} :
    (get : Run Registry).Returns before value after ↔ value = before ∧ after = before := by
  constructor
  · intro returns
    cases returns
    exact ⟨rfl, rfl⟩
  · rintro ⟨rfl, rfl⟩
    rfl

@[simp] theorem returns_modifyGet_iff {change : Registry → α × Registry} {value : α} :
    (modifyGet change : Run α).Returns before value after ↔ (value, after) = change before := by
  constructor
  · intro returns
    cases returns
    rfl
  · intro changed
    obtain ⟨rfl, rfl⟩ := Prod.mk.inj changed
    rfl

@[simp] theorem returns_modify_iff {change : Registry → Registry} {value : Unit} :
    (modify change : Run Unit).Returns before value after ↔ after = change before := by
  constructor
  · intro returns
    cases returns
    rfl
  · rintro rfl
    rfl

/-! ### Basic steps -/

/-- A free name is reserved; a reserved one stays as it is. -/
theorem returns_declare_iff {category : Category} {name : String} {free : Bool} :
    (declare category name).Returns before free after ↔
      (before.isDeclared category name = false ∧ free = true ∧
        after = before.reserve category name) ∨
      (before.isDeclared category name = true ∧ free = false ∧ after = before) := by
  unfold declare Registry.declare
  rw [returns_modifyGet_iff]
  cases before.isDeclared category name <;> simp

@[simp] theorem returns_emit_iff {category : Category} {declaration : Declaration} {value : Unit} :
    (emit category declaration).Returns before value after ↔
      after = before.emit category declaration := by
  unfold emit
  exact returns_modify_iff

@[simp] theorem returns_ofExcept_iff {ε : Type} {fault : ε → RunFault} {result : Except ε α}
    {value : α} :
    (ofExcept fault result).Returns before value after ↔ result = .ok value ∧ after = before := by
  cases result with
  | ok given =>
      rw [ofExcept, returns_pure_iff, Except.ok.injEq, eq_comm (a := given)]
  | error error => simp [ofExcept]

@[simp] theorem returns_capture_iff {captures : List Capture} {index : Nat} {value : Capture} :
    (capture captures index).Returns before value after ↔
      captures[index]? = some value ∧ after = before := by
  unfold capture
  cases captures[index]? with
  | none => simp
  | some given => rw [returns_pure_iff, Option.some.injEq, eq_comm (a := given)]

/-- A step that starts with a capture that is there goes on with it. -/
theorem capture_bind_eq {captures : List Capture} {index : Nat} {first : Capture} {next : Capture → Run β}
    (isFirst : captures[index]? = some first) : capture captures index >>= next = next first := by
  rw [capture, isFirst]
  exact pure_bind _ _

/-- A step that starts with a capture returns if the capture is there and what goes on with it returns. -/
theorem returns_capture_bind_iff {captures : List Capture} {index : Nat} {next : Capture → Run β}
    {value : β} :
    (capture captures index >>= next).Returns before value after ↔
      ∃ first, captures[index]? = some first ∧ (next first).Returns before value after := by
  rw [returns_bind_iff]
  constructor
  · rintro ⟨first, _, captured, rest⟩
    obtain ⟨isFirst, rfl⟩ := returns_capture_iff.mp captured
    exact ⟨first, isFirst, rest⟩
  · rintro ⟨first, isFirst, rest⟩
    exact ⟨first, before, returns_capture_iff.mpr ⟨isFirst, rfl⟩, rest⟩

@[simp] theorem returns_decimal_iff {n : Int} {value : String} :
    (decimal n).Returns before value after ↔
      Number.writeInteger n = some value ∧ after = before := by
  unfold decimal
  cases Number.writeInteger n with
  | none => simp
  | some given => rw [returns_pure_iff, Option.some.injEq, eq_comm (a := given)]

/-! ### Types -/

theorem returns_refer_iff {name : String} {value : Unit} :
    (refer name).Returns before value after ↔
      after = before.referAll ((some name).filter (!·.isEmpty)).toList := by
  unfold refer
  cases empty : name.isEmpty <;> simp [Option.filter, empty, Registry.referAll]

/-- A C type is resolved if it has a type expression; then the declared type that the expression uses
is noted, and nothing else changes. -/
theorem returns_resolve_iff {spelled : String} {value : Option TypeExpr} :
    (resolve spelled).Returns before value after ↔
      typeExpr spelled = .ok value ∧
        after = before.referAll (value.bind TypeExpr.reference?).toList := by
  unfold resolve
  rw [returns_bind_iff]
  constructor
  · rintro ⟨name, between, found, rest⟩
    obtain ⟨declared, rfl⟩ := returns_ofExcept_iff.mp found
    have noted : typeExpr spelled = .ok value ∧
        after = between.referAll (name.filter (!·.isEmpty)).toList := by
      cases name with
      | none => exact returns_ofExcept_iff.mp rest
      | some name =>
          obtain ⟨_, _, referred, resolved⟩ := returns_bind_iff.mp rest
          obtain rfl := returns_refer_iff.mp referred
          exact returns_ofExcept_iff.mp resolved
    obtain ⟨other, isOther, same⟩ := declaredName_of_typeExpr noted.1
    obtain rfl := Except.ok.inj (isOther.symm.trans declared)
    rw [← same]
    exact noted
  · rintro ⟨isSpelled, rfl⟩
    obtain ⟨name, declared, same⟩ := declaredName_of_typeExpr isSpelled
    refine ⟨name, before, returns_ofExcept_iff.mpr ⟨declared, rfl⟩, ?_⟩
    rw [← same]
    cases name with
    | none => exact returns_ofExcept_iff.mpr ⟨isSpelled, rfl⟩
    | some name =>
        have referred : (refer name).Returns before ()
            (before.referAll ((some name).filter (!·.isEmpty)).toList) := returns_refer_iff.mpr rfl
        exact referred.bind (returns_ofExcept_iff.mpr ⟨isSpelled, rfl⟩)

/-- The same for the expression that stands for the type where one is needed. -/
theorem returns_target_iff {spelled : String} {value : TypeExpr} :
    (target spelled).Returns before value after ↔
      (∃ type, typeExpr spelled = .ok type ∧ value = type.getD .noValue) ∧
        after = before.referAll value.reference?.toList := by
  have used : ∀ type : Option TypeExpr,
      type.bind TypeExpr.reference? = (type.getD .noValue).reference? := by
    intro type
    cases type <;> rfl
  unfold target
  simp only [returns_bind_iff, returns_resolve_iff, returns_pure_iff]
  constructor
  · rintro ⟨type, _, ⟨spelled, rfl⟩, rfl, rfl⟩
    exact ⟨⟨type, spelled, rfl⟩, by rw [used]⟩
  · rintro ⟨⟨type, spelled, rfl⟩, rfl⟩
    exact ⟨type, _, ⟨spelled, rfl⟩, rfl, by rw [used]⟩

end Run

end HeaderBindings
