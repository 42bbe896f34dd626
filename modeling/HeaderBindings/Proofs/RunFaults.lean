/-
Module: HeaderBindings.Proofs.RunFaults
Purpose: When a step over a registry fails, and with which faults at most.
Main exports: Run.Faults, Run.returns_or_faults, Run.faults_bind_iff, Run.FailsOnly
-/
import HeaderBindings.Proofs.RunSteps
import HeaderBindings.Proofs.UnreadableTexts

namespace HeaderBindings

open Run Spelling

/-! ### Steps that fail -/

namespace Run

variable {α β : Type} {before after : Registry} {fault : RunFault}

/-- A step fails from a registry and leaves another one. -/
def Faults (step : Run α) (before : Registry) (fault : RunFault) (after : Registry) : Prop :=
  (ExceptT.run step).run before = (.error fault, after)

instance (step : Run α) (before : Registry) (fault : RunFault) (after : Registry) :
    Decidable (step.Faults before fault after) :=
  match result : (ExceptT.run step).run before with
  | (.error given, left) =>
      decidable_of_iff (given = fault ∧ left = after) <| by
        rw [Faults, result]
        constructor
        · rintro ⟨rfl, rfl⟩
          rfl
        · intro same
          cases same
          exact ⟨rfl, rfl⟩
  | (.ok _, _) => .isFalse <| by
      rw [Faults, result]
      intro same
      cases same

theorem returns_or_faults (step : Run α) (before : Registry) :
    (∃ value after, step.Returns before value after) ∨
      ∃ fault after, step.Faults before fault after := by
  rcases result : (ExceptT.run step).run before with ⟨_ | _, after⟩
  · exact Or.inr ⟨_, after, result⟩
  · exact Or.inl ⟨_, after, result⟩

/-- A sequence fails if its first step does, or its second one from the registry that the first leaves. -/
theorem faults_bind_iff {first : Run α} {next : α → Run β} :
    (first >>= next).Faults before fault after ↔ first.Faults before fault after ∨
      ∃ middle between, first.Returns before middle between ∧
        (next middle).Faults between fault after := by
  unfold Faults Returns
  rw [run_bind]
  rcases (ExceptT.run first).run before with ⟨result, between⟩
  constructor
  · intro faults
    cases result with
    | error fault =>
        cases faults
        exact Or.inl rfl
    | ok middle => exact Or.inr ⟨middle, between, rfl, faults⟩
  · rintro (here | ⟨middle, state, returns, later⟩)
    · cases here
      rfl
    · cases returns
      exact later

/-- A step fails from a registry with some faults at most. -/
def FailsOnly (allowed : RunFault → Prop) (step : Run α) (before : Registry) : Prop :=
  ∀ fault after, step.Faults before fault after → allowed fault

namespace FailsOnly

variable {allowed : RunFault → Prop}

theorem of_returns {step : Run α} {value : α} (returns : step.Returns before value after) :
    FailsOnly allowed step before := by
  intro fault left faults
  cases returns.symm.trans faults

theorem mono {step : Run α} {more : RunFault → Prop} (fails : FailsOnly allowed step before)
    (weaker : ∀ fault, allowed fault → more fault) : FailsOnly more step before :=
  fun fault after faults => weaker fault (fails fault after faults)

theorem pure {value : α} : FailsOnly allowed (Pure.pure value : Run α) before :=
  of_returns (returns_pure_iff.mpr ⟨rfl, rfl⟩)

theorem get : FailsOnly allowed (MonadState.get : Run Registry) before :=
  of_returns (returns_get_iff.mpr ⟨rfl, rfl⟩)

theorem modifyGet {change : Registry → α × Registry} :
    FailsOnly allowed (MonadStateOf.modifyGet change : Run α) before :=
  of_returns (returns_modifyGet_iff.mpr rfl)

theorem emit {category : Category} {declaration : Declaration} :
    FailsOnly allowed (Run.emit category declaration) before :=
  of_returns (returns_emit_iff.mpr rfl : Returns _ _ () _)

theorem bind {first : Run α} {next : α → Run β} (head : FailsOnly allowed first before)
    (rest : ∀ value between, first.Returns before value between →
      FailsOnly allowed (next value) between) : FailsOnly allowed (first >>= next) before := by
  intro fault after faults
  rcases faults_bind_iff.mp faults with here | ⟨value, between, returns, later⟩
  · exact head fault after here
  · exact rest value between returns fault after later

theorem ofExcept {ε : Type} {fault : ε → RunFault} {result : Except ε α}
    (errors : ∀ error, result = .error error → allowed (fault error)) :
    FailsOnly allowed (Run.ofExcept fault result) before := by
  cases result with
  | ok value => exact pure
  | error error =>
      intro other after faults
      cases faults
      exact errors error rfl

theorem decimal {n : Int} (long : Number.writeInteger n = none → allowed .numberTooLong) :
    FailsOnly allowed (Run.decimal n) before := by
  unfold Run.decimal
  cases written : Number.writeInteger n with
  | some text => exact pure
  | none =>
      intro fault after faults
      cases faults
      exact long written

theorem resolve {spelled : String}
    (unnamed : ∀ size, declaredName spelled = .error size → allowed (.unknownSize size)) :
    FailsOnly allowed (Run.resolve spelled) before := by
  have expressed : ∀ registry, FailsOnly allowed (Run.ofExcept .unknownSize (typeExpr spelled)) registry :=
    fun _ => ofExcept fun size fails => unnamed size (declaredName_of_typeExpr_error fails)
  refine (ofExcept unnamed).bind fun name between _ => ?_
  cases name with
  | none => exact expressed _
  | some name =>
      have referred : (refer name).Returns between ()
          (between.referAll ((some name).filter (!·.isEmpty)).toList) := returns_refer_iff.mpr rfl
      exact (of_returns referred).bind fun _ _ _ => expressed _

theorem target {spelled : String}
    (unnamed : ∀ size, declaredName spelled = .error size → allowed (.unknownSize size)) :
    FailsOnly allowed (Run.target spelled) before :=
  (resolve unnamed).bind fun _ _ _ => pure

/-- A step that declares under a name fails only as its body does, from a registry with the name. -/
theorem declaring {category : Category} {name : String} {body : Run Unit}
    (fails : FailsOnly allowed body (before.reserve category name)) :
    FailsOnly allowed (if name.isEmpty then Pure.pure ()
      else declare category name >>= fun free => if free then body else Pure.pure ()) before := by
  split
  · exact pure
  · refine modifyGet.bind fun free between declared => ?_
    rcases returns_declare_iff.mp declared with ⟨_, rfl, rfl⟩ | ⟨_, rfl, rfl⟩
    · exact fails
    · exact pure

end FailsOnly

end Run

end HeaderBindings
