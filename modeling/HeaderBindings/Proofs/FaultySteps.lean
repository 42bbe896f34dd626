/-
Module: HeaderBindings.Proofs.FaultySteps
Purpose: What results that may be faults, and steps that change a state and may fail, come to.
Main exports: run_bind, carryOut, carryOut_bind
-/

namespace HeaderBindings

variable {ε ε₂ σ α β : Type} {state : σ}

@[simp] theorem mapError_ok (change : ε → ε₂) (value : α) :
    (Except.ok value : Except ε α).mapError change = .ok value := rfl

@[simp] theorem mapError_error (change : ε → ε₂) (fault : ε) :
    (Except.error fault : Except ε α).mapError change = .error (change fault) := rfl

theorem mapError_eq_ok_iff (change : ε → ε₂) {result : Except ε α} {value : α} :
    result.mapError change = .ok value ↔ result = .ok value := by
  cases result <;> simp

/-- A sequence goes on from the state that its first step leaves, unless that step fails. -/
theorem run_bind (first : ExceptT ε (StateM σ) α) (next : α → ExceptT ε (StateM σ) β) (state : σ) :
    (ExceptT.run (first >>= next)).run state
      = match (ExceptT.run first).run state with
        | (.ok value, between) => (ExceptT.run (next value)).run between
        | (.error fault, between) => (.error fault, between) := by
  change (ExceptT.run first >>= ExceptT.bindCont next).run state = _
  rw [StateT.run_bind]
  rcases (ExceptT.run first).run state with ⟨result, between⟩
  cases result <;> rfl

/-- Carry out a step from a state. -/
def carryOut (state : σ) (step : ExceptT ε (StateM σ) α) : Except ε α × σ :=
  (ExceptT.run step).run state

theorem carryOut_bind (first : ExceptT ε (StateM σ) α) (next : α → ExceptT ε (StateM σ) β) :
    carryOut state (first >>= next) = match carryOut state first with
      | (.ok value, between) => carryOut between (next value)
      | (.error fault, between) => (.error fault, between) :=
  run_bind first next state

theorem carryOut_get : carryOut state (get : ExceptT ε (StateM σ) σ) = (.ok state, state) := rfl

theorem carryOut_set (after : σ) :
    carryOut state (set after : ExceptT ε (StateM σ) Unit) = (.ok (), after) := rfl

theorem carryOut_modify (change : σ → σ) :
    carryOut state (modify change : ExceptT ε (StateM σ) Unit) = (.ok (), change state) := rfl

theorem carryOut_ofExcept (result : Except ε α) :
    carryOut state (MonadExcept.ofExcept result : ExceptT ε (StateM σ) α) = (result, state) := by
  cases result <;> rfl

end HeaderBindings
