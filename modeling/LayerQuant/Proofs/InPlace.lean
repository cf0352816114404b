/-!
# Programs in place

A program in place works on a state that its caller holds: it goes on from what it has written, and
when it fails it leaves that behind. What it leaves is computed by `perform`.
-/

namespace LayerQuant

/-- Two writes to one position of an array are one. -/
theorem modify_modify {α : Type} (items : Array α) (position : Nat) (first second : α → α) :
    (items.modify position first).modify position second =
      items.modify position (second ∘ first) := by
  refine Array.ext_getElem? fun i => ?_
  rw [Array.getElem?_modify, Array.getElem?_modify, Array.getElem?_modify]
  split <;> simp

/-- A program on a state that the caller holds. -/
abbrev InPlace (ε σ α : Type) := ExceptT ε (StateM σ) α

namespace InPlace

variable {ε σ α β : Type} {state : σ}

/-- Carries out a program: its result, and the state that it leaves. -/
def perform (program : InPlace ε σ α) (state : σ) : Except ε α × σ :=
  StateT.run (ExceptT.run program) state

/-- The program of a single step, given by its result and by the state that it leaves. -/
def step (next : σ → Except ε α × σ) : InPlace ε σ α := ExceptT.mk fun state => pure (next state)

/-- Replaces the state by what an operation makes of it, unless the operation fails. -/
def change (operation : σ → Except ε σ) : InPlace ε σ Unit :=
  step fun state =>
    match operation state with
    | .ok next => (.ok (), next)
    | .error error => (.error error, state)

/-- Carries out a program and returns its result, whether it is an error or not. -/
def observe (program : InPlace ε σ α) : InPlace ε σ (Except ε α) :=
  step fun state => (.ok (program.perform state).1, (program.perform state).2)

@[simp] theorem perform_pure (a : α) :
    (pure a : InPlace ε σ α).perform state = (.ok a, state) := rfl

@[simp] theorem perform_get : (get : InPlace ε σ σ).perform state = (.ok state, state) := rfl

@[simp] theorem perform_set (next : σ) :
    (set next : InPlace ε σ PUnit).perform state = (.ok ⟨⟩, next) := rfl

@[simp] theorem perform_modify (f : σ → σ) :
    (modify f : InPlace ε σ PUnit).perform state = (.ok ⟨⟩, f state) := rfl

@[simp] theorem perform_throw (error : ε) :
    (throw error : InPlace ε σ α).perform state = (.error error, state) := rfl

@[simp] theorem perform_step (next : σ → Except ε α × σ) :
    (step next).perform state = next state := rfl

theorem perform_change (operation : σ → Except ε σ) :
    (change operation).perform state =
      match operation state with
      | .ok next => (.ok (), next)
      | .error error => (.error error, state) := rfl

theorem perform_observe (program : InPlace ε σ α) :
    (observe program).perform state =
      (.ok (program.perform state).1, (program.perform state).2) := rfl

@[simp] theorem perform_ofExcept (result : Except ε α) :
    (MonadExcept.ofExcept result : InPlace ε σ α).perform state = (result, state) := by
  cases result <;> rfl

/-- A program goes on from what the one before it has left, unless that one has failed. -/
@[simp] theorem perform_bind (first : InPlace ε σ α) (rest : α → InPlace ε σ β) :
    (first >>= rest).perform state =
      match first.perform state with
      | (.ok a, next) => (rest a).perform next
      | (.error error, next) => (.error error, next) := by
  unfold perform
  rw [ExceptT.run_bind, StateT.run_bind]
  show (match StateT.run (ExceptT.run first) state with
    | (result, next) => _) = _
  cases StateT.run (ExceptT.run first) state with
  | mk result next => cases result <;> rfl

end InPlace

end LayerQuant
