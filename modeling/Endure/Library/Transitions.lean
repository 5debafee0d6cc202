import Mathlib

/-!
# Runs of a transition system

What every operation preserves, a whole run preserves: an invariant of the states,
and a relation between an earlier and a later state.
-/

namespace Library.Transitions

variable {σ op : Type*}

/-- The state after a sequence of operations. -/
def run (apply : op → σ → σ) (state : σ) (operations : List op) : σ :=
  operations.foldl (fun current operation => apply operation current) state

variable {apply : op → σ → σ} {state : σ}

@[simp] theorem run_nil : run apply state [] = state := rfl

@[simp] theorem run_cons (operation : op) (rest : List op) :
    run apply state (operation :: rest) = run apply (apply operation state) rest := rfl

theorem run_append (first second : List op) :
    run apply state (first ++ second) = run apply (run apply state first) second :=
  List.foldl_append

/-- An invariant that every operation preserves holds after every run. -/
theorem run_invariant {invariant : σ → Prop}
    (step : ∀ operation state, invariant state → invariant (apply operation state))
    (initial : invariant state) (operations : List op) :
    invariant (run apply state operations) := by
  induction operations generalizing state with
  | nil => exact initial
  | cons operation rest ih => exact ih (step operation state initial)

/-- A reflexive and transitive relation that every operation establishes from states
with an invariant holds between the ends of every run. -/
theorem run_relation {invariant : σ → Prop} {relation : σ → σ → Prop}
    (refl : ∀ state, relation state state)
    (trans : ∀ first second third, relation first second → relation second third →
      relation first third)
    (keeps : ∀ operation state, invariant state → invariant (apply operation state))
    (step : ∀ operation state, invariant state → relation state (apply operation state))
    (initial : invariant state) (operations : List op) :
    relation state (run apply state operations) := by
  induction operations generalizing state with
  | nil => exact refl state
  | cons operation rest ih =>
    exact trans _ _ _ (step operation state initial) (ih (keeps operation state initial))

/-- Every operation of a run meets a condition on the state it acts on. -/
def Meets (apply : op → σ → σ) (condition : op → σ → Prop) : σ → List op → Prop
  | _, [] => True
  | state, operation :: rest =>
    condition operation state ∧ Meets apply condition (apply operation state) rest

theorem meets_append {condition : op → σ → Prop} {first second : List op} :
    Meets apply condition state (first ++ second) ↔
      Meets apply condition state first ∧ Meets apply condition (run apply state first) second := by
  induction first generalizing state with
  | nil => simp [Meets]
  | cons operation rest ih =>
    rw [List.cons_append, Meets, Meets, ih, and_assoc]
    rfl

/-- A condition that the operations of a run meet on every state is met by the run. -/
theorem meets_of_forall {condition : op → σ → Prop} {operations : List op}
    (each : ∀ operation ∈ operations, ∀ state, condition operation state) :
    Meets apply condition state operations := by
  induction operations generalizing state with
  | nil => trivial
  | cons operation rest ih =>
    exact ⟨each operation List.mem_cons_self state,
      ih fun later member => each later (List.mem_cons_of_mem operation member)⟩

/-- An invariant that the operations preserve where they meet a condition holds after every
run that meets it. -/
theorem run_invariant_of_meets {condition : op → σ → Prop} {invariant : σ → Prop}
    (step : ∀ operation state, condition operation state → invariant state →
      invariant (apply operation state))
    {operations : List op} (meets : Meets apply condition state operations)
    (initial : invariant state) : invariant (run apply state operations) := by
  induction operations generalizing state with
  | nil => exact initial
  | cons operation rest ih => exact ih meets.2 (step operation state meets.1 initial)

/-! ### What a run shows -/

/-- Everything the operations of a run show on the states they act on. -/
def trail {ε : Type*} (apply : op → σ → σ) (shows : op → σ → List ε) : σ → List op → List ε
  | _, [] => []
  | state, operation :: rest =>
    shows operation state ++ trail apply shows (apply operation state) rest

/-- A part of the state that every operation moves by what it shows ends as the fold of all
that the run shows. -/
theorem run_eq_foldl_trail {α ε : Type*} {shows : op → σ → List ε} {view : σ → α}
    {absorb : α → ε → α} {operations : List op}
    (step : ∀ operation ∈ operations, ∀ state,
      view (apply operation state) = (shows operation state).foldl absorb (view state)) :
    view (run apply state operations) =
      (trail apply shows state operations).foldl absorb (view state) := by
  induction operations generalizing state with
  | nil => rfl
  | cons operation rest ih =>
    rw [run_cons, ih fun later member => step later (List.mem_cons_of_mem operation member),
      step operation List.mem_cons_self, trail, List.foldl_append]

end Library.Transitions
