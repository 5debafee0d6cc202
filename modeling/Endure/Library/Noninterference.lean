import Endure.Library.Transitions

/-!
# What an observer of a system can tell

An observer sees a view of the state. Operations that leave the view alone are hidden from it, and
where the view after an operation is a function of the view before, two runs that differ in hidden
operations only cannot be told apart.
-/

namespace Library.Noninterference

open Library.Transitions

variable {σ op τ : Type*} {apply : op → σ → σ} {view : σ → τ} {hidden : op → Prop}
  {allowed : op → Prop}

/-- The hidden operations leave the view, and every other one moves it by the view alone. -/
structure Confines (apply : op → σ → σ) (view : σ → τ) (hidden allowed : op → Prop) : Prop where
  conceals : ∀ operation state, hidden operation → view (apply operation state) = view state
  respects : ∀ operation first second, allowed operation → ¬hidden operation →
    view first = view second → view (apply operation first) = view (apply operation second)

/-- One operation keeps two states indistinguishable. -/
theorem Confines.step (confines : Confines apply view hidden allowed) {operation : op}
    (granted : allowed operation) {first second : σ} (same : view first = view second) :
    view (apply operation first) = view (apply operation second) := by
  by_cases secret : hidden operation
  · rw [confines.conceals operation first secret, same, confines.conceals operation second secret]
  · exact confines.respects operation first second granted secret same

variable [DecidablePred hidden]

/-- Without its hidden operations, a run looks the same. -/
theorem Confines.view_run_purge (confines : Confines apply view hidden allowed)
    {operations : List op} (granted : ∀ operation ∈ operations, allowed operation)
    {first second : σ} (same : view first = view second) :
    view (run apply first operations) =
      view (run apply second (operations.filter fun operation => ¬hidden operation)) := by
  induction operations generalizing first second with
  | nil => exact same
  | cons operation rest ih =>
    have later : ∀ operation ∈ rest, allowed operation :=
      fun other member => granted other (List.mem_cons_of_mem operation member)
    by_cases secret : hidden operation
    · rw [List.filter_cons_of_neg (by simpa using secret), run_cons]
      exact ih later ((confines.conceals operation first secret).trans same)
    · rw [List.filter_cons_of_pos (by simpa using secret), run_cons, run_cons]
      exact ih later (confines.step (granted operation List.mem_cons_self) same)

/-- Two runs with the same visible operations end in states that look the same. -/
theorem Confines.view_run_eq (confines : Confines apply view hidden allowed) {left right : List op}
    (visible : left.filter (fun operation => ¬hidden operation) =
      right.filter fun operation => ¬hidden operation)
    (granted : ∀ operation ∈ left, allowed operation)
    (granted' : ∀ operation ∈ right, allowed operation) (state : σ) :
    view (run apply state left) = view (run apply state right) := by
  rw [confines.view_run_purge granted (rfl : view state = view state), visible]
  exact (confines.view_run_purge granted' rfl).symm

end Library.Noninterference
