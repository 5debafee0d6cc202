import Mathlib

/-!
# Programs whose steps interleave with an environment

A program calls a shared store and continues with each reply. One call is atomic;
between two calls, and before the program returns, the environment may move the
store. What holds whatever the environment does is stated as a precondition and
proved call by call.
-/

namespace Library.Interference

variable {σ : Type} {call : Type → Type} {α β : Type}

/-- A program that calls a store and returns a result. -/
inductive Program (call : Type → Type) (α : Type) : Type 1
  | done (result : α)
  | perform {β : Type} (request : call β) (next : β → Program call α)

namespace Program

/-- Run a second program on the result of a first. -/
def bind (first : Program call α) (next : α → Program call β) : Program call β :=
  match first with
  | .done result => next result
  | .perform request rest => .perform request fun reply => (rest reply).bind next

instance : Monad (Program call) where
  pure := .done
  bind := bind

/-- Make one call. -/
def request (wanted : call α) : Program call α := .perform wanted .done

variable (serve : ∀ {β : Type}, call β → σ → β × σ) (drift : σ → σ → Prop)

/-- An execution of a program, from a store to a result and a store. -/
inductive Runs : Program call α → σ → α → σ → Prop
  | done {result : α} {store later : σ} (moved : drift store later) :
      Runs (.done result) store result later
  | perform {β : Type} {request : call β} {next : β → Program call α} {store middle later : σ}
      {result : α} (moved : drift store middle)
      (rest : Runs (next (serve request middle).1) (serve request middle).2 result later) :
      Runs (.perform request next) store result later

/-- From a store, every execution of a program ends in a result and store that
satisfy a postcondition. -/
def Ensures (program : Program call α) (post : α → σ → Prop) (store : σ) : Prop :=
  match program with
  | .done result => ∀ later, drift store later → post result later
  | .perform request next => ∀ middle, drift store middle →
      (next (serve request middle).1).Ensures post (serve request middle).2

variable {serve drift} {program : Program call α} {post : α → σ → Prop} {store later : σ}

theorem Runs.of_ensures {result : α} (runs : Runs serve drift program store result later)
    (ensures : program.Ensures serve drift post store) : post result later := by
  induction runs with
  | done moved => exact ensures _ moved
  | perform moved _ ih => exact ih (ensures _ moved)

theorem ensures_iff :
    program.Ensures serve drift post store ↔
      ∀ result later, Runs serve drift program store result later → post result later := by
  constructor
  · exact fun ensures result later runs => runs.of_ensures ensures
  · intro holds
    induction program generalizing store with
    | done result => exact fun later moved => holds result later (.done moved)
    | perform request next ih =>
      exact fun middle moved => ih _ fun result later runs =>
        holds result later (.perform moved runs)

theorem Ensures.mono {weaker : α → σ → Prop} (ensures : program.Ensures serve drift post store)
    (weaken : ∀ result later, post result later → weaker result later) :
    program.Ensures serve drift weaker store :=
  ensures_iff.mpr fun result later runs => weaken result later (runs.of_ensures ensures)

/-! ### Rules -/

@[simp] theorem ensures_pure {result : α} :
    (pure result : Program call α).Ensures serve drift post store ↔
      ∀ later, drift store later → post result later := Iff.rfl

/-- A call is served after the environment has moved. -/
@[simp] theorem ensures_request_bind {wanted : call β} {next : β → Program call α} :
    (request wanted >>= next).Ensures serve drift post store ↔
      ∀ middle, drift store middle →
        (next (serve wanted middle).1).Ensures serve drift post (serve wanted middle).2 := Iff.rfl

/-- The second program starts where the first has ended. -/
theorem Ensures.bind (refl : ∀ store, drift store store) {first : Program call β}
    {next : β → Program call α}
    (ensures : first.Ensures serve drift
      (fun reply middle => (next reply).Ensures serve drift post middle) store) :
    (first >>= next).Ensures serve drift post store := by
  induction first generalizing store with
  | done reply => exact ensures store (refl store)
  | perform request rest ih => exact fun middle moved => ih _ (ensures middle moved)

/-- Every call a program makes, whatever the replies, is of a kind. -/
def Calls (kind : ∀ {β : Type}, call β → Prop) : Program call α → Prop
  | .done _ => True
  | .perform request next => kind request ∧ ∀ reply, (next reply).Calls kind

@[simp] theorem calls_pure {kind : ∀ {β : Type}, call β → Prop} {result : α} :
    (pure result : Program call α).Calls kind := trivial

@[simp] theorem calls_request_bind {kind : ∀ {β : Type}, call β → Prop} {wanted : call β}
    {next : β → Program call α} :
    (request wanted >>= next).Calls kind ↔ kind wanted ∧ ∀ reply, (next reply).Calls kind := Iff.rfl

theorem Calls.bind {kind : ∀ {β : Type}, call β → Prop} {first : Program call β}
    {next : β → Program call α} (calls : first.Calls kind)
    (later : ∀ reply, (next reply).Calls kind) : (first >>= next).Calls kind := by
  induction first with
  | done reply => exact later reply
  | perform request rest ih => exact ⟨calls.1, fun reply => ih reply (calls.2 reply)⟩

/-- What the environment and every call of a kind preserve, a program of such calls keeps. -/
theorem ensures_of_calls {kind : ∀ {β : Type}, call β → Prop} {invariant : σ → Prop}
    (moves : ∀ store later, drift store later → invariant store → invariant later)
    (serves : ∀ (β : Type) (wanted : call β) (store : σ), kind wanted → invariant store →
      invariant (serve wanted store).2)
    (calls : program.Calls kind) (held : invariant store) :
    program.Ensures serve drift (fun _ later => invariant later) store := by
  induction program generalizing store with
  | done result => exact fun later moved => moves store later moved held
  | perform request next ih =>
    exact fun middle moved => ih _ (calls.2 _) (serves _ _ _ calls.1 (moves _ _ moved held))

/-- The execution in which the environment stays idle. -/
def run (serve : ∀ {β : Type}, call β → σ → β × σ) (program : Program call α) (store : σ) : α × σ :=
  match program with
  | .done result => (result, store)
  | .perform request next => (next (serve request store).1).run serve (serve request store).2

/-- Every program has an execution. -/
theorem runs_run (refl : ∀ store, drift store store) (program : Program call α) (store : σ) :
    Runs serve drift program store (program.run serve store).1 (program.run serve store).2 := by
  induction program generalizing store with
  | done result => exact .done (refl store)
  | perform request next ih => exact .perform (refl store) (ih _ _)

/-- What the environment and every call preserve and establish, an execution does. -/
theorem Runs.relation {invariant : σ → Prop} {relation : σ → σ → Prop}
    (trans : ∀ first second third, relation first second → relation second third →
      relation first third)
    (moves : ∀ store later, drift store later → invariant store →
      invariant later ∧ relation store later)
    (serves : ∀ (β : Type) (wanted : call β) (store : σ), invariant store →
      invariant (serve wanted store).2 ∧ relation store (serve wanted store).2)
    {result : α} (runs : Runs serve drift program store result later) (held : invariant store) :
    invariant later ∧ relation store later := by
  induction runs with
  | done moved => exact moves _ _ moved held
  | perform moved _ ih =>
    obtain ⟨atMiddle, toMiddle⟩ := moves _ _ moved held
    obtain ⟨afterCall, overCall⟩ := serves _ _ _ atMiddle
    obtain ⟨atEnd, toEnd⟩ := ih afterCall
    exact ⟨atEnd, trans _ _ _ toMiddle (trans _ _ _ overCall toEnd)⟩

end Program

end Library.Interference
