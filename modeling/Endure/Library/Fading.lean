import Mathlib

/-!
# Fading memories

A memory keeps a moving average in each cell it has observed. Its owner attends a
pass by submitting to it, or because an earlier trace obliges it to; an absent owner
observes zeros, and what it remembers of the active cells is forgotten once every
active average has fallen below a threshold.
-/

namespace Library.Fading

variable {κ : Type*}

/-- A moving average and the number of observations behind it. -/
structure Trace where
  average : ℚ
  observations : ℕ
  deriving DecidableEq

/-- The traces of the cells observed so far. -/
abbrev Memory (κ : Type*) := κ → Option Trace

namespace Memory

/-- The average of a cell, zero where nothing was observed. -/
def average (memory : Memory κ) (cell : κ) : ℚ := ((memory cell).map Trace.average).getD 0

/-- The number of observations of a cell. -/
def observations (memory : Memory κ) (cell : κ) : ℕ :=
  ((memory cell).map Trace.observations).getD 0

/-- Observe scores in some cells. -/
def observe (alpha : ℚ) (scores : κ → Option ℚ) (memory : Memory κ) : Memory κ := fun cell =>
  match scores cell with
  | none => memory cell
  | some score =>
    some ⟨alpha * score + (1 - alpha) * memory.average cell, memory.observations cell + 1⟩

/-- Some cell of a kind is remembered. -/
def Alive (kind : κ → Prop) (memory : Memory κ) : Prop := ∃ cell, kind cell ∧ (memory cell).isSome

/-- Some active cell is remembered and every remembered one is below the threshold. -/
def Faded (epsilon : ℚ) (active : κ → Prop) (memory : Memory κ) : Prop :=
  Alive active memory ∧ ∀ cell, active cell → ∀ trace, memory cell = some trace →
    trace.average < epsilon

open Classical in
/-- Forget the active cells. -/
noncomputable def forget (active : κ → Prop) (memory : Memory κ) : Memory κ := fun cell =>
  if active cell then none else memory cell

variable {alpha : ℚ} {scores : κ → Option ℚ} {memory : Memory κ} {cell : κ}

theorem average_eq {trace : Trace} (found : memory cell = some trace) :
    memory.average cell = trace.average := by
  rw [average, found, Option.map_some, Option.getD_some]

theorem average_of_none (absent : memory cell = none) : memory.average cell = 0 := by
  rw [average, absent, Option.map_none, Option.getD_none]

theorem observe_of_none (unscored : scores cell = none) :
    memory.observe alpha scores cell = memory cell := by
  rw [observe, unscored]

theorem observe_of_some {score : ℚ} (scored : scores cell = some score) :
    memory.observe alpha scores cell =
      some ⟨alpha * score + (1 - alpha) * memory.average cell, memory.observations cell + 1⟩ := by
  rw [observe, scored]

theorem average_observe_of_none (unscored : scores cell = none) :
    (memory.observe alpha scores).average cell = memory.average cell := by
  rw [average, observe_of_none unscored, average]

theorem average_observe_of_some {score : ℚ} (scored : scores cell = some score) :
    (memory.observe alpha scores).average cell =
      alpha * score + (1 - alpha) * memory.average cell :=
  average_eq (observe_of_some scored)

theorem observe_isSome :
    (memory.observe alpha scores cell).isSome ↔ (scores cell).isSome ∨ (memory cell).isSome := by
  cases scored : scores cell with
  | none => simp [observe_of_none scored]
  | some score => simp [observe_of_some scored]

/-- Observing twice in disjoint cells is observing once. -/
theorem observe_observe {first second : κ → Option ℚ}
    (disjoint : ∀ cell, first cell = none ∨ second cell = none) :
    (memory.observe alpha first).observe alpha second =
      memory.observe alpha fun cell => (first cell).or (second cell) := by
  funext cell
  cases scored : second cell with
  | none =>
    rw [observe_of_none scored]
    simp only [observe, scored, Option.or_none]
  | some score =>
    have unscored : first cell = none := (disjoint cell).resolve_right (by simp [scored])
    have whole : memory.observe alpha (fun cell => (first cell).or (second cell)) cell =
        some ⟨alpha * score + (1 - alpha) * memory.average cell, memory.observations cell + 1⟩ :=
      observe_of_some (by rw [unscored, scored, Option.none_or])
    rw [observe_of_some scored, whole, average_observe_of_none unscored]
    simp only [observations, observe_of_none unscored]

theorem Alive.observe {kind : κ → Prop} (alive : Alive kind memory) :
    Alive kind (memory.observe alpha scores) := by
  obtain ⟨cell, inside, remembered⟩ := alive
  exact ⟨cell, inside, observe_isSome.mpr (.inr remembered)⟩

theorem forget_of_active {active : κ → Prop} (inside : active cell) :
    memory.forget active cell = none := if_pos inside

theorem forget_of_not {kind : κ → Prop} (outside : ¬kind cell) :
    memory.forget kind cell = memory cell := if_neg outside

theorem average_forget_of_not {kind : κ → Prop} (outside : ¬kind cell) :
    (memory.forget kind).average cell = memory.average cell := by
  rw [average, forget_of_not outside, average]

theorem not_alive_forget {active : κ → Prop} : ¬Alive active (memory.forget active) := by
  rintro ⟨cell, inside, remembered⟩
  rw [forget_of_active inside] at remembered
  cases remembered

end Memory

open Memory

/-! ### Passes -/

/-- A pass as one owner meets it: the scores of the resolved cells, whether the owner
submitted and is eligible, and the cells beyond the active ones whose traces oblige it
to attend. -/
structure Pass (κ : Type*) where
  scores : κ → Option ℚ
  submitted : Prop
  eligible : Prop
  obliges : κ → Prop

/-- The rules of a memory: its factor, threshold and active cells. -/
structure Rules (κ : Type*) where
  alpha : ℚ
  epsilon : ℚ
  active : κ → Prop
  alpha_pos : 0 < alpha
  alpha_lt_one : alpha < 1
  epsilon_pos : 0 < epsilon

namespace Rules

variable (rules : Rules κ)

/-- The owner takes part in a pass. -/
def Attends (pass : Pass κ) (memory : Memory κ) : Prop :=
  pass.submitted ∨
    pass.eligible ∧ Alive (fun cell => rules.active cell ∨ pass.obliges cell) memory

/-- The pass ends with the owner's active cells forgotten. -/
def Fades (pass : Pass κ) (memory : Memory κ) : Prop :=
  ¬pass.submitted ∧ (∃ cell, rules.active cell ∧ (pass.scores cell).isSome) ∧
    Faded rules.epsilon rules.active (memory.observe rules.alpha pass.scores)

open Classical in
/-- What a pass leaves of a memory. -/
noncomputable def absorb (pass : Pass κ) (memory : Memory κ) : Memory κ :=
  if rules.Attends pass memory then
    if rules.Fades pass memory then
      (memory.observe rules.alpha pass.scores).forget rules.active
    else memory.observe rules.alpha pass.scores
  else memory

variable {rules} {pass : Pass κ} {memory : Memory κ}

theorem absorb_of_fades (attends : rules.Attends pass memory) (fades : rules.Fades pass memory) :
    rules.absorb pass memory = (memory.observe rules.alpha pass.scores).forget rules.active := by
  rw [absorb, if_pos attends, if_pos fades]

theorem absorb_of_not_fades (attends : rules.Attends pass memory)
    (keeps : ¬rules.Fades pass memory) :
    rules.absorb pass memory = memory.observe rules.alpha pass.scores := by
  rw [absorb, if_pos attends, if_neg keeps]

theorem absorb_of_submitted (submitted : pass.submitted) :
    rules.absorb pass memory = memory.observe rules.alpha pass.scores :=
  absorb_of_not_fades (.inl submitted) fun fades => fades.1 submitted

theorem absorb_of_not_attends (stays : ¬rules.Attends pass memory) :
    rules.absorb pass memory = memory := if_neg stays

/-- An absent owner observes only zeros. -/
def ZeroIfAbsent (pass : Pass κ) : Prop :=
  ¬pass.submitted → ∀ cell score, pass.scores cell = some score → score = 0

theorem decayed_lt {average : ℚ} (below : average < rules.epsilon) :
    (1 - rules.alpha) * average < rules.epsilon := by
  have := rules.alpha_pos
  have := rules.alpha_lt_one
  have := rules.epsilon_pos
  by_cases sign : 0 ≤ average
  · exact lt_of_le_of_lt (mul_le_of_le_one_left sign (by linarith)) below
  · exact lt_of_le_of_lt (mul_nonpos_of_nonneg_of_nonpos (by linarith) (by linarith))
      rules.epsilon_pos

/-- Zeros keep a faded memory faded. -/
theorem faded_observe_zero {scores : κ → Option ℚ}
    (zero : ∀ cell score, scores cell = some score → score = 0)
    (faded : Faded rules.epsilon rules.active memory) :
    Faded rules.epsilon rules.active (memory.observe rules.alpha scores) := by
  refine ⟨faded.1.observe, fun cell inside trace found => ?_⟩
  cases scored : scores cell with
  | none =>
    rw [observe_of_none scored] at found
    exact faded.2 cell inside trace found
  | some score =>
    rw [← average_eq found, average_observe_of_some scored, zero cell score scored, mul_zero,
      zero_add]
    refine decayed_lt ?_
    cases held : memory cell with
    | none =>
      rw [average_of_none held]
      exact rules.epsilon_pos
    | some old =>
      rw [average_eq held]
      exact faded.2 cell inside old held

/-! ### A pass taken in parts -/

/-- Two memories agree on the active cells. -/
def AgreeOn (rules : Rules κ) (first second : Memory κ) : Prop :=
  ∀ cell, rules.active cell → first cell = second cell

theorem AgreeOn.symm {first second : Memory κ} (agree : rules.AgreeOn first second) :
    rules.AgreeOn second first := fun cell inside => (agree cell inside).symm

theorem AgreeOn.trans {first second third : Memory κ} (left : rules.AgreeOn first second)
    (right : rules.AgreeOn second third) : rules.AgreeOn first third :=
  fun cell inside => (left cell inside).trans (right cell inside)

/-- A pass that scores no active cell leaves them as they are. -/
theorem agreeOn_absorb_of_unscored
    (unscored : ∀ cell, rules.active cell → pass.scores cell = none) :
    rules.AgreeOn (rules.absorb pass memory) memory := by
  intro cell inside
  by_cases attends : rules.Attends pass memory
  · rw [absorb_of_not_fades attends, observe_of_none (unscored cell inside)]
    rintro ⟨-, ⟨other, within, scored⟩, -⟩
    rw [unscored other within] at scored
    cases scored
  · rw [absorb_of_not_attends attends]

/-- A pass over active cells only. -/
structure Inside (rules : Rules κ) (pass : Pass κ) : Prop where
  obliges : ∀ cell, pass.obliges cell → rules.active cell
  zero : ZeroIfAbsent pass

theorem Inside.attends_iff (inside : rules.Inside pass) :
    rules.Attends pass memory ↔ pass.submitted ∨ pass.eligible ∧ Alive rules.active memory := by
  have same : (fun cell => rules.active cell ∨ pass.obliges cell) = rules.active := by
    funext cell
    exact propext (or_iff_left_of_imp (inside.obliges cell))
  rw [Attends, same]

theorem alive_congr {first second : Memory κ} (agree : rules.AgreeOn first second) :
    Alive rules.active first ↔ Alive rules.active second := by
  constructor
  · rintro ⟨cell, inside, remembered⟩
    exact ⟨cell, inside, agree cell inside ▸ remembered⟩
  · rintro ⟨cell, inside, remembered⟩
    exact ⟨cell, inside, agree cell inside ▸ remembered⟩

theorem AgreeOn.observe {first second : Memory κ} (agree : rules.AgreeOn first second)
    (scores : κ → Option ℚ) :
    rules.AgreeOn (first.observe rules.alpha scores) (second.observe rules.alpha scores) := by
  intro cell inside
  simp only [Memory.observe, average, observations, agree cell inside]

theorem faded_congr {first second : Memory κ} (agree : rules.AgreeOn first second) :
    Faded rules.epsilon rules.active first ↔ Faded rules.epsilon rules.active second := by
  rw [Faded, Faded, alive_congr agree]
  refine and_congr_right fun _ => forall_congr' fun cell => forall_congr' fun inside => ?_
  rw [agree cell inside]

/-- A pass over active cells acts on the active cells only through themselves. -/
theorem AgreeOn.absorb {first second : Memory κ} (agree : rules.AgreeOn first second)
    (inside : rules.Inside pass) :
    rules.AgreeOn (rules.absorb pass first) (rules.absorb pass second) := by
  have observed := agree.observe pass.scores
  have attends : rules.Attends pass first ↔ rules.Attends pass second := by
    rw [inside.attends_iff, inside.attends_iff, alive_congr agree]
  have fades : rules.Fades pass first ↔ rules.Fades pass second := by
    rw [Fades, Fades, faded_congr observed]
  by_cases takesPart : rules.Attends pass first
  · by_cases ends : rules.Fades pass first
    · rw [absorb_of_fades takesPart ends, absorb_of_fades (attends.mp takesPart) (fades.mp ends)]
      intro cell within
      rw [forget_of_active within, forget_of_active within]
    · rw [absorb_of_not_fades takesPart ends,
        absorb_of_not_fades (attends.mp takesPart) (fades.not.mp ends)]
      exact observed
  · rw [absorb_of_not_attends takesPart, absorb_of_not_attends (attends.not.mp takesPart)]
    exact agree

/-- Two parts of one pass: the same owner, and disjoint cells. -/
structure Parts (first second whole : Pass κ) : Prop where
  scores : ∀ cell, whole.scores cell = (first.scores cell).or (second.scores cell)
  disjoint : ∀ cell, first.scores cell = none ∨ second.scores cell = none
  submitted : (first.submitted ↔ whole.submitted) ∧ (second.submitted ↔ whole.submitted)
  eligible : (first.eligible ↔ whole.eligible) ∧ (second.eligible ↔ whole.eligible)

theorem Parts.observe {first second whole : Pass κ} (parts : Parts first second whole)
    (memory : Memory κ) :
    (memory.observe rules.alpha first.scores).observe rules.alpha second.scores =
      memory.observe rules.alpha whole.scores := by
  rw [observe_observe parts.disjoint]
  congr 1
  funext cell
  exact (parts.scores cell).symm

/-- **A pass taken in two parts is the pass taken whole**, on the active cells. -/
theorem absorb_parts {first second whole : Pass κ} (parts : Parts first second whole)
    (inside : rules.Inside first) (inside' : rules.Inside second) (inside'' : rules.Inside whole)
    (memory : Memory κ) :
    rules.AgreeOn (rules.absorb second (rules.absorb first memory))
      (rules.absorb whole memory) := by
  by_cases submitted : whole.submitted
  · rw [absorb_of_submitted (parts.submitted.1.mpr submitted),
      absorb_of_submitted (parts.submitted.2.mpr submitted), absorb_of_submitted submitted,
      parts.observe]
    exact fun _ _ => rfl
  have absent := parts.submitted.1.not.mpr submitted
  have absent' := parts.submitted.2.not.mpr submitted
  by_cases takesPart : whole.eligible ∧ Alive rules.active memory
  · obtain ⟨eligible, alive⟩ := takesPart
    have attends : rules.Attends first memory :=
      inside.attends_iff.mpr (.inr ⟨parts.eligible.1.mpr eligible, alive⟩)
    have attends'' : rules.Attends whole memory := inside''.attends_iff.mpr (.inr ⟨eligible, alive⟩)
    by_cases ends : rules.Fades first memory
    · -- Forgotten in the first part: nothing obliges the owner to attend the second.
      have stays : ¬rules.Attends second (rules.absorb first memory) := by
        rw [inside'.attends_iff, absorb_of_fades attends ends]
        exact not_or.mpr ⟨absent', fun both => not_alive_forget both.2⟩
      have ends'' : rules.Fades whole memory := by
        obtain ⟨-, ⟨cell, within, scored⟩, faded⟩ := ends
        refine ⟨submitted, ⟨cell, within, ?_⟩, ?_⟩
        · rw [parts.scores, Option.isSome_or, scored, Bool.true_or]
        · rw [← parts.observe]
          exact faded_observe_zero (inside'.zero absent') faded
      rw [absorb_of_not_attends stays, absorb_of_fades attends ends,
        absorb_of_fades attends'' ends'']
      intro cell within
      rw [forget_of_active within, forget_of_active within]
    · rw [absorb_of_not_fades attends ends]
      have attends' : rules.Attends second (memory.observe rules.alpha first.scores) :=
        inside'.attends_iff.mpr (.inr ⟨parts.eligible.2.mpr eligible, alive.observe⟩)
      have fades : rules.Fades second (memory.observe rules.alpha first.scores) ↔
          rules.Fades whole memory := by
        rw [Fades, Fades, parts.observe]
        constructor
        · rintro ⟨-, ⟨cell, within, scored⟩, faded⟩
          refine ⟨submitted, ⟨cell, within, ?_⟩, faded⟩
          rw [parts.scores, Option.isSome_or, scored, Bool.or_true]
        · rintro ⟨-, ⟨cell, within, scored⟩, faded⟩
          refine ⟨absent', ?_, faded⟩
          by_contra unscored
          -- With nothing scored in the second part, the first part had already faded.
          have nothing : ∀ cell, rules.active cell → second.scores cell = none := fun cell within =>
            Option.not_isSome_iff_eq_none.mp fun scored => unscored ⟨cell, within, scored⟩
          refine ends ⟨absent, ⟨cell, within, ?_⟩, ?_⟩
          · rwa [parts.scores, nothing cell within, Option.or_none] at scored
          · refine (faded_congr fun cell within => ?_).mp faded
            rw [← parts.observe, observe_of_none (nothing cell within)]
      by_cases ends' : rules.Fades whole memory
      · rw [absorb_of_fades attends' (fades.mpr ends'), absorb_of_fades attends'' ends',
          parts.observe]
        exact fun _ _ => rfl
      · rw [absorb_of_not_fades attends' (fades.not.mpr ends'), absorb_of_not_fades attends'' ends',
          parts.observe]
        exact fun _ _ => rfl
  · have stays : ¬rules.Attends first memory := by
      rw [inside.attends_iff, parts.submitted.1, parts.eligible.1]
      exact not_or.mpr ⟨submitted, takesPart⟩
    have stays' : ¬rules.Attends second memory := by
      rw [inside'.attends_iff, parts.submitted.2, parts.eligible.2]
      exact not_or.mpr ⟨submitted, takesPart⟩
    have stays'' : ¬rules.Attends whole memory := by
      rw [inside''.attends_iff]
      exact not_or.mpr ⟨submitted, takesPart⟩
    rw [absorb_of_not_attends stays, absorb_of_not_attends stays', absorb_of_not_attends stays'']
    exact fun _ _ => rfl

/-! ### Skipping -/

/-- The second owner is behind the first: none of its active averages is negative or larger than
the first owner's. -/
structure Behind (rules : Rules κ) (first second : Memory κ) : Prop where
  nonneg : ∀ cell, rules.active cell → 0 ≤ second.average cell
  below : ∀ cell, rules.active cell → second.average cell ≤ first.average cell

theorem Behind.nonneg_first {first second : Memory κ} (behind : rules.Behind first second)
    {cell : κ} (inside : rules.active cell) : 0 ≤ first.average cell :=
  (behind.nonneg cell inside).trans (behind.below cell inside)

/-- Where the first owner has nothing, the second has no average either. -/
theorem Behind.eq_zero {first second : Memory κ} (behind : rules.Behind first second) {cell : κ}
    (inside : rules.active cell) (none : first cell = none) : second.average cell = 0 :=
  le_antisymm ((behind.below cell inside).trans (average_of_none none).le)
    (behind.nonneg cell inside)

/-- Being behind is a matter of the active cells. -/
theorem Behind.congr {first first' second second' : Memory κ} (behind : rules.Behind first second)
    (agree : rules.AgreeOn first' first) (agree' : rules.AgreeOn second' second) :
    rules.Behind first' second' := by
  have average : ∀ cell, rules.active cell → first'.average cell = first.average cell :=
    fun cell inside => by simp only [Memory.average, agree cell inside]
  have average' : ∀ cell, rules.active cell → second'.average cell = second.average cell :=
    fun cell inside => by simp only [Memory.average, agree' cell inside]
  refine ⟨fun cell inside => ?_, fun cell inside => ?_⟩
  · rw [average' cell inside]
    exact behind.nonneg cell inside
  · rw [average cell inside, average' cell inside]
    exact behind.below cell inside

/-- Forgetting the same cells keeps an owner behind. -/
theorem Behind.forget {first second : Memory κ} (behind : rules.Behind first second)
    (kind : κ → Prop) : rules.Behind (first.forget kind) (second.forget kind) := by
  refine ⟨fun cell inside => ?_, fun cell inside => ?_⟩ <;> by_cases member : kind cell
  · exact (average_of_none (forget_of_active member)).ge
  · rw [average_forget_of_not member]
    exact behind.nonneg cell inside
  · rw [average_of_none (forget_of_active member), average_of_none (forget_of_active member)]
  · rw [average_forget_of_not member, average_forget_of_not member]
    exact behind.below cell inside

theorem average_of_not_alive (lost : ¬Alive rules.active memory) {cell : κ}
    (inside : rules.active cell) : memory.average cell = 0 :=
  average_of_none (Option.not_isSome_iff_eq_none.mp fun remembered =>
    lost ⟨cell, inside, remembered⟩)

theorem average_observe_nonneg {scores : κ → Option ℚ}
    (scored : ∀ cell score, scores cell = some score → 0 ≤ score) {cell : κ}
    (nonneg : 0 ≤ memory.average cell) :
    0 ≤ (memory.observe rules.alpha scores).average cell := by
  have factor : 0 ≤ 1 - rules.alpha := by linarith [rules.alpha_lt_one]
  cases found : scores cell with
  | none => rwa [average_observe_of_none found]
  | some score =>
    rw [average_observe_of_some found]
    exact add_nonneg (mul_nonneg rules.alpha_pos.le (scored cell score found))
      (mul_nonneg factor nonneg)

/-- A pass leaves no negative average. -/
theorem average_absorb_nonneg (scored : ∀ cell score, pass.scores cell = some score → 0 ≤ score)
    {cell : κ} (inside : rules.active cell) (nonneg : 0 ≤ memory.average cell) :
    0 ≤ (rules.absorb pass memory).average cell := by
  by_cases attends : rules.Attends pass memory
  · by_cases fades : rules.Fades pass memory
    · rw [absorb_of_fades attends fades, average_of_none (forget_of_active inside)]
    · rw [absorb_of_not_fades attends fades]
      exact average_observe_nonneg scored nonneg
  · rwa [absorb_of_not_attends attends]

/-- Zeros leave an average of zero as it is. -/
theorem average_observe_zero {scores : κ → Option ℚ}
    (zero : ∀ cell score, scores cell = some score → score = 0) {cell : κ}
    (nothing : memory.average cell = 0) :
    (memory.observe rules.alpha scores).average cell = 0 := by
  cases found : scores cell with
  | none => rw [average_observe_of_none found, nothing]
  | some score =>
    rw [average_observe_of_some found, zero cell score found, nothing, mul_zero, mul_zero, add_zero]

/-- Two passes that differ at most in that the second owner skips. -/
structure Skips (first second : Pass κ) : Prop where
  resolves : ∀ cell, (second.scores cell).isSome ↔ (first.scores cell).isSome
  below : ∀ cell score score', first.scores cell = some score →
    second.scores cell = some score' → score' ≤ score
  nonneg : ∀ cell score, first.scores cell = some score → 0 ≤ score
  submitted : second.submitted → first.submitted
  kept : second.submitted → second.scores = first.scores
  eligible : second.eligible ↔ first.eligible
  member : first.submitted → first.eligible
  zero : ZeroIfAbsent second

variable {first second : Pass κ} {memory memory' : Memory κ}

theorem Skips.nonneg' (skips : Skips first second) (cell : κ) (score : ℚ)
    (scored : second.scores cell = some score) : 0 ≤ score := by
  by_cases submitted : second.submitted
  · rw [skips.kept submitted] at scored
    exact skips.nonneg cell score scored
  · exact (skips.zero submitted cell score scored).ge

theorem Skips.below_observe (skips : Skips first second) (behind : rules.Behind memory memory')
    {cell : κ} (inside : rules.active cell) :
    (memory'.observe rules.alpha second.scores).average cell ≤
      (memory.observe rules.alpha first.scores).average cell := by
  have factor : 0 ≤ 1 - rules.alpha := by linarith [rules.alpha_lt_one]
  cases found : first.scores cell with
  | none =>
    have unscored : second.scores cell = none := by
      rw [← Option.not_isSome_iff_eq_none, skips.resolves, found]
      simp
    rw [average_observe_of_none found, average_observe_of_none unscored]
    exact behind.below cell inside
  | some score =>
    obtain ⟨score', scored⟩ := Option.isSome_iff_exists.mp
      ((skips.resolves cell).mpr (by rw [found, Option.isSome_some]))
    rw [average_observe_of_some found, average_observe_of_some scored]
    exact add_le_add
      (mul_le_mul_of_nonneg_left (skips.below cell score score' found scored) rules.alpha_pos.le)
      (mul_le_mul_of_nonneg_left (behind.below cell inside) factor)

/-- The first owner does not fade alone: what it observes in some active cell the second owner
observes too, and with averages that are no larger. -/
theorem Skips.fades (skips : Skips first second) (absent : ¬second.submitted)
    (behind : rules.Behind memory memory') (fades : rules.Fades first memory) :
    rules.Fades second memory' := by
  obtain ⟨-, ⟨cell, inside, scored⟩, faded⟩ := fades
  have scored' := (skips.resolves cell).mpr scored
  refine ⟨absent, ⟨cell, inside, scored'⟩, ⟨cell, inside, observe_isSome.mpr (.inl scored')⟩,
    fun other within trace found => ?_⟩
  rw [← average_eq found]
  refine lt_of_le_of_lt (skips.below_observe behind within) ?_
  cases held : memory.observe rules.alpha first.scores other with
  | none =>
    rw [average_of_none held]
    exact rules.epsilon_pos
  | some old =>
    rw [average_eq held]
    exact faded.2 other within old held

/-- A pass keeps the second owner behind. -/
theorem Skips.behind_absorb (skips : Skips first second) (behind : rules.Behind memory memory') :
    rules.Behind (rules.absorb first memory) (rules.absorb second memory') := by
  refine ⟨fun cell inside =>
    average_absorb_nonneg skips.nonneg' inside (behind.nonneg cell inside), fun cell inside => ?_⟩
  have nonneg := average_absorb_nonneg skips.nonneg inside (behind.nonneg_first inside)
  -- who submits in the second run submits the same in the first
  by_cases submitted : second.submitted
  · rw [absorb_of_submitted submitted, absorb_of_submitted (skips.submitted submitted)]
    exact skips.below_observe behind inside
  by_cases attends' : rules.Attends second memory'
  · by_cases fades' : rules.Fades second memory'
    · rwa [absorb_of_fades attends' fades', average_of_none (forget_of_active inside)]
    rw [absorb_of_not_fades attends' fades']
    by_cases attends : rules.Attends first memory
    · rw [absorb_of_not_fades attends fun fades => fades' (skips.fades submitted behind fades)]
      exact skips.below_observe behind inside
    · -- an eligible owner that stays away remembers no active cell
      have eligible := skips.eligible.mp (attends'.resolve_left submitted).1
      have lost : ¬Alive rules.active memory := by
        rintro ⟨other, within, remembered⟩
        exact attends (.inr ⟨eligible, other, .inl within, remembered⟩)
      rwa [average_observe_zero (skips.zero submitted) (le_antisymm ((behind.below cell inside).trans
        (average_of_not_alive lost inside).le) (behind.nonneg cell inside))]
  · rw [absorb_of_not_attends attends']
    by_cases eligible : second.eligible
    · -- as does the second owner
      have lost : ¬Alive rules.active memory' := by
        rintro ⟨other, within, remembered⟩
        exact attends' (.inr ⟨eligible, other, .inl within, remembered⟩)
      rwa [average_of_not_alive lost inside]
    · have attends : ¬rules.Attends first memory := by
        rintro (submits | ⟨member, -⟩)
        · exact eligible (skips.eligible.mpr (skips.member submits))
        · exact eligible (skips.eligible.mpr member)
      rw [absorb_of_not_attends attends]
      exact behind.below cell inside

end Rules

/-! ### The average over what is remembered -/

/-- The mean of the averages over a set of cells. -/
def meanAverage (cells : Finset κ) (memory : Memory κ) : ℚ :=
  (∑ cell ∈ cells, memory.average cell) / cells.card

section Means

variable [DecidableEq κ] {rules : Rules κ} {memory memory' : Memory κ} {cells cells' : Finset κ}

/-- What the second owner no longer averages over is not lower than what it does: the cells that
only the first owner remembers hold, together, at least the second's mean once for each cell by
which the second remembers fewer. -/
def LeavesNoneLower (cells cells' : Finset κ) (memory memory' : Memory κ) : Prop :=
  ((cells.card : ℚ) - cells'.card) * ∑ cell ∈ cells', memory'.average cell ≤
    cells'.card * ∑ cell ∈ cells \ cells', memory.average cell

instance : Decidable (LeavesNoneLower cells cells' memory memory') :=
  inferInstanceAs (Decidable (_ ≤ _))

namespace Rules.Behind

/-- What the second owner's averages come to is found in the cells that both remember. -/
theorem sum_inter (behind : rules.Behind memory memory')
    (exact : ∀ cell, cell ∈ cells ↔ rules.active cell ∧ (memory cell).isSome)
    (exact' : ∀ cell, cell ∈ cells' ↔ rules.active cell ∧ (memory' cell).isSome) :
    ∑ cell ∈ cells ∩ cells', memory'.average cell = ∑ cell ∈ cells', memory'.average cell := by
  refine Finset.sum_subset Finset.inter_subset_right fun cell member outside => ?_
  have inside := ((exact' cell).mp member).1
  refine behind.eq_zero inside (Option.not_isSome_iff_eq_none.mp fun remembered => outside ?_)
  exact Finset.mem_inter.mpr ⟨(exact cell).mpr ⟨inside, remembered⟩, member⟩

/-- Means compare as sums do over the other's number of cells. -/
theorem meanAverage_le_iff (behind : rules.Behind memory memory')
    (exact : ∀ cell, cell ∈ cells ↔ rules.active cell ∧ (memory cell).isSome)
    (exact' : ∀ cell, cell ∈ cells' ↔ rules.active cell ∧ (memory' cell).isSome) :
    meanAverage cells' memory' ≤ meanAverage cells memory ↔
      (cells.card : ℚ) * ∑ cell ∈ cells', memory'.average cell ≤
        cells'.card * ∑ cell ∈ cells, memory.average cell := by
  have nonneg : 0 ≤ ∑ cell ∈ cells, memory.average cell :=
    Finset.sum_nonneg fun cell member => behind.nonneg_first ((exact cell).mp member).1
  rw [meanAverage, meanAverage]
  rcases cells'.eq_empty_or_nonempty with rfl | filled'
  · simp only [Finset.sum_empty, Finset.card_empty, Nat.cast_zero, div_zero, mul_zero, zero_mul,
      le_refl, iff_true]
    exact div_nonneg nonneg (Nat.cast_nonneg _)
  rcases cells.eq_empty_or_nonempty with rfl | filled
  · have none := behind.sum_inter exact exact'
    rw [Finset.empty_inter, Finset.sum_empty] at none
    simp [← none]
  have positive : (0 : ℚ) < cells.card := Nat.cast_pos.mpr (Finset.card_pos.mpr filled)
  have positive' : (0 : ℚ) < cells'.card := Nat.cast_pos.mpr (Finset.card_pos.mpr filled')
  rw [div_le_div_iff₀ positive' positive, mul_comm, mul_comm (cells'.card : ℚ)]

/-- An owner that is behind, and leaves no lower cells out, has no larger mean. -/
theorem meanAverage_le (behind : rules.Behind memory memory')
    (exact : ∀ cell, cell ∈ cells ↔ rules.active cell ∧ (memory cell).isSome)
    (exact' : ∀ cell, cell ∈ cells' ↔ rules.active cell ∧ (memory' cell).isSome)
    (leaves : LeavesNoneLower cells cells' memory memory') :
    meanAverage cells' memory' ≤ meanAverage cells memory := by
  rw [behind.meanAverage_le_iff exact exact', ← Finset.sum_inter_add_sum_sdiff cells cells']
  have common : ∑ cell ∈ cells', memory'.average cell ≤
      ∑ cell ∈ cells ∩ cells', memory.average cell := by
    rw [← behind.sum_inter exact exact']
    exact Finset.sum_le_sum fun cell member =>
      behind.below cell ((exact cell).mp (Finset.mem_inter.mp member).1).1
  have scaled := mul_le_mul_of_nonneg_left common (Nat.cast_nonneg cells'.card)
  rw [LeavesNoneLower] at leaves
  linarith

/-- Where the averages that both remember are the same, that is the only way to have no larger
mean. -/
theorem leavesNoneLower (behind : rules.Behind memory memory')
    (exact : ∀ cell, cell ∈ cells ↔ rules.active cell ∧ (memory cell).isSome)
    (exact' : ∀ cell, cell ∈ cells' ↔ rules.active cell ∧ (memory' cell).isSome)
    (same : ∀ cell ∈ cells ∩ cells', memory'.average cell = memory.average cell)
    (mean : meanAverage cells' memory' ≤ meanAverage cells memory) :
    LeavesNoneLower cells cells' memory memory' := by
  rw [behind.meanAverage_le_iff exact exact', ← Finset.sum_inter_add_sum_sdiff cells cells',
    ← Finset.sum_congr rfl same, behind.sum_inter exact exact'] at mean
  rw [LeavesNoneLower]
  linarith

end Rules.Behind

end Means

end Library.Fading
