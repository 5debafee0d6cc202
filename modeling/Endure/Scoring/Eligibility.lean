import Endure.Library.Dict
import Endure.Library.Transitions
import Endure.Scoring.Weights

/-!
# Confirming deregistration

`DeregistrationTracker` of `endure/scoring/eligibility.py`: a hotkey that is missing from
consecutive generations of the metagraph is confirmed deregistered, and archived. The tracker
lives in memory; a restart seeds it from the metagraph and the persisted scores.
-/

namespace Endure.Scoring

open Library Library.Transitions

def deregistrationConfirmationSyncs : ℕ := 2

/-- The members of a set as a loop meets them; the loops below do not depend on the order, and
the ascending one is taken. -/
def inTurn {κ : Type} [LinearOrder κ] (members : Finset κ) : List κ := members.sort

structure DeregistrationTracker where
  missingCounts : Dict Hotkey ℕ
  lastRegistered : Finset Hotkey

namespace DeregistrationTracker

def create : DeregistrationTracker := ⟨Dict.empty, ∅⟩

/-- Baseline from durable score state, not process history: whatever was tracked is dropped. -/
def seed (_tracker : DeregistrationTracker) (registered persisted : List Hotkey) :
    DeregistrationTracker :=
  ⟨Dict.empty, registered.toFinset ∪ persisted.toFinset⟩

/-- Count one more generation missed. -/
def miss (missingCounts : Dict Hotkey ℕ) (hotkey : Hotkey) : Dict Hotkey ℕ :=
  missingCounts.set hotkey (missingCounts.getD hotkey 0 + 1)

/-- Record one generation of the metagraph. -/
def advance (tracker : DeregistrationTracker) (current : List Hotkey) : DeregistrationTracker :=
  let registered := current.toFinset
  let absent := (tracker.missingCounts.keys.toFinset ∪ tracker.lastRegistered) \ registered
  { missingCounts := ((inTurn absent).foldl miss tracker.missingCounts).eraseAll (inTurn registered)
    lastRegistered := registered }

/-- Hotkeys confirmed deregistered, sorted for deterministic archival. -/
def confirmed (tracker : DeregistrationTracker) : List Hotkey :=
  ((tracker.missingCounts.entries.filter fun entry =>
    deregistrationConfirmationSyncs ≤ entry.2).map Prod.fst).insertionSort (· ≤ ·)

/-- Stop tracking confirmed hotkeys whose archival is complete. -/
def forgetSettled (tracker : DeregistrationTracker) (activeHotkeys : List Hotkey)
    (hasUnfinishedSubmission : Hotkey → Bool) : DeregistrationTracker :=
  { tracker with
    missingCounts := tracker.missingCounts.eraseAll (tracker.confirmed.filter fun hotkey =>
      hotkey ∉ activeHotkeys && !hasUnfinishedSubmission hotkey) }

end DeregistrationTracker

/-- The calls between two seeds. -/
inductive TrackerCall
  | advance (current : List Hotkey)
  | forgetSettled (activeHotkeys : List Hotkey) (hasUnfinishedSubmission : Hotkey → Bool)

namespace TrackerCall

def apply (call : TrackerCall) (tracker : DeregistrationTracker) : DeregistrationTracker :=
  match call with
  | advance current => tracker.advance current
  | forgetSettled activeHotkeys hasUnfinishedSubmission =>
    tracker.forgetSettled activeHotkeys hasUnfinishedSubmission

/-- The generation a call records. -/
def generation? : TrackerCall → Option (List Hotkey)
  | advance current => some current
  | forgetSettled _ _ => none

/-- The generations that calls recorded, the latest first. -/
def generations (calls : List TrackerCall) : List (List Hotkey) :=
  (calls.filterMap generation?).reverse

@[simp] theorem generations_nil : generations [] = [] := rfl

@[simp] theorem generations_advance (calls : List TrackerCall) (current : List Hotkey) :
    generations (calls ++ [advance current]) = current :: generations calls := by
  simp [generations, generation?]

@[simp] theorem generations_forgetSettled (calls : List TrackerCall) (activeHotkeys : List Hotkey)
    (hasUnfinishedSubmission : Hotkey → Bool) :
    generations (calls ++ [forgetSettled activeHotkeys hasUnfinishedSubmission]) =
      generations calls := by
  simp [generations, generation?]

end TrackerCall

/-- The latest generations a hotkey is missing from without a break. -/
def missed (hotkey : Hotkey) (generations : List (List Hotkey)) : ℕ :=
  (generations.takeWhile fun generation => hotkey ∉ generation).length

theorem missed_cons (hotkey : Hotkey) (generation : List Hotkey) (generations : List (List Hotkey)) :
    missed hotkey (generation :: generations) =
      if hotkey ∈ generation then 0 else missed hotkey generations + 1 := by
  by_cases present : hotkey ∈ generation <;> simp [missed, present]

/-- A hotkey is missing from each of the latest generations exactly when it missed that many. -/
theorem le_missed_iff (hotkey : Hotkey) (generations : List (List Hotkey)) (syncs : ℕ) :
    syncs ≤ missed hotkey generations ↔
      syncs ≤ generations.length ∧ ∀ generation ∈ generations.take syncs, hotkey ∉ generation := by
  induction generations generalizing syncs with
  | nil => cases syncs <;> simp [missed]
  | cons generation generations ih =>
    cases syncs with
    | zero => simp
    | succ syncs =>
      rw [missed_cons]
      by_cases present : hotkey ∈ generation
      · simp [present]
      · simp [present, ih syncs]

namespace DeregistrationTracker

variable {tracker : DeregistrationTracker} {hotkey : Hotkey}

/-! ### What the calls do to one hotkey -/

theorem mem_confirmed : hotkey ∈ tracker.confirmed ↔
    ∃ count, tracker.missingCounts.get? hotkey = some count ∧
      deregistrationConfirmationSyncs ≤ count := by
  simp only [confirmed, List.mem_insertionSort, List.mem_map, List.mem_filter, decide_eq_true_eq,
    Prod.exists, exists_and_right, exists_eq_right, Dict.get?_eq_some_iff]

theorem get?_foldl_miss {absent : List Hotkey} (nodup : absent.Nodup)
    (missingCounts : Dict Hotkey ℕ) :
    (absent.foldl miss missingCounts).get? hotkey =
      if hotkey ∈ absent then some (missingCounts.getD hotkey 0 + 1)
      else missingCounts.get? hotkey := by
  induction absent generalizing missingCounts with
  | nil => rfl
  | cons other absent ih =>
    rw [List.nodup_cons] at nodup
    rw [List.foldl_cons, ih nodup.2, miss, Dict.get?_set]
    by_cases same : hotkey = other
    · subst same
      simp [nodup.1]
    · simp [same, Dict.getD, Dict.get?_set]

/-- A generation clears the count of its members and counts every tracked hotkey it misses. -/
theorem get?_advance (current : List Hotkey) :
    (tracker.advance current).missingCounts.get? hotkey =
      if hotkey ∈ current then none
      else if hotkey ∈ tracker.lastRegistered then some (tracker.missingCounts.getD hotkey 0 + 1)
      else (tracker.missingCounts.get? hotkey).map (· + 1) := by
  simp only [advance, inTurn, Dict.get?_eraseAll, Finset.mem_sort, List.mem_toFinset]
  by_cases present : hotkey ∈ current
  · simp [present]
  · rw [if_neg present, if_neg present, get?_foldl_miss (Finset.sort_nodup _ _)]
    by_cases last : hotkey ∈ tracker.lastRegistered
    · simp [present, last]
    · cases counted : tracker.missingCounts.get? hotkey with
      | none => simp [present, last, counted, Dict.mem_keys_iff]
      | some count => simp [present, last, counted, Dict.mem_keys_iff, Dict.getD]

theorem get?_forgetSettled (activeHotkeys : List Hotkey)
    (hasUnfinishedSubmission : Hotkey → Bool) :
    (tracker.forgetSettled activeHotkeys hasUnfinishedSubmission).missingCounts.get? hotkey =
      if hotkey ∈ tracker.confirmed ∧ hotkey ∉ activeHotkeys ∧
          hasUnfinishedSubmission hotkey = false then none
      else tracker.missingCounts.get? hotkey := by
  simp only [forgetSettled, Dict.get?_eraseAll, List.mem_filter, Bool.and_eq_true,
    decide_eq_true_eq, Bool.not_eq_true']

/-! ### Tracked and ignored hotkeys -/

/-- A tracked hotkey: its count is the number of generations it has missed, and a count of none
means that the last generation has it. -/
structure Tracks (tracker : DeregistrationTracker) (hotkey : Hotkey) (count : ℕ) : Prop where
  counted : tracker.missingCounts.get? hotkey = if count = 0 then none else some count
  registered : count = 0 ↔ hotkey ∈ tracker.lastRegistered

/-- A hotkey the tracker knows nothing of. -/
structure Ignores (tracker : DeregistrationTracker) (hotkey : Hotkey) : Prop where
  uncounted : tracker.missingCounts.get? hotkey = none
  unregistered : hotkey ∉ tracker.lastRegistered

/-- A call that settles the archived hotkeys drops this one. -/
def Forgets (tracker : DeregistrationTracker) (activeHotkeys : List Hotkey)
    (hasUnfinishedSubmission : Hotkey → Bool) (hotkey : Hotkey) : Prop :=
  (tracker.missingCounts.get? hotkey).isSome ∧
    (tracker.forgetSettled activeHotkeys hasUnfinishedSubmission).missingCounts.get? hotkey = none

theorem forgets_iff {activeHotkeys : List Hotkey} {hasUnfinishedSubmission : Hotkey → Bool} :
    tracker.Forgets activeHotkeys hasUnfinishedSubmission hotkey ↔
      hotkey ∈ tracker.confirmed ∧ hotkey ∉ activeHotkeys ∧
        hasUnfinishedSubmission hotkey = false := by
  rw [Forgets, get?_forgetSettled]
  constructor
  · rintro ⟨counted, dropped⟩
    split_ifs at dropped with settled
    · exact settled
    · rw [dropped] at counted
      cases counted
  · intro settled
    obtain ⟨count, counted, -⟩ := mem_confirmed.mp settled.1
    exact ⟨by rw [counted]; rfl, if_pos settled⟩

theorem Tracks.mem_confirmed_iff {count : ℕ} (tracks : tracker.Tracks hotkey count) :
    hotkey ∈ tracker.confirmed ↔ deregistrationConfirmationSyncs ≤ count := by
  rw [mem_confirmed, tracks.counted]
  by_cases none : count = 0
  · simp [none, deregistrationConfirmationSyncs]
  · simp [none]

theorem Ignores.not_confirmed (ignores : tracker.Ignores hotkey) : hotkey ∉ tracker.confirmed := by
  intro confirmed
  obtain ⟨count, counted, -⟩ := mem_confirmed.mp confirmed
  rw [ignores.uncounted] at counted
  cases counted

theorem Tracks.advance {count : ℕ} (tracks : tracker.Tracks hotkey count) (current : List Hotkey) :
    (tracker.advance current).Tracks hotkey (if hotkey ∈ current then 0 else count + 1) := by
  constructor
  · rw [get?_advance]
    by_cases present : hotkey ∈ current
    · simp [present]
    · by_cases registered : hotkey ∈ tracker.lastRegistered
      · have none := tracks.registered.mpr registered
        simp [present, registered, Dict.getD, tracks.counted, none]
      · have some := (not_congr tracks.registered).mpr registered
        simp [present, registered, tracks.counted, some]
  · by_cases present : hotkey ∈ current <;> simp [DeregistrationTracker.advance, present]

/-- Whatever happened before, a hotkey is tracked from a generation that has it. -/
theorem tracks_advance_of_mem {current : List Hotkey} (present : hotkey ∈ current) :
    (tracker.advance current).Tracks hotkey 0 :=
  ⟨by rw [get?_advance, if_pos present]; rfl, by simp [DeregistrationTracker.advance, present]⟩

theorem Ignores.advance_of_notMem (ignores : tracker.Ignores hotkey) {current : List Hotkey}
    (absent : hotkey ∉ current) : (tracker.advance current).Ignores hotkey :=
  ⟨by simp [get?_advance, absent, ignores.unregistered, ignores.uncounted],
    by simp [DeregistrationTracker.advance, absent]⟩

section forgetSettled

variable (activeHotkeys : List Hotkey) (hasUnfinishedSubmission : Hotkey → Bool)

theorem Tracks.forgetSettled {count : ℕ} (tracks : tracker.Tracks hotkey count)
    (kept : ¬tracker.Forgets activeHotkeys hasUnfinishedSubmission hotkey) :
    (tracker.forgetSettled activeHotkeys hasUnfinishedSubmission).Tracks hotkey count := by
  rw [forgets_iff] at kept
  exact ⟨by rw [get?_forgetSettled, if_neg kept, tracks.counted], tracks.registered⟩

theorem Tracks.ignores_of_forgets {count : ℕ} (tracks : tracker.Tracks hotkey count)
    (dropped : tracker.Forgets activeHotkeys hasUnfinishedSubmission hotkey) :
    (tracker.forgetSettled activeHotkeys hasUnfinishedSubmission).Ignores hotkey := by
  have long := tracks.mem_confirmed_iff.mp (forgets_iff.mp dropped).1
  refine ⟨dropped.2, fun registered => ?_⟩
  rw [tracks.registered.mpr registered] at long
  exact absurd long (by decide)

theorem Ignores.forgetSettled (ignores : tracker.Ignores hotkey) :
    (tracker.forgetSettled activeHotkeys hasUnfinishedSubmission).Ignores hotkey := by
  refine ⟨?_, ignores.unregistered⟩
  rw [get?_forgetSettled, ignores.uncounted, ite_self]

end forgetSettled

/-- An ignored hotkey stays ignored until a generation has it. -/
theorem Ignores.run (ignores : tracker.Ignores hotkey) {calls : List TrackerCall}
    (absent : ∀ generation ∈ TrackerCall.generations calls, hotkey ∉ generation) :
    (run TrackerCall.apply tracker calls).Ignores hotkey := by
  induction calls using List.reverseRecOn with
  | nil => exact ignores
  | append_singleton calls call ih =>
    rw [run_append, run_cons, run_nil]
    cases call with
    | advance current =>
      rw [TrackerCall.generations_advance] at absent
      exact (ih fun generation member => absent generation (List.mem_cons_of_mem _ member))
        |>.advance_of_notMem (absent current List.mem_cons_self)
    | forgetSettled activeHotkeys hasUnfinishedSubmission =>
      rw [TrackerCall.generations_forgetSettled] at absent
      exact (ih absent).forgetSettled activeHotkeys hasUnfinishedSubmission

/-! ### Histories -/

/-- A hotkey that the latest seed or a generation after it had. -/
def Known (registered persisted : List Hotkey) (calls : List TrackerCall) (hotkey : Hotkey) : Prop :=
  hotkey ∈ registered ∨ hotkey ∈ persisted ∨
    ∃ generation ∈ TrackerCall.generations calls, hotkey ∈ generation

/-- A call dropped the hotkey, and no generation after the call has it. -/
def ForgottenSince (tracker : DeregistrationTracker) (calls : List TrackerCall) (hotkey : Hotkey) :
    Prop :=
  ∃ earlier activeHotkeys hasUnfinishedSubmission later,
    calls = earlier ++ .forgetSettled activeHotkeys hasUnfinishedSubmission :: later ∧
      (run TrackerCall.apply tracker earlier).Forgets activeHotkeys hasUnfinishedSubmission hotkey ∧
      ∀ generation ∈ TrackerCall.generations later, hotkey ∉ generation

theorem forgottenSince_advance {calls : List TrackerCall} {current : List Hotkey} :
    tracker.ForgottenSince (calls ++ [.advance current]) hotkey ↔
      tracker.ForgottenSince calls hotkey ∧ hotkey ∉ current := by
  constructor
  · rintro ⟨earlier, activeHotkeys, hasUnfinishedSubmission, later, split, dropped, absent⟩
    rcases List.eq_nil_or_concat later with rfl | ⟨later, last, rfl⟩
    · have := (List.append_inj' split rfl).2
      cases this
    · rw [List.concat_eq_append, ← List.cons_append, ← List.append_assoc] at split
      obtain ⟨rfl, same⟩ := List.append_inj' split rfl
      cases same
      rw [List.concat_eq_append, TrackerCall.generations_advance] at absent
      exact ⟨⟨earlier, activeHotkeys, hasUnfinishedSubmission, later, rfl, dropped,
        fun generation member => absent generation (List.mem_cons_of_mem _ member)⟩,
        absent current List.mem_cons_self⟩
  · rintro ⟨⟨earlier, activeHotkeys, hasUnfinishedSubmission, later, rfl, dropped, absent⟩, missing⟩
    refine ⟨earlier, activeHotkeys, hasUnfinishedSubmission, later ++ [.advance current], by simp,
      dropped, ?_⟩
    rw [TrackerCall.generations_advance]
    simpa using ⟨missing, absent⟩

theorem forgottenSince_forgetSettled {calls : List TrackerCall} {activeHotkeys : List Hotkey}
    {hasUnfinishedSubmission : Hotkey → Bool} :
    tracker.ForgottenSince (calls ++ [.forgetSettled activeHotkeys hasUnfinishedSubmission]) hotkey ↔
      tracker.ForgottenSince calls hotkey ∨
        (run TrackerCall.apply tracker calls).Forgets activeHotkeys hasUnfinishedSubmission
          hotkey := by
  constructor
  · rintro ⟨earlier, active, hasUnfinished, later, split, dropped, absent⟩
    rcases List.eq_nil_or_concat later with rfl | ⟨later, last, rfl⟩
    · obtain ⟨rfl, same⟩ := List.append_inj' split rfl
      cases same
      exact Or.inr dropped
    · rw [List.concat_eq_append, ← List.cons_append, ← List.append_assoc] at split
      obtain ⟨rfl, same⟩ := List.append_inj' split rfl
      cases same
      rw [List.concat_eq_append, TrackerCall.generations_forgetSettled] at absent
      exact Or.inl ⟨earlier, active, hasUnfinished, later, rfl, dropped, absent⟩
  · rintro (⟨earlier, active, hasUnfinished, later, rfl, dropped, absent⟩ | dropped)
    · refine ⟨earlier, active, hasUnfinished,
        later ++ [.forgetSettled activeHotkeys hasUnfinishedSubmission], by simp, dropped, ?_⟩
      rw [TrackerCall.generations_forgetSettled]
      exact absent
    · exact ⟨calls, activeHotkeys, hasUnfinishedSubmission, [], rfl, dropped, by simp⟩

/-- After any calls a hotkey that is known and not forgotten since is tracked with the number of
generations it has missed, and any other is ignored. -/
theorem tracks_or_ignores (registered persisted : List Hotkey) (calls : List TrackerCall)
    (hotkey : Hotkey) :
    (Known registered persisted calls hotkey ∧
        ¬(tracker.seed registered persisted).ForgottenSince calls hotkey ∧
        (run TrackerCall.apply (tracker.seed registered persisted) calls).Tracks hotkey
          (missed hotkey (TrackerCall.generations calls))) ∨
      ((Known registered persisted calls hotkey →
        (tracker.seed registered persisted).ForgottenSince calls hotkey) ∧
        (run TrackerCall.apply (tracker.seed registered persisted) calls).Ignores hotkey) := by
  induction calls using List.reverseRecOn with
  | nil =>
    have fresh : ¬(tracker.seed registered persisted).ForgottenSince [] hotkey := by
      rintro ⟨earlier, _, _, later, split, _⟩
      simp at split
    by_cases seeded : hotkey ∈ registered ∨ hotkey ∈ persisted
    · exact Or.inl ⟨by simpa [Known] using seeded, fresh, ⟨rfl, by simpa [seed, missed] using seeded⟩⟩
    · exact Or.inr ⟨fun known => absurd (by simpa [Known] using known) seeded,
        ⟨rfl, by simpa [seed] using seeded⟩⟩
  | append_singleton calls call ih =>
    rw [run_append, run_cons, run_nil]
    cases call with
    | advance current =>
      rw [TrackerCall.generations_advance, missed_cons, forgottenSince_advance]
      have known : Known registered persisted (calls ++ [.advance current]) hotkey ↔
          Known registered persisted calls hotkey ∨ hotkey ∈ current := by
        simp only [Known, TrackerCall.generations_advance, List.mem_cons, exists_eq_or_imp]
        grind
      rw [known]
      -- a generation that has the hotkey starts its count again
      by_cases present : hotkey ∈ current
      · rw [if_pos present]
        exact Or.inl ⟨Or.inr present, fun forgotten => forgotten.2 present,
          tracks_advance_of_mem present⟩
      · rw [if_neg present]
        rcases ih with ⟨isKnown, kept, tracks⟩ | ⟨gone, ignores⟩
        · have after := tracks.advance current
          rw [if_neg present] at after
          exact Or.inl ⟨Or.inl isKnown, fun forgotten => kept forgotten.1, after⟩
        · exact Or.inr ⟨fun isKnown => ⟨gone (isKnown.resolve_right present), present⟩,
            ignores.advance_of_notMem present⟩
    | forgetSettled activeHotkeys hasUnfinishedSubmission =>
      rw [TrackerCall.generations_forgetSettled, forgottenSince_forgetSettled]
      have known : Known registered persisted
          (calls ++ [.forgetSettled activeHotkeys hasUnfinishedSubmission]) hotkey ↔
          Known registered persisted calls hotkey := by
        rw [Known, TrackerCall.generations_forgetSettled, Known]
      rw [known]
      rcases ih with ⟨isKnown, kept, tracks⟩ | ⟨gone, ignores⟩
      -- only a tracked hotkey can be dropped
      · by_cases dropped : (run TrackerCall.apply (tracker.seed registered persisted)
            calls).Forgets activeHotkeys hasUnfinishedSubmission hotkey
        · exact Or.inr ⟨fun _ => Or.inr dropped, tracks.ignores_of_forgets _ _ dropped⟩
        · exact Or.inl ⟨isKnown, not_or.mpr ⟨kept, dropped⟩, tracks.forgetSettled _ _ dropped⟩
      · exact Or.inr ⟨fun isKnown => Or.inl (gone isKnown),
          ignores.forgetSettled activeHotkeys hasUnfinishedSubmission⟩

/-- After a seed and any calls: a hotkey that is known and not forgotten since is confirmed
deregistered exactly when enough generations were recorded and each of the latest ones misses
it; one that any of them has is never confirmed; a hotkey is forgotten exactly when it is
confirmed with nothing left to archive, and from then on ignored until it registers again. -/
theorem deregistration_confirmed_iff (tracker : DeregistrationTracker)
    (registered persisted : List Hotkey) (calls : List TrackerCall) (hotkey : Hotkey) :
    let seeded := tracker.seed registered persisted
    let current := run TrackerCall.apply seeded calls
    let latest := (TrackerCall.generations calls).take deregistrationConfirmationSyncs
    (Known registered persisted calls hotkey → ¬seeded.ForgottenSince calls hotkey →
      (hotkey ∈ current.confirmed ↔
        deregistrationConfirmationSyncs ≤ (TrackerCall.generations calls).length ∧
          ∀ generation ∈ latest, hotkey ∉ generation)) ∧
    ((∃ generation ∈ latest, hotkey ∈ generation) → hotkey ∉ current.confirmed) ∧
    ∀ activeHotkeys hasUnfinishedSubmission,
      (current.Forgets activeHotkeys hasUnfinishedSubmission hotkey ↔
        hotkey ∈ current.confirmed ∧ hotkey ∉ activeHotkeys ∧
          hasUnfinishedSubmission hotkey = false) ∧
      ∀ later, current.Forgets activeHotkeys hasUnfinishedSubmission hotkey →
        (∀ generation ∈ TrackerCall.generations later, hotkey ∉ generation) →
        (run TrackerCall.apply (current.forgetSettled activeHotkeys hasUnfinishedSubmission)
          later).Ignores hotkey := by
  intro seeded current latest
  -- at any time a hotkey is tracked with its count or ignored
  have status := tracker.tracks_or_ignores registered persisted calls hotkey
  refine ⟨?_, ?_, ?_⟩
  · intro known kept
    rcases status with ⟨-, -, tracks⟩ | ⟨gone, -⟩
    · rw [tracks.mem_confirmed_iff, le_missed_iff]
    · exact absurd (gone known) kept
  · rintro ⟨generation, member, present⟩ confirmed
    rcases status with ⟨-, -, tracks⟩ | ⟨-, ignores⟩
    · rw [tracks.mem_confirmed_iff, le_missed_iff] at confirmed
      exact confirmed.2 generation member present
    · exact ignores.not_confirmed confirmed
  · intro activeHotkeys hasUnfinishedSubmission
    refine ⟨forgets_iff, ?_⟩
    intro later dropped absent
    rcases status with ⟨-, -, tracks⟩ | ⟨-, ignores⟩
    · exact (tracks.ignores_of_forgets _ _ dropped).run absent
    · exact absurd (forgets_iff.mp dropped).1 ignores.not_confirmed

end DeregistrationTracker

end Endure.Scoring
