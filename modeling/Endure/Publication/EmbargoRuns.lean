import Endure.Library.Noninterference
import Endure.Publication.Embargo
import Endure.Storage.ConcealedRounds

/-!
# Runs under embargo

What miners submit in a round reaches no answer before the round's embargo is over, whatever else
the validator does meanwhile.
-/

namespace Endure.Publication

open Library Library.Transitions Endure.Storage Endure.Scoring

/-! ### Runs -/

/-- A miner's commit or reveal in a round. -/
def FeedOperation.Submits (secret : RoundKey) : FeedOperation → Prop
  | .round operation _ => operation.Submits secret
  | .publishConsensus .. | .resolveAndScore .. => False

instance (secret : RoundKey) : DecidablePred (FeedOperation.Submits secret) := fun operation =>
  match operation with
  | .round operation _ => inferInstanceAs (Decidable (operation.Submits secret))
  | .publishConsensus .. | .resolveAndScore .. => inferInstanceAs (Decidable False)

/-- The transaction scores an earlier round, if it scores one. -/
def FeedOperation.Early (secret : RoundKey) : FeedOperation → Prop
  | .resolveAndScore _ call _ => call.roundId < secret.roundId
  | .round .. | .publishConsensus .. => True

/-- The state without what a round holds. -/
def FeedState.conceal (secret : RoundKey) (state : FeedState) : FeedState :=
  { state with store := state.store.conceal secret }

variable {secret : RoundKey}

/-- Scoring an earlier round reads nothing of a later one. -/
theorem resolveAndScore_conceal (orchestrator : AssessmentScoringOrchestrator) (store : Store)
    (tables : AssessmentTables) {call : ScoringCall} (earlier : call.roundId < secret.roundId) :
    orchestrator.resolveAndScore (store.conceal secret) tables call =
      orchestrator.resolveAndScore store tables call := by
  have elsewhere : (⟨call.roundId, orchestrator.config.schemaId⟩ : RoundKey) ≠ secret := by
    rintro rfl
    exact lt_irrefl _ earlier
  have accepted : orchestrator.config.acceptedValues (store.conceal secret) call.roundId =
      orchestrator.config.acceptedValues store call.roundId := by
    rw [AssessmentScoringConfig.acceptedValues, Store.scoringBundles_conceal elsewhere]
    rfl
  have scored (members : List ℕ) :
      orchestrator.scoreRound (store.conceal secret) tables call members =
        orchestrator.scoreRound store tables call members := by
    unfold AssessmentScoringOrchestrator.scoreRound
    simp only
    rw [accepted, Store.eligible_conceal earlier]
  have prepared : orchestrator.preparePass (store.conceal secret) tables call =
      orchestrator.preparePass store tables call := by
    unfold AssessmentScoringOrchestrator.preparePass
    simp only [scored]
    rfl
  unfold AssessmentScoringOrchestrator.resolveAndScore
  rw [prepared]

/-- Submissions in a round are concealed with it, and nothing else carries anything of it over. -/
theorem confines_embargo (limits : Limits) (secret : RoundKey) :
    Noninterference.Confines (FeedOperation.apply limits) (FeedState.conceal secret)
      (FeedOperation.Submits secret) (FeedOperation.Early secret) where
  conceals operation state submits := by
    cases operation with
    | round operation genuine =>
      exact congrArg (FeedState.mk · state.tables)
        (RoundOperation.conceal_apply_of_submits limits submits state.store)
    | publishConsensus bundleModel blends roundId nowIso => exact submits.elim
    | resolveAndScore orchestrator call reading => exact submits.elim
  respects operation first second early _ same := by
    have stores : first.store.conceal secret = second.store.conceal secret :=
      congrArg FeedState.store same
    have tables : (first.conceal secret).tables = (second.conceal secret).tables :=
      congrArg FeedState.tables same
    change first.tables = second.tables at tables
    -- an operation treats states alike that look alike
    have blind (operation : RoundOperation) :
        (operation.apply limits first.store).conceal secret =
          (operation.apply limits second.store).conceal secret := by
      rw [RoundOperation.blind_apply limits operation first.store, stores,
        ← RoundOperation.blind_apply limits operation second.store]
    cases operation with
    | round operation genuine => exact congrArg₂ FeedState.mk (blind operation) tables
    | publishConsensus bundleModel blends roundId nowIso =>
      exact congrArg₂ FeedState.mk (blind _) tables
    | resolveAndScore orchestrator call reading =>
      -- scoring an earlier round reads nothing of this one
      have earlier : ({ call with resolver := riskResolver reading } : ScoringCall).roundId <
        secret.roundId := early
      refine congrArg₂ FeedState.mk stores ?_
      unfold FeedOperation.apply ScoringTick.apply
      simp only
      rw [tables, ← resolveAndScore_conceal orchestrator first.store second.tables earlier, stores,
        resolveAndScore_conceal orchestrator second.store second.tables earlier]

/-- States that look alike and agree on the round's row. -/
theorem alike_of_conceal {left right : FeedState}
    (same : left.conceal secret = right.conceal secret)
    (row : left.store.rounds.get? secret = right.store.rounds.get? secret) :
    Alike {secret} left right := by
  have stores : left.store.conceal secret = right.store.conceal secret :=
    congrArg FeedState.store same
  have tables : (left.conceal secret).tables = (right.conceal secret).tables :=
    congrArg FeedState.tables same
  change left.tables = right.tables at tables
  have hides {κ ν : Type} {table table' : Dict (RoundKey × κ) ν}
      (same : hide secret table = hide secret table') :
      table.filter (fun key _ => key.1 ∉ ({secret} : Finset RoundKey)) =
        table'.filter fun key _ => key.1 ∉ ({secret} : Finset RoundKey) := by
    refine Dict.filter_eq_of_filter_eq same fun key _ shown => ?_
    exact decide_eq_true fun own => of_decide_eq_true shown (Finset.mem_singleton.mpr own)
  constructor
  · apply Dict.eq_of_get?
    · have keys : (left.store.conceal secret).rounds.keys =
          (right.store.conceal secret).rounds.keys := by rw [stores]
      rwa [Store.conceal, Store.conceal, Dict.keys_map, Dict.keys_map] at keys
    · intro round
      by_cases own : round = secret
      · rw [own, row]
      · rw [← Store.get?_rounds_conceal own, stores, Store.get?_rounds_conceal own]
  · exact show (left.conceal secret).store.universes = (right.conceal secret).store.universes
      by rw [same]
  · exact hides (congrArg Store.submissions stores)
  · exact hides (congrArg Store.consensus stores)
  · rw [tables]
  · rw [tables]
  · rw [tables]
  · rw [tables]

/-- Two histories that differ only in what miners commit and reveal in one round, and that show
the same row of it, get the same answer to every request until the round's embargo is over, as long
as neither it nor a later round has been scored. -/
theorem embargo_hides_submissions (limits : Limits) (secret : RoundKey)
    {operations operations' : List FeedOperation}
    (visible : operations.filter (fun operation => ¬operation.Submits secret) =
      operations'.filter fun operation => ¬operation.Submits secret)
    (early : ∀ operation ∈ operations, operation.Early secret)
    (row : (run (FeedOperation.apply limits) FeedState.empty operations).store.rounds.get? secret =
      (run (FeedOperation.apply limits) FeedState.empty operations').store.rounds.get? secret)
    {now : ℤ} (embargoed : Embargoed
      (run (FeedOperation.apply limits) FeedState.empty operations).store {secret} now)
    (context : ApiContext) (request : ApiRequest) :
    respond context now request (run (FeedOperation.apply limits) FeedState.empty operations) =
      respond context now request (run (FeedOperation.apply limits) FeedState.empty operations') := by
  have early' : ∀ operation ∈ operations', operation.Early secret := by
    intro operation member
    by_cases submits : operation.Submits secret
    · cases operation with
      | round operation genuine => trivial
      | publishConsensus bundleModel blends roundId nowIso => trivial
      | resolveAndScore orchestrator call reading => exact submits.elim
    · have kept : operation ∈ operations'.filter fun operation => ¬operation.Submits secret :=
        List.mem_filter.mpr ⟨member, decide_eq_true submits⟩
      rw [← visible] at kept
      exact early operation (List.mem_filter.mp kept).1
  have same := (confines_embargo limits secret).view_run_eq visible early early' FeedState.empty
  exact (alike_of_conceal same row).respond embargoed context request

/-- A round that is opened and revealed. -/
def revealedRound (submissions : List FeedOperation) : List FeedOperation :=
  .round (.openRound ⟨"2026-01-02", 0, 10, 10, 10, 20⟩ riskSchemaId none "2026-01-02T00:00:00+00:00"
    (some 30)) (fun _ _ taken => absurd taken (Option.some_ne_none _).symm) :: submissions ++
  [.publishConsensus (fun _ => none) Dict.empty "2026-01-02" "2026-01-02T08:00:00+00:00"]

/-- Before the embargo is over, nobody sees whether a miner has revealed. -/
theorem embargo_hides_submissions_reveal :
    respond ⟨none, none, none⟩ 25 (.round "2026-01-02")
        (run (FeedOperation.apply ⟨1, 1, le_rfl, le_rfl⟩) FeedState.empty (revealedRound
          [.round (.recordCommit (riskRound "2026-01-02") "miner" "hash" "now") trivial,
            .round (.recordReveal (riskRound "2026-01-02") "miner" "bundle" "nonce" true none "now")
              trivial])) =
      respond ⟨none, none, none⟩ 25 (.round "2026-01-02")
        (run (FeedOperation.apply ⟨1, 1, le_rfl, le_rfl⟩) FeedState.empty (revealedRound [])) := by
  refine embargo_hides_submissions _ (riskRound "2026-01-02") ?_ ?_ (by decide +kernel) ?_ _ _
  · simp [revealedRound, FeedOperation.Submits, RoundOperation.Submits]
  · intro operation member
    fin_cases member <;> trivial
  · have shown : (run (FeedOperation.apply ⟨1, 1, le_rfl, le_rfl⟩) FeedState.empty (revealedRound
        [.round (.recordCommit (riskRound "2026-01-02") "miner" "hash" "now") trivial,
          .round (.recordReveal (riskRound "2026-01-02") "miner" "bundle" "nonce" true none "now")
            trivial])).store.rounds.get? (riskRound "2026-01-02") =
        some ⟨.revealed, true, false, ⟨"2026-01-02", 0, 10, 10, 10, 20⟩, 30,
          "2026-01-02T00:00:00+00:00", "2026-01-02T08:00:00+00:00"⟩ := by decide +kernel
    intro round member row found
    cases Finset.mem_singleton.mp member
    cases shown.symm.trans found
    decide

end Endure.Publication
