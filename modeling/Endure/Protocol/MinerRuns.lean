import Endure.Protocol.MinerService

/-!
# Runs of the miner

Over rounds that do not go back, a run whose commit ticks find in the state file every round
that they find in memory pushes no commit that the file does not hold, one hash for each
round, and only reveals that open it. A commit tick that finds its round in memory alone, as
one does after a failed write, pushes a commit that a restart could not open.
-/

namespace Endure.Protocol

open Library Library.Transitions Endure.Scoring

/-! ## The tracked rounds -/

/-- The newest round is tracked. -/
theorem mem_trackedRounds_of_newest {rounds : List String} {roundId : String}
    (member : roundId ∈ rounds) (newest : ∀ other ∈ rounds, other ≤ roundId) :
    roundId ∈ trackedRounds rounds := by
  have : Std.Total (α := String) (· ≤ ·) := ⟨le_total⟩
  have : IsTrans String (· ≤ ·) := ⟨fun _ _ _ => le_trans⟩
  have ordered := List.pairwise_insertionSort (· ≤ ·) rounds
  have sorted : roundId ∈ rounds.insertionSort (· ≤ ·) :=
    (List.mem_insertionSort (· ≤ ·)).mpr member
  have bounded : ∀ other ∈ rounds.insertionSort (· ≤ ·), other ≤ roundId :=
    fun other present => newest other ((List.mem_insertionSort (· ≤ ·)).mp present)
  rw [trackedRounds]
  generalize rounds.insertionSort (· ≤ ·) = ascending at ordered sorted bounded
  have nonempty : ascending ≠ [] := List.ne_nil_of_mem sorted
  -- The last of the ascending rounds is the newest, and it is never dropped.
  have last : ascending.getLast nonempty = roundId := by
    refine le_antisymm (bounded _ (List.getLast_mem nonempty)) ?_
    rw [← List.dropLast_append_getLast nonempty, List.mem_append, List.mem_singleton] at sorted
    rcases sorted with before | same
    · exact ordered.rel_dropLast_getLast before
    · exact same.le
  have kept : ascending.drop (ascending.length - maxTrackedRounds) ≠ [] := by
    have := List.length_pos_iff.mpr nonempty
    rw [← List.length_pos_iff, List.length_drop, maxTrackedRounds]
    omega
  rw [← last, ← List.getLast_drop kept]
  exact List.getLast_mem kept

section State

variable {service : MinerRoundService} {roundId : String}

theorem get?_statePayload_eq (service : MinerRoundService) (roundId : String) :
    service.statePayload.get? roundId =
      if roundId ∈ trackedRounds service.assembled.keys then
        (service.assembled.get? roundId).map fun assembled =>
          ⟨assembled, roundId ∈ service.committed, roundId ∈ service.revealed⟩
      else none := by
  have built := Dict.get?_ofEntries_filterMap (trackedRounds service.assembled.keys)
    (fun roundId => (service.assembled.get? roundId).map fun assembled => StateEntry.mk assembled
      (roundId ∈ service.committed) (roundId ∈ service.revealed)) roundId
  simp only [Option.map_map] at built
  exact built

/-- What is written of a round is what is remembered of it. -/
theorem get?_statePayload {entry : StateEntry}
    (written : service.statePayload.get? roundId = some entry) :
    service.assembled.get? roundId = some entry.submission ∧
      (entry.committed → roundId ∈ service.committed) := by
  rw [get?_statePayload_eq] at written
  split at written
  · obtain ⟨assembled, known, rfl⟩ := Option.map_eq_some_iff.mp written
    exact ⟨known, of_decide_eq_true⟩
  · cases written

/-- The newest round that is remembered is written. -/
theorem exists_statePayload {assembled : AssembledSubmission}
    (known : service.assembled.get? roundId = some assembled)
    (newest : ∀ other ∈ service.assembled.keys, other ≤ roundId) :
    ∃ entry, service.statePayload.get? roundId = some entry ∧ entry.submission = assembled := by
  have member : roundId ∈ service.assembled.keys := Dict.mem_keys_iff.mpr ⟨assembled, known⟩
  rw [get?_statePayload_eq, if_pos (mem_trackedRounds_of_newest member newest), known]
  exact ⟨_, rfl, rfl⟩

theorem get?_loadState_eq (payload : Dict String StateEntry) (roundId : String) :
    (MinerRoundService.loadState (some payload)).assembled.get? roundId =
      if roundId ∈ trackedRounds payload.keys then
        (payload.get? roundId).map StateEntry.submission
      else none := by
  have built := Dict.get?_ofEntries_filterMap (trackedRounds payload.keys)
    (fun roundId => (payload.get? roundId).map StateEntry.submission) roundId
  rw [MinerRoundService.loadState]
  simp only [List.map_filterMap, Option.map_map] at built ⊢
  exact built

/-- What is loaded of a round is what is written of it. -/
theorem get?_loadState {file : Option (Dict String StateEntry)}
    {assembled : AssembledSubmission}
    (loaded : (MinerRoundService.loadState file).assembled.get? roundId = some assembled) :
    ∃ payload entry, file = some payload ∧ payload.get? roundId = some entry ∧
      entry.submission = assembled := by
  cases file with
  | none => cases loaded
  | some payload =>
    rw [get?_loadState_eq] at loaded
    split at loaded
    · obtain ⟨entry, written, rfl⟩ := Option.map_eq_some_iff.mp loaded
      exact ⟨payload, entry, rfl, written, rfl⟩
    · cases loaded

/-- The newest round that is written is loaded. -/
theorem loadState_of_newest {payload : Dict String StateEntry} {entry : StateEntry}
    (written : payload.get? roundId = some entry)
    (newest : ∀ other ∈ payload.keys, other ≤ roundId) :
    (MinerRoundService.loadState (some payload)).assembled.get? roundId =
      some entry.submission := by
  have member : roundId ∈ payload.keys := Dict.mem_keys_iff.mpr ⟨entry, written⟩
  rw [get?_loadState_eq, if_pos (mem_trackedRounds_of_newest member newest), written]
  rfl

/-- A round that is loaded as committed is written as committed, and loaded. -/
theorem mem_committed_loadState {file : Option (Dict String StateEntry)}
    (committed : roundId ∈ (MinerRoundService.loadState file).committed) :
    ∃ payload entry, file = some payload ∧ payload.get? roundId = some entry ∧
      entry.committed ∧
      (MinerRoundService.loadState file).assembled.get? roundId = some entry.submission := by
  cases file with
  | none => simp [MinerRoundService.loadState, MinerRoundService.fresh] at committed
  | some payload =>
    rw [MinerRoundService.loadState, List.mem_toFinset] at committed
    obtain ⟨⟨other, entry⟩, member, rfl⟩ := List.mem_map.mp committed
    obtain ⟨listed, flagged⟩ := List.mem_filter.mp member
    obtain ⟨source, tracked, found⟩ := List.mem_filterMap.mp listed
    obtain ⟨entry, written, same⟩ := Option.map_eq_some_iff.mp found
    cases same
    refine ⟨payload, entry, rfl, written, flagged, ?_⟩
    rw [get?_loadState_eq, if_pos tracked, written]
    rfl

end State

/-! ## What a run keeps -/

namespace MinerWorld

/-- The file holds a submission for a round. -/
def FileHolds (file : Option (Dict String StateEntry)) (roundId : String)
    (assembled : AssembledSubmission) : Prop :=
  ∃ payload entry, file = some payload ∧ payload.get? roundId = some entry ∧
    entry.submission = assembled

/-- Every commit was pushed while the file held its bundle, nonce and hash. -/
def EachCommitDurable (sent : List Sent) : Prop :=
  ∀ synapse assembled file, Sent.commit synapse assembled file ∈ sent →
    synapse.bundleHash = assembled.bundleHash ∧ FileHolds file synapse.roundId assembled

/-- All commits of a round carry one hash. -/
def OneHashPerRound (sent : List Sent) : Prop :=
  ∀ synapse assembled file synapse' assembled' file',
    Sent.commit synapse assembled file ∈ sent → Sent.commit synapse' assembled' file' ∈ sent →
    synapse.roundId = synapse'.roundId → synapse.bundleHash = synapse'.bundleHash

variable {payload : Type}

/-- Every reveal opens the hash of a commit of its round. -/
def RevealsOpen (miner : Miner payload) (sent : List Sent) : Prop :=
  ∀ synapse, Sent.reveal synapse ∈ sent → ∃ committed assembled file,
    Sent.commit committed assembled file ∈ sent ∧ committed.roundId = synapse.roundId ∧
    Opens miner.codec miner.hotkey synapse.bundleJson synapse.nonceHex committed.bundleHash

/-- What holds of a miner that has met no round past the latest one. -/
structure Holds (miner : Miner payload) (world : MinerWorld) (latest : String) : Prop where
  remembered : ∀ roundId ∈ world.service.assembled.keys, roundId ≤ latest
  written : ∀ payload, world.file = some payload → ∀ roundId ∈ payload.keys, roundId ≤ latest
  pushed : ∀ sent ∈ world.sent, sent.roundId ≤ latest
  /-- Memory and file agree, and the latest round is not in the file alone. -/
  agree : ∀ roundId assembled other, world.service.assembled.get? roundId = some assembled →
    FileHolds world.file roundId other → other = assembled
  loaded : ∀ assembled, FileHolds world.file latest assembled →
    latest ∈ world.service.assembled.keys
  opens : ∀ roundId assembled, world.service.assembled.get? roundId = some assembled →
    Opens miner.codec miner.hotkey assembled.bundleJson assembled.nonceHex assembled.bundleHash
  opensWritten : ∀ roundId assembled, FileHolds world.file roundId assembled →
    Opens miner.codec miner.hotkey assembled.bundleJson assembled.nonceHex assembled.bundleHash
  /-- Only a round with a pushed commit is marked as committed. -/
  committed : ∀ roundId ∈ world.service.committed, ∃ synapse assembled file,
    Sent.commit synapse assembled file ∈ world.sent ∧ synapse.roundId = roundId
  committedWritten : ∀ payload roundId entry, world.file = some payload →
    payload.get? roundId = some entry → entry.committed → ∃ synapse assembled file,
      Sent.commit synapse assembled file ∈ world.sent ∧ synapse.roundId = roundId
  /-- What was committed of the latest round is still remembered and written. -/
  kept : ∀ synapse assembled file, Sent.commit synapse assembled file ∈ world.sent →
    synapse.roundId = latest → world.service.assembled.get? latest = some assembled ∧
      FileHolds world.file latest assembled
  durable : EachCommitDurable world.sent
  oneHash : OneHashPerRound world.sent
  reveals : RevealsOpen miner world.sent

variable {miner : Miner payload} {world : MinerWorld} {latest : String}

theorem Holds.start (miner : Miner payload) (latest : String) : start.Holds miner latest := by
  constructor
  all_goals simp [MinerWorld.start, MinerRoundService.fresh, FileHolds, EachCommitDurable,
    OneHashPerRound, RevealsOpen, Dict.empty, Dict.keys, Dict.get?]

theorem FileHolds.le (holds : world.Holds miner latest) {roundId : String}
    {assembled : AssembledSubmission} (written : FileHolds world.file roundId assembled) :
    roundId ≤ latest := by
  obtain ⟨payload, entry, file, found, -⟩ := written
  exact holds.written payload file roundId (Dict.mem_keys_iff.mpr ⟨entry, found⟩)

/-- A later round is met with nothing of it remembered, written or pushed. -/
theorem Holds.mono (holds : world.Holds miner latest) {later : String} (grows : latest ≤ later) :
    world.Holds miner later := by
  rcases grows.eq_or_lt with rfl | past
  · exact holds
  · exact {
      remembered := fun roundId known => (holds.remembered roundId known).trans grows
      written := fun payload file roundId known =>
        (holds.written payload file roundId known).trans grows
      pushed := fun sent member => (holds.pushed sent member).trans grows
      agree := holds.agree
      loaded := fun assembled written => absurd (written.le holds) (not_le.mpr past)
      opens := holds.opens
      opensWritten := holds.opensWritten
      committed := holds.committed
      committedWritten := holds.committedWritten
      kept := fun synapse assembled file member same =>
        absurd (holds.pushed _ member) (not_le.mpr (past.trans_eq same.symm))
      durable := holds.durable
      oneHash := holds.oneHash
      reveals := holds.reveals }

/-- Writing the file keeps what holds. -/
theorem Holds.persistState (holds : world.Holds miner latest) (writes : Bool) :
    (world.persistState writes).Holds miner latest := by
  rw [MinerWorld.persistState]
  split
  -- what the new file holds is what the service remembers
  · have written {roundId : String} {assembled : AssembledSubmission}
        (found : FileHolds (some world.service.statePayload) roundId assembled) :
        world.service.assembled.get? roundId = some assembled := by
      obtain ⟨payload, entry, same, found, rfl⟩ := found
      cases same
      exact (get?_statePayload found).1
    exact {
      remembered := holds.remembered
      written := by
        rintro payload same roundId known
        cases same
        obtain ⟨entry, found⟩ := Dict.mem_keys_iff.mp known
        exact holds.remembered roundId (Dict.mem_keys_iff.mpr ⟨_, (get?_statePayload found).1⟩)
      pushed := holds.pushed
      agree := fun roundId assembled other known found =>
        Option.some.inj ((written found).symm.trans known)
      loaded := fun assembled found => Dict.mem_keys_iff.mpr ⟨assembled, written found⟩
      opens := holds.opens
      opensWritten := fun roundId assembled found => holds.opens roundId assembled (written found)
      committed := holds.committed
      committedWritten := by
        rintro payload roundId entry same found flagged
        cases same
        exact holds.committed roundId ((get?_statePayload found).2 flagged)
      kept := by
        intro synapse assembled file member same
        -- a kept submission is remembered, so it is in the new file too
        have known := (holds.kept synapse assembled file member same).1
        obtain ⟨entry, found, submission⟩ := exists_statePayload known holds.remembered
        exact ⟨known, _, entry, rfl, found, submission⟩
      durable := holds.durable
      oneHash := holds.oneHash
      reveals := holds.reveals }
  · exact holds

/-- Remembering a submission of the latest round, of which nothing was remembered. -/
theorem Holds.remember (holds : world.Holds miner latest) {assembled : AssembledSubmission}
    (unknown : world.service.assembled.get? latest = none)
    (opens : Opens miner.codec miner.hotkey assembled.bundleJson assembled.nonceHex
      assembled.bundleHash) : (world.remember latest assembled).Holds miner latest := by
  -- a written submission would have been loaded, and nothing is remembered of the round
  have unwritten (other : AssembledSubmission) : ¬FileHolds world.file latest other := fun found =>
    Dict.get?_eq_none_iff.mp unknown (holds.loaded other found)
  have found {roundId : String} {other : AssembledSubmission}
      (known : (world.remember latest assembled).service.assembled.get? roundId = some other) :
      roundId = latest ∧ other = assembled ∨ world.service.assembled.get? roundId = some other := by
    simp only [MinerWorld.remember, Dict.get?_set] at known
    split at known
    · next same => exact .inl ⟨same, (Option.some.inj known).symm⟩
    · exact .inr known
  exact {
    remembered := by
      intro roundId known
      rcases Dict.mem_keys_set.mp known with rfl | known
      · exact le_rfl
      · exact holds.remembered roundId known
    written := holds.written
    pushed := holds.pushed
    agree := by
      intro roundId one other known written
      rcases found known with ⟨rfl, -⟩ | known
      · exact absurd written (unwritten other)
      · exact holds.agree roundId one other known written
    loaded := fun other written => absurd written (unwritten other)
    opens := by
      intro roundId other known
      rcases found known with ⟨-, rfl⟩ | known
      · exact opens
      · exact holds.opens roundId other known
    opensWritten := holds.opensWritten
    committed := holds.committed
    committedWritten := holds.committedWritten
    kept := fun synapse other file member same =>
      absurd (holds.kept synapse other file member same).2 (unwritten other)
    durable := holds.durable
    oneHash := holds.oneHash
    reveals := holds.reveals }

/-- Pushing the commit of a submission of the latest round that is remembered and written. -/
theorem Holds.sendCommit (holds : world.Holds miner latest) {assembled : AssembledSubmission}
    (known : world.service.assembled.get? latest = some assembled)
    (written : FileHolds world.file latest assembled) (schemaId : String) (specVersion : ℤ) :
    (world.send (.commit ⟨latest, schemaId, specVersion, assembled.bundleHash⟩ assembled
      world.file)).Holds miner latest := by
  have earlier {sent : Sent} (member : sent ∈ (world.send (.commit
      ⟨latest, schemaId, specVersion, assembled.bundleHash⟩ assembled world.file)).sent) :
      sent ∈ world.sent ∨ sent = .commit
        ⟨latest, schemaId, specVersion, assembled.bundleHash⟩ assembled world.file := by
    simpa [MinerWorld.send] using member
  have later {sent : Sent} (member : sent ∈ world.sent) : sent ∈ (world.send (.commit
      ⟨latest, schemaId, specVersion, assembled.bundleHash⟩ assembled world.file)).sent :=
    List.mem_append_left _ member
  -- A commit of the latest round that was pushed before carries the same submission.
  have same {synapse other file} (member : Sent.commit synapse other file ∈ world.sent)
      (round : synapse.roundId = latest) : other = assembled :=
    Option.some.inj ((holds.kept synapse other file member round).1.symm.trans known)
  exact {
    remembered := holds.remembered
    written := holds.written
    pushed := by
      intro sent member
      rcases earlier member with member | rfl
      · exact holds.pushed sent member
      · exact le_rfl
    agree := holds.agree
    loaded := holds.loaded
    opens := holds.opens
    opensWritten := holds.opensWritten
    committed := by
      intro roundId marked
      obtain ⟨synapse, other, file, member, round⟩ := holds.committed roundId marked
      exact ⟨synapse, other, file, later member, round⟩
    committedWritten := by
      intro payload roundId entry file found flagged
      obtain ⟨synapse, other, file, member, round⟩ :=
        holds.committedWritten payload roundId entry file found flagged
      exact ⟨synapse, other, file, later member, round⟩
    kept := by
      intro synapse other file member round
      rcases earlier member with member | this
      · exact holds.kept synapse other file member round
      · cases this
        exact ⟨known, written⟩
    durable := by
      intro synapse other file member
      rcases earlier member with member | this
      · exact holds.durable synapse other file member
      · cases this
        exact ⟨rfl, written⟩
    oneHash := by
      intro synapse other file synapse' other' file' member member' round
      rcases earlier member with member | this
      · rcases earlier member' with member' | this'
        · exact holds.oneHash synapse other file synapse' other' file' member member' round
        · cases this'
          rw [(holds.durable synapse other file member).1, same member round]
      · cases this
        rcases earlier member' with member' | this'
        · rw [(holds.durable synapse' other' file' member').1, same member' round.symm]
        · cases this'
          rfl
    reveals := by
      intro synapse member
      rcases earlier member with member | this
      · obtain ⟨committed, other, file, member, round, opened⟩ := holds.reveals synapse member
        exact ⟨committed, other, file, later member, round, opened⟩
      · cases this }

theorem Holds.markCommitted (holds : world.Holds miner latest)
    (committed : ∃ synapse assembled file,
      Sent.commit synapse assembled file ∈ world.sent ∧ synapse.roundId = latest) :
    (world.markCommitted latest).Holds miner latest :=
  { holds with
    committed := by
      intro roundId marked
      rcases Finset.mem_insert.mp marked with rfl | marked
      · exact committed
      · exact holds.committed roundId marked }

theorem Holds.markRevealed (holds : world.Holds miner latest) (roundId : String) :
    (world.markRevealed roundId).Holds miner latest := { holds with }

/-- Pushing the reveal of the latest round, whose commit was pushed. -/
theorem Holds.sendReveal (holds : world.Holds miner latest) {assembled : AssembledSubmission}
    (known : world.service.assembled.get? latest = some assembled)
    (committed : ∃ synapse assembled file,
      Sent.commit synapse assembled file ∈ world.sent ∧ synapse.roundId = latest)
    (schemaId : String) (specVersion : ℤ) :
    (world.send (.reveal
      ⟨latest, schemaId, specVersion, assembled.bundleJson, assembled.nonceHex⟩)).Holds
      miner latest := by
  have earlier {synapse other file} (member : Sent.commit synapse other file ∈ (world.send
      (.reveal ⟨latest, schemaId, specVersion, assembled.bundleJson, assembled.nonceHex⟩)).sent) :
      Sent.commit synapse other file ∈ world.sent := by
    simpa [MinerWorld.send] using member
  have later {sent : Sent} (member : sent ∈ world.sent) : sent ∈ (world.send (.reveal
      ⟨latest, schemaId, specVersion, assembled.bundleJson, assembled.nonceHex⟩)).sent :=
    List.mem_append_left _ member
  exact {
    remembered := holds.remembered
    written := holds.written
    pushed := by
      intro sent member
      rcases List.mem_append.mp member with member | this
      · exact holds.pushed sent member
      · cases List.mem_singleton.mp this
        exact le_rfl
    agree := holds.agree
    loaded := holds.loaded
    opens := holds.opens
    opensWritten := holds.opensWritten
    committed := by
      intro roundId marked
      obtain ⟨synapse, other, file, member, round⟩ := holds.committed roundId marked
      exact ⟨synapse, other, file, later member, round⟩
    committedWritten := by
      intro payload roundId entry file found flagged
      obtain ⟨synapse, other, file, member, round⟩ :=
        holds.committedWritten payload roundId entry file found flagged
      exact ⟨synapse, other, file, later member, round⟩
    kept := fun synapse other file member => holds.kept synapse other file (earlier member)
    durable := fun synapse other file member => holds.durable synapse other file (earlier member)
    oneHash := fun synapse other file synapse' other' file' member member' =>
      holds.oneHash synapse other file synapse' other' file' (earlier member) (earlier member')
    reveals := by
      intro synapse member
      rcases List.mem_append.mp member with member | this
      · obtain ⟨committed, other, file, member, round, opened⟩ := holds.reveals synapse member
        exact ⟨committed, other, file, later member, round, opened⟩
      · cases List.mem_singleton.mp this
        obtain ⟨synapse, other, file, member, round⟩ := committed
        -- the file written before the commit holds what is revealed now
        have same : other = assembled :=
          Option.some.inj ((holds.kept synapse other file member round).1.symm.trans known)
        refine ⟨synapse, other, file, later member, round, ?_⟩
        rw [(holds.durable synapse other file member).1, same]
        exact holds.opens latest assembled known }

/-- A restart finds in the file what it needs of the latest round. -/
theorem Holds.restart (holds : world.Holds miner latest) : world.restart.Holds miner latest := by
  -- the service remembers only what the file holds, and the latest round is not dropped
  have found {roundId : String} {assembled : AssembledSubmission}
      (known : (MinerRoundService.loadState world.file).assembled.get? roundId =
        some assembled) : FileHolds world.file roundId assembled := by
    obtain ⟨payload, entry, file, written, submission⟩ := get?_loadState known
    exact ⟨payload, entry, file, written, submission⟩
  have loads {assembled : AssembledSubmission} (written : FileHolds world.file latest assembled) :
      (MinerRoundService.loadState world.file).assembled.get? latest = some assembled := by
    obtain ⟨payload, entry, file, known, rfl⟩ := written
    rw [file]
    exact loadState_of_newest known (holds.written payload file)
  exact {
    remembered := by
      intro roundId known
      obtain ⟨assembled, known⟩ := Dict.mem_keys_iff.mp known
      exact (found known).le holds
    written := holds.written
    pushed := holds.pushed
    agree := by
      rintro roundId assembled other known ⟨payload', entry', file', written', rfl⟩
      obtain ⟨payload, entry, file, written, rfl⟩ := found known
      cases file.symm.trans file'
      cases written.symm.trans written'
      rfl
    loaded := fun assembled written => Dict.mem_keys_iff.mpr ⟨assembled, loads written⟩
    opens := fun roundId assembled known => holds.opensWritten roundId assembled (found known)
    opensWritten := holds.opensWritten
    committed := by
      intro roundId marked
      obtain ⟨payload, entry, file, written, flagged, -⟩ := mem_committed_loadState marked
      exact holds.committedWritten payload roundId entry file written flagged
    committedWritten := holds.committedWritten
    kept := fun synapse assembled file member round =>
      have written := (holds.kept synapse assembled file member round).2
      ⟨loads written, written⟩
    durable := holds.durable
    oneHash := holds.oneHash
    reveals := holds.reveals }

section Tick

variable {attempt : TickRun payload}

/-- Assembling the latest round leaves its submission remembered, and written if it was written
whenever it had been remembered. -/
theorem Holds.assemble (holds : world.Holds miner latest) :
    (world.assemble miner attempt latest).2.Holds miner latest ∧
      ∀ assembled, (world.assemble miner attempt latest).1 = some assembled →
        (world.assemble miner attempt latest).2.service.assembled.get? latest = some assembled ∧
        ((latest ∈ world.service.assembled.keys → ∃ other, FileHolds world.file latest other) →
          FileHolds (world.assemble miner attempt latest).2.file latest assembled) := by
  rw [MinerWorld.assemble]
  cases known : world.service.assembled.get? latest with
  | some remembered =>
    refine ⟨holds, fun assembled same => ?_⟩
    cases same
    refine ⟨known, fun written => ?_⟩
    obtain ⟨other, found⟩ := written (Dict.mem_keys_iff.mpr ⟨_, known⟩)
    exact holds.agree latest remembered other known found ▸ found
  | none =>
    cases attempt.assembly with
    | none => exact ⟨holds, fun assembled none => by cases none⟩
    | some given =>
      obtain ⟨bundle, nonce⟩ := given
      cases done : assembleBundle miner.codec bundle miner.hotkey nonce with
      | error message =>
        simp only [done]
        exact ⟨holds, fun assembled none => by cases none⟩
      | ok fresh =>
        simp only [done]
        have remembered := holds.remember known (opens_of_assembleBundle done)
        refine ⟨remembered.persistState _, fun assembled same => ?_⟩
        split at same
        -- the submission is handed out only once the file holds it
        · next writes =>
          cases same
          have found : (world.remember latest fresh).service.assembled.get? latest =
              some fresh := by simp [MinerWorld.remember]
          rw [MinerWorld.persistState, if_pos writes]
          obtain ⟨entry, written, submission⟩ := exists_statePayload found remembered.remembered
          exact ⟨found, fun _ => ⟨_, entry, rfl, written, submission⟩⟩
        · cases same

theorem Holds.pushCommit (holds : world.Holds miner latest) {assembled : AssembledSubmission}
    (known : world.service.assembled.get? latest = some assembled)
    (written : attempt.push ≠ .unsent → FileHolds world.file latest assembled) :
    (world.pushCommit miner attempt latest assembled).Holds miner latest := by
  have pushed (started : attempt.push ≠ .unsent) :=
    holds.sendCommit known (written started) miner.schemaId currentVersionKey
  rw [MinerWorld.pushCommit]
  cases push : attempt.push with
  | unsent => exact holds
  | raised => exact pushed (by rw [push]; simp)
  | accepted validators =>
    have pushed := pushed (by rw [push]; simp)
    simp only
    split
    · refine (pushed.markCommitted ?_).persistState _
      exact ⟨_, assembled, world.file, List.mem_append_right _ (List.mem_singleton_self _), rfl⟩
    · exact pushed

theorem Holds.tickReveal (holds : world.Holds miner latest) :
    (world.tickReveal miner attempt latest).Holds miner latest := by
  rw [MinerWorld.tickReveal]
  split
  · -- Counting a missed commit touches nothing that is kept.
    rw [MinerRoundService.missCommit]
    split
    · exact holds
    · exact { holds with }
  · next marked =>
    have committed := holds.committed latest (not_not.mp marked)
    cases known : world.service.assembled.get? latest with
    | none => exact holds
    | some assembled =>
      have pushed := holds.sendReveal known committed miner.schemaId currentVersionKey
      simp only [MinerWorld.pushReveal]
      split
      · exact holds
      · exact pushed
      · split
        · exact (pushed.markRevealed latest).persistState _
        · exact pushed

end Tick

end MinerWorld

open MinerWorld

/-- The round that a step is about. -/
def MinerStep.roundId? {payload : Type} : MinerStep payload → Option String
  | tick attempt => attempt.window.map Prod.fst
  | restart => none

/-- A commit tick that starts a push finds its round in the file if it finds it in memory. -/
def CommitWritten {payload : Type} : MinerStep payload → MinerWorld → Prop
  | .tick attempt, world => ∀ roundId, attempt.window = some (roundId, .commit) →
      attempt.push ≠ .unsent → roundId ∈ world.service.assembled.keys →
      ∃ assembled, FileHolds world.file roundId assembled
  | .restart, _ => True

section Runs

variable {payload : Type} {miner : Miner payload} {world : MinerWorld} {latest : String}

theorem MinerWorld.Holds.apply (holds : world.Holds miner latest) {step : MinerStep payload}
    (round : ∀ roundId ∈ step.roundId?, roundId = latest) (written : CommitWritten step world) :
    (step.apply miner world).Holds miner latest := by
  cases step with
  | restart => exact holds.restart
  | tick attempt =>
    rw [MinerStep.apply, MinerWorld.tick]
    split
    · next roundId window =>
      obtain rfl : roundId = latest := round roundId (by simp [MinerStep.roundId?, window])
      obtain ⟨assembles, gives⟩ := @Holds.assemble _ miner world roundId attempt holds
      rw [MinerWorld.tickCommit]
      split
      · next same => rwa [same] at assembles
      · next assembled after same =>
        rw [same] at assembles gives
        obtain ⟨known, saved⟩ := gives assembled rfl
        exact assembles.pushCommit known fun started => saved fun remembered =>
          written roundId window started remembered
    · next roundId window =>
      obtain rfl : roundId = latest := round roundId (by simp [MinerStep.roundId?, window])
      exact holds.tickReveal
    · exact holds

/-- What holds is kept by a run over rounds that do not go back. -/
theorem holds_steps {steps : List (MinerStep payload)} (holds : world.Holds miner latest)
    (ahead : ∀ roundId ∈ steps.filterMap MinerStep.roundId?, latest ≤ roundId)
    (increasing : (steps.filterMap MinerStep.roundId?).Pairwise (· ≤ ·))
    (written : Meets (MinerStep.apply miner) CommitWritten world steps) :
    ∃ newest, (run (MinerStep.apply miner) world steps).Holds miner newest := by
  induction steps generalizing world latest with
  | nil => exact ⟨latest, holds⟩
  | cons step rest ih =>
    rw [run_cons]
    cases round : step.roundId? with
    | none =>
      rw [List.filterMap_cons_none round] at ahead increasing
      exact ih (holds.apply (by simp [round]) written.1) ahead increasing written.2
    | some roundId =>
      rw [List.filterMap_cons_some round] at ahead increasing
      have here := holds.mono (ahead roundId List.mem_cons_self)
      have later := List.pairwise_cons.mp increasing
      exact ih (here.apply (by simp [round]) written.1) later.1 later.2 written.2

theorem sent_persistState (world : MinerWorld) (writes : Bool) :
    (world.persistState writes).sent = world.sent := by
  rw [MinerWorld.persistState]
  split
  · rfl
  · rfl

theorem sent_assemble (world : MinerWorld) (attempt : TickRun payload) (roundId : String) :
    (world.assemble miner attempt roundId).2.sent = world.sent := by
  rw [MinerWorld.assemble]
  split
  · rfl
  · split
    · rfl
    · split
      · rfl
      · exact sent_persistState _ _

theorem sent_subset_pushCommit (world : MinerWorld) (attempt : TickRun payload)
    (roundId : String) (assembled : AssembledSubmission) :
    world.sent ⊆ (world.pushCommit miner attempt roundId assembled).sent := by
  rw [MinerWorld.pushCommit]
  split
  · exact List.Subset.refl _
  · exact List.subset_append_left _ _
  · split
    · rw [sent_persistState]
      exact List.subset_append_left _ _
    · exact List.subset_append_left _ _

/-- A push of a commit that starts stands in what was pushed, with the file of its moment. -/
theorem mem_sent_pushCommit (world : MinerWorld) {attempt : TickRun payload} (roundId : String)
    (assembled : AssembledSubmission) (started : attempt.push ≠ .unsent) :
    Sent.commit ⟨roundId, miner.schemaId, currentVersionKey, assembled.bundleHash⟩ assembled
      world.file ∈ (world.pushCommit miner attempt roundId assembled).sent := by
  have last : Sent.commit ⟨roundId, miner.schemaId, currentVersionKey, assembled.bundleHash⟩
      assembled world.file ∈ world.sent ++ [.commit
        ⟨roundId, miner.schemaId, currentVersionKey, assembled.bundleHash⟩ assembled
          world.file] := List.mem_append_right _ (List.mem_singleton_self _)
  rw [MinerWorld.pushCommit]
  split
  · next push => exact absurd push started
  · exact last
  · split
    · rw [sent_persistState]
      exact last
    · exact last

/-- Nothing that was pushed is taken back. -/
theorem sent_subset_apply (step : MinerStep payload) (world : MinerWorld) :
    world.sent ⊆ (step.apply miner world).sent := by
  cases step with
  | restart => exact List.Subset.refl _
  | tick attempt =>
    rw [MinerStep.apply, MinerWorld.tick]
    split
    · next roundId _ =>
      have same := @sent_assemble _ miner world attempt roundId
      rw [MinerWorld.tickCommit]
      split
      · next found =>
        rw [← same, found]
        exact List.Subset.refl _
      · next assembled after found =>
        rw [← same, found]
        exact sent_subset_pushCommit _ _ _ _
    · rw [MinerWorld.tickReveal]
      split
      · exact List.Subset.refl _
      · split
        · exact List.Subset.refl _
        · rw [MinerWorld.pushReveal]
          split
          · exact List.Subset.refl _
          · exact List.subset_append_left _ _
          · split
            · rw [sent_persistState]
              exact List.subset_append_left _ _
            · exact List.subset_append_left _ _
    · exact List.Subset.refl _

theorem sent_subset_run (steps : List (MinerStep payload)) (world : MinerWorld) :
    world.sent ⊆ (run (MinerStep.apply miner) world steps).sent := by
  induction steps generalizing world with
  | nil => exact List.Subset.refl _
  | cons step rest ih => exact fun _ member => ih _ (sent_subset_apply step world member)

/-- If every commit was durable when it was pushed, every commit tick met its condition. -/
theorem meets_of_durable {steps : List (MinerStep payload)}
    (durable : EachCommitDurable (run (MinerStep.apply miner) world steps).sent) :
    Meets (MinerStep.apply miner) CommitWritten world steps := by
  induction steps generalizing world with
  | nil => trivial
  | cons step rest ih =>
    refine ⟨?_, ih durable⟩
    cases step with
    | restart => trivial
    | tick attempt =>
      intro roundId window started remembered
      obtain ⟨assembled, known⟩ := Dict.mem_keys_iff.mp remembered
      -- The round is remembered, so the tick pushes what it finds and writes nothing before.
      have pushes : (MinerStep.tick attempt).apply miner world =
          world.pushCommit miner attempt roundId assembled := by
        rw [MinerStep.apply, MinerWorld.tick, window]
        simp only [MinerWorld.tickCommit, MinerWorld.assemble, known]
      have pushed := @mem_sent_pushCommit _ miner world attempt roundId assembled started
      rw [← pushes] at pushed
      exact ⟨assembled, (durable _ _ _ (sent_subset_run rest _ pushed)).2⟩

end Runs

/-- **A commit is pushed only when it can be opened after a restart**, in a run over rounds that
do not go back, exactly if every commit tick that starts a push and finds its round in memory
finds it in the state file too: then every commit was pushed while the file held its bundle,
nonce and hash, all commits of a round carry one hash, and every reveal opens it. -/
theorem commits_are_openable {payload : Type} (miner : Miner payload)
    (steps : List (MinerStep payload))
    (increasing : (steps.filterMap MinerStep.roundId?).Pairwise (· ≤ ·)) :
    (EachCommitDurable (run (MinerStep.apply miner) .start steps).sent ∧
      OneHashPerRound (run (MinerStep.apply miner) .start steps).sent ∧
      RevealsOpen miner (run (MinerStep.apply miner) .start steps).sent) ↔
      Meets (MinerStep.apply miner) CommitWritten .start steps := by
  constructor
  · rintro ⟨durable, -, -⟩
    exact meets_of_durable durable
  · intro written
    obtain ⟨latest, ahead⟩ : ∃ latest, ∀ roundId ∈ steps.filterMap MinerStep.roundId?,
        latest ≤ roundId := by
      cases rounds : steps.filterMap MinerStep.roundId? with
      | nil => exact ⟨"", by simp⟩
      | cons first rest =>
        rw [rounds] at increasing
        refine ⟨first, fun roundId member => ?_⟩
        rcases List.mem_cons.mp member with rfl | later
        · exact le_rfl
        · exact (List.pairwise_cons.mp increasing).1 roundId later
    obtain ⟨newest, holds⟩ :=
      holds_steps (Holds.start miner latest) ahead increasing written
    exact ⟨holds.durable, holds.oneHash, holds.reveals⟩

/-- A miner whose bundles are empty objects. -/
def emptyMiner : Miner Unit where
  codec := ⟨fun _ => none, fun _ => none, fun _ => encode "\x7b\x7d", toHex⟩
  schemaId := "risk.v1.subnet_alpha"
  hotkey := "5F"

/-- A tick in a round's window that assembles the empty bundle and is accepted. -/
def emptyTick (phase : RoundPhase) (assemblyWrites : Bool) : MinerStep Unit :=
  .tick ⟨some ("2026-07-06", phase), some (⟨"2026-07-06", "risk.v1.subnet_alpha", ()⟩,
    List.replicate 16 0), assemblyWrites, .accepted 1, true⟩

/-- After a failed write the next tick pushes a commit that the file does not hold. -/
theorem commit_after_failed_write :
    ([emptyTick .commit false, emptyTick .commit true].filterMap
        MinerStep.roundId?).Pairwise (· ≤ ·) ∧
      ¬EachCommitDurable (run (MinerStep.apply emptyMiner) .start
        [emptyTick .commit false, emptyTick .commit true]).sent := by
  refine ⟨by simp [emptyTick, MinerStep.roundId?], fun durable => ?_⟩
  have remembered : "2026-07-06" ∈
      ((emptyTick .commit false).apply emptyMiner .start).service.assembled.keys := by
    decide +kernel
  have unwritten : ((emptyTick .commit false).apply emptyMiner .start).file.isNone = true := by
    decide +kernel
  obtain ⟨-, written, -⟩ := meets_of_durable durable
  obtain ⟨assembled, payload, entry, file, -⟩ := written "2026-07-06" rfl (by simp) remembered
  rw [file] at unwritten
  cases unwritten

/-- A round that is written at once is committed and revealed under one hash. -/
theorem commits_are_openable_written :
    EachCommitDurable (run (MinerStep.apply emptyMiner) .start
        [emptyTick .commit true, emptyTick .reveal true]).sent ∧
      OneHashPerRound (run (MinerStep.apply emptyMiner) .start
        [emptyTick .commit true, emptyTick .reveal true]).sent ∧
      RevealsOpen emptyMiner (run (MinerStep.apply emptyMiner) .start
        [emptyTick .commit true, emptyTick .reveal true]).sent := by
  refine (commits_are_openable emptyMiner [emptyTick .commit true, emptyTick .reveal true]
    (by simp [emptyTick, MinerStep.roundId?])).mpr ⟨?_, ?_, trivial⟩
  · intro roundId window started remembered
    cases remembered
  · intro roundId window
    cases window

end Endure.Protocol
