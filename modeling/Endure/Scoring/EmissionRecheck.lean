import Endure.Scoring.EmissionEncoding

/-!
# Chain changes between planning and sending

Three chain states are read one after another: the planning snapshot, the metagraph
the vector is prepared from, and the owner facts at the submission block. When both
rechecks accept, whatever changed between them leaves every entry of the vector with
the hotkey that earned it, and the owner's entry with the owner.
-/

namespace Endure.Scoring

open Library.Checked

/-- The encoder sends only UIDs it was given. -/
theorem convertWeightsAndUidsForEmit_subset {uids : List ℕ} {weights : List ℚ}
    {groups : List (List ℕ)} {sent : List ℕ × List ℤ}
    (encoded : convertWeightsAndUidsForEmit uids weights groups = .ok sent) : sent.1 ⊆ uids := by
  simp only [convertWeightsAndUidsForEmit] at encoded
  split_ifs at encoded
  · obtain rfl := Except.ok.inj encoded
    exact List.nil_subset _
  · split at encoded
    · cases encoded
    · obtain rfl := Except.ok.inj encoded
      exact (emitted_sublist _ _).subset

/-- Under chain limits of one only positive weights are sent. -/
theorem pos_of_mem_uintUids {raw : List ℚ} {size : ℕ} {groups : List (List ℕ)}
    {vector : ChainWeightVector} (some_positive : raw.any (0 < ·))
    (encoded : chainWeightVector raw (List.range size) size 1 1 groups = .ok vector) {uid : ℕ}
    (member : uid ∈ vector.uintUids) : 0 < raw.getD uid 0 := by
  have sized : raw.length = size := by
    by_contra other
    rw [chainWeightVector, processWeights, if_pos (by simpa using Ne.symm other)] at encoded
    cases encoded
  subst sized
  have positive : positiveUids raw ≠ [] := by
    obtain ⟨weight, listed, above⟩ := List.any_eq_true.mp some_positive
    obtain ⟨index, bound, rfl⟩ := List.mem_iff_getElem.mp listed
    refine List.ne_nil_of_mem (a := index) (mem_positiveUids.mpr ?_)
    rw [List.getD_eq_getElem _ _ bound]
    simpa using above
  rw [chainWeightVector, processWeights_one positive] at encoded
  dsimp only at encoded
  split at encoded
  · cases encoded
  · next _ converted =>
    obtain rfl := Except.ok.inj encoded
    exact mem_positiveUids.mp (convertWeightsAndUidsForEmit_subset converted member)

section Planned

variable {mode : EmissionMode} {network : OwnerVoteNetwork} {snapshot : ChainSnapshot}
  {chainIdentity : String} {netuid block validatorUid : ℤ} {validatorHotkey : Hotkey}
  {localHotkeys : List Hotkey} {scores : List ℚ} {ownerCommitment : Option OwnerCommitment}
  {pools : List (List Hotkey)}

/-- Whatever the scores' signs, weight goes to the owner or to a positive earning. -/
theorem earned_of_voteNetworkWeights {earned weights : List ℚ} {ownerUid size rate burnBps : ℕ}
    (vector : voteNetworkWeights earned ownerUid size rate = .ok (weights, burnBps)) {uid : ℕ}
    (positive : 0 < weights.getD uid 0) :
    uid = ownerUid ∨ rate < fullBurnBps ∧ 0 < earned.getD uid 0 := by
  -- the branches that vote for the owner alone weigh no other UID
  have ownerVote : ∀ {weights' burnBps'}, (do
      let weights ← ownerVoteWeights size ownerUid
      return (weights, fullBurnBps) : Except EmissionBlocked (List ℚ × ℕ)) =
        .ok (weights', burnBps') → 0 < weights'.getD uid 0 → uid = ownerUid := by
    intro weights' burnBps' made above
    simp only [bind_eq_ok, pure, Except.pure, Except.ok.injEq] at made
    obtain ⟨_, alone, same⟩ := made
    obtain ⟨registered, rfl⟩ := ownerVoteWeights_eq_ok.mp alone
    obtain ⟨rfl, rfl⟩ := Prod.mk.inj same
    by_contra other
    rw [getD_oneHot registered, if_neg other] at above
    exact lt_irrefl _ above
  unfold voteNetworkWeights at vector
  split_ifs at vector with free shared
  · obtain ⟨rfl, rfl⟩ := Prod.mk.inj (Except.ok.inj vector)
    exact Or.inr ⟨free.1 ▸ by decide, positive⟩
  · simp only [bind_eq_ok] at vector
    obtain ⟨burned, made, result⟩ := vector
    cases burned with
    | none => exact Or.inl (ownerVote result positive)
    | some burned =>
      obtain ⟨rfl, rfl⟩ := Prod.mk.inj (Except.ok.inj result)
      simp only [ownerBurnWeights, bind_eq_ok, require_eq_ok, pure, Except.pure,
        Except.ok.injEq] at made
      obtain ⟨_, -, vector⟩ := made
      split_ifs at vector with nothing
      obtain rfl := Option.some.inj vector
      by_cases owner : uid = ownerUid
      · exact Or.inl owner
      · refine Or.inr ⟨shared.2, ?_⟩
        rw [List.getD_eq_getElem?_getD, List.getElem?_set_ne (Ne.symm owner), List.getElem?_map,
          List.getElem?_mapIdx] at positive
        rw [List.getD_eq_getElem?_getD]
        cases found : earned[uid]? with
        | none => simp [found] at positive
        | some score =>
          rw [Option.getD_some]
          by_contra below
          simp [found, below] at positive
  · exact Or.inl (ownerVote vector positive)

/-- A planned entry goes to the owner or, in a scored plan, to a positive score. -/
theorem scored_of_planNetwork {vote : NetworkPlan}
    (planned : planNetwork mode network snapshot chainIdentity netuid localHotkeys scores
      ownerCommitment = .ok vote) {uid : ℕ} (positive : 0 < vote.weights.getD uid 0) :
    uid = vote.recipient.uid ∨ mode = .scored ∧ 0 < scores.getD uid 0 := by
  obtain ⟨ownerUid, rate, -, -, ofRate, vector, recipient, -⟩ := planNetwork_eq_ok planned
  cases earned_of_voteNetworkWeights vector positive with
  | inl owner => exact Or.inl (owner.trans (by rw [recipient]))
  | inr earned =>
    obtain ⟨scored, -⟩ := (plannedRate_eq_ok ofRate).2 earned.1
    rw [Bool.and_eq_true, decide_eq_true_eq] at scored
    have above := earned.2
    rw [getD_earnedScores] at above
    split_ifs at above
    · exact absurd above (lt_irrefl _)
    · exact Or.inr ⟨scored.1, above⟩

end Planned

/-! ### The rechecks -/

section Rechecks

variable {recipient : OwnerVoteRecipient} {uintUids : List ℕ} {uintWeights : List ℤ}

/-- An accepted vector was prepared under chain limits of one and pays no withheld
UID but the owner. -/
theorem recheckOwnerVote_eq_ok {chainIdentity : String} {netuid : ℤ} {hotkeys : List Hotkey}
    {minAllowedWeights : Option ℕ} {maxWeightLimit : Option ℚ}
    (accepted : recheckOwnerVote recipient chainIdentity netuid hotkeys uintUids uintWeights
      minAllowedWeights maxWeightLimit = .ok ()) :
    minAllowedWeights = some 1 ∧ maxWeightLimit = some 1 ∧
      ∀ uid ∈ uintUids, uid ≠ recipient.uid → uid ∉ recipient.withheld := by
  simp only [recheckOwnerVote, bind_eq_ok, require_eq_ok] at accepted
  obtain ⟨_, -, _, -, _, limits, vector⟩ := accepted
  refine ⟨limits.1, limits.2, fun uid member other withheld => ?_⟩
  split_ifs at vector
  · obtain ⟨-, -, paid⟩ := bind_eq_ok.mp vector
    refine require_eq_ok.mp paid uid member ?_
    rw [earningWithheld]
    split_ifs
    · exact withheld
    · exact Finset.mem_sdiff.mpr ⟨withheld, by simpa using other⟩
  · rw [(require_eq_ok.mp vector).1, List.mem_singleton] at member
    exact other member

/-- At an accepted state the owner is unchanged, and every UID named keeps its hotkey
and its withheld status. -/
theorem recheckOwnerState_eq_ok {state? : Option OwnerState} {block : Option ℤ}
    {preparedHotkeys : List Hotkey}
    (accepted : recheckOwnerState recipient state? block preparedHotkeys uintUids = .ok ()) :
    ∃ state hotkeys coldkeys, state? = some state ∧ block = some state.block ∧
      state.hotkeys = some hotkeys ∧ state.coldkeys = some coldkeys ∧
      coldkeys.length = hotkeys.length ∧ state.ownerHotkey = some recipient.hotkey ∧
      state.ownerColdkey = recipient.ownerColdkey ∧
      ∀ uid ∈ recipient.uid :: uintUids, uid < hotkeys.length ∧
        hotkeys[uid]? = preparedHotkeys[uid]? ∧
        ((uid = recipient.uid ∨ coldkeys[uid]? = state.ownerColdkey) ↔
          uid ∈ recipient.withheld) := by
  cases state? with
  | none => cases accepted
  | some state =>
    simp only [recheckOwnerState, bind_eq_ok, require_eq_ok] at accepted
    obtain ⟨_, atBlock, _, ⟨owner, coldkey⟩, checked⟩ := accepted
    split at checked
    · next coldkeys hotkeys hasColdkeys hasHotkeys =>
      simp only [bind_eq_ok, require_eq_ok] at checked
      obtain ⟨_, sameLength, each⟩ := checked
      refine ⟨state, hotkeys, coldkeys, rfl, atBlock, hasHotkeys, hasColdkeys, sameLength, owner,
        coldkey, fun uid member => ?_⟩
      have one := forM_eq_ok.mp each uid (List.mem_dedup.mpr member)
      simp only [recheckUid, bind_eq_ok, require_eq_ok] at one
      obtain ⟨_, ⟨registered, -, sameHotkey⟩, status⟩ := one
      exact ⟨registered, sameHotkey, status⟩
    · cases checked

end Rechecks

/-- A change on chain between planning and sending never redirects weight. If both
rechecks accept the encoded plan, then at the submission block every UID with an
entry is held by the hotkey whose score or ownership produced it, the owner's entry
is still the owner's under the same coldkey, and no other entry is under it. -/
theorem accepted_vector_redirects_nothing {mode : EmissionMode} {network : OwnerVoteNetwork}
    {snapshot? : Option ChainSnapshot} {chainIdentity chainIdentity' : String}
    {block netuid netuid' validatorUid : ℤ} {validatorHotkey : Hotkey}
    {localHotkeys : List Hotkey} {scores : List ℚ} {ownerCommitment : Option OwnerCommitment}
    {pools : List (List Hotkey)} {plan : EmissionPlan} {recipient : OwnerVoteRecipient}
    {raw : List ℚ} {minAllowedWeights : ℕ} {maxWeightLimit : ℚ} {vector : ChainWeightVector}
    {state? : Option OwnerState} {sendBlock : Option ℤ}
    (planned : planEmission mode (some network) snapshot? block chainIdentity netuid validatorUid
      validatorHotkey localHotkeys scores ownerCommitment pools = .ok plan)
    (toRecipient : plan.recipient = some recipient)
    (candidate : emissionCandidate plan.weights = some raw)
    (encoded : chainWeightVector raw (List.range localHotkeys.length) localHotkeys.length
      minAllowedWeights maxWeightLimit plan.groups = .ok vector)
    (voteAccepted : recheckOwnerVote recipient chainIdentity' netuid' localHotkeys
      vector.uintUids vector.uintWeights (some minAllowedWeights) (some maxWeightLimit) = .ok ())
    (stateAccepted : recheckOwnerState recipient state? sendBlock localHotkeys vector.uintUids =
      .ok ()) :
    ∃ snapshot state hotkeys coldkeys, snapshot? = some snapshot ∧ state? = some state ∧
      sendBlock = some state.block ∧ state.hotkeys = some hotkeys ∧
      state.coldkeys = some coldkeys ∧
      ∀ uid ∈ vector.uintUids, ∃ hotkey,
        hotkeys[uid]? = some hotkey ∧ localHotkeys[uid]? = some hotkey ∧
        snapshot.hotkeys[uid]? = some hotkey ∧
        ((uid = recipient.uid ∧ snapshot.ownerHotkey = some hotkey ∧
            state.ownerHotkey = some hotkey ∧ state.ownerColdkey = snapshot.ownerColdkey) ∨
          (uid ≠ recipient.uid ∧ mode = .scored ∧ 0 < scores.getD uid 0 ∧
            ∃ coldkey, coldkeys[uid]? = some coldkey ∧ some coldkey ≠ state.ownerColdkey)) := by
  obtain ⟨snapshot, vote, rfl, -, agree, voted, result⟩ := planEmission_eq_ok planned
  obtain ⟨state, hotkeys, coldkeys, rfl, atBlock, hasHotkeys, hasColdkeys, sameLength, owner,
    ownerColdkey, status⟩ := recheckOwnerState_eq_ok stateAccepted
  obtain ⟨least, limit, unpaid⟩ := recheckOwnerVote_eq_ok voteAccepted
  obtain rfl := Option.some.inj least
  obtain rfl := Option.some.inj limit
  obtain ⟨norm, normPos, some_positive, rawIs⟩ := emissionCandidate_eq_some candidate
  refine ⟨snapshot, state, hotkeys, coldkeys, rfl, rfl, atBlock, hasHotkeys, hasColdkeys,
    fun uid member => ?_⟩
  -- a uid that was encoded has a positive weight in the plan
  have weightPos : 0 < plan.weights.getD uid 0 := by
    have rawPos := pos_of_mem_uintUids some_positive encoded member
    rw [rawIs, List.getD_eq_getElem?_getD, List.getElem?_map] at rawPos
    rw [List.getD_eq_getElem?_getD]
    cases found : plan.weights[uid]? with
    | none => simp [found] at rawPos
    | some weight =>
      rw [Option.getD_some]
      by_contra below
      simp [found, below] at rawPos
  cases waiting : vote.needsCommitment with
  | true =>
    simp only [waiting, if_true] at result
    rw [result.1] at weightPos
    exact absurd weightPos (lt_irrefl _)
  | false =>
    simp only [waiting, Bool.false_eq_true, if_false] at result
    obtain ⟨weightsIs, recipientIs, -⟩ := result
    obtain rfl : recipient = vote.recipient :=
      Option.some.inj (toRecipient.symm.trans recipientIs)
    rw [weightsIs] at weightPos
    obtain ⟨registered, sameHotkey, statusOf⟩ := status uid (List.mem_cons_of_mem _ member)
    obtain ⟨ownerUid, -, resolved, -, -, -, recipient, -⟩ := planNetwork_eq_ok voted
    obtain ⟨onChain, inside, local'⟩ := localOwnerUid_eq_ok.mp resolved
    have held := List.getElem?_eq_getElem registered
    refine ⟨hotkeys[uid], held, sameHotkey.symm.trans held, ?_⟩
    -- the owner stands in the chain's state, every other uid has a score
    by_cases isOwner : uid = vote.recipient.uid
    · have here : uid = ownerUid := isOwner.trans (by rw [recipient])
      subst here
      have ownerIs : snapshot.ownerHotkey = some hotkeys[uid] := by
        rw [← local', ← sameHotkey, held]
      obtain ⟨ownerHotkey, known, only⟩ := uidsOf_of_resolveOwnerVoteUid onChain
      have registeredOwner := mem_uidsOf.mp (only ▸ List.mem_singleton_self uid :
        uid ∈ uidsOf snapshot.hotkeys ownerHotkey)
      refine ⟨by rw [registeredOwner, ← known, ownerIs], Or.inl ⟨isOwner, ownerIs, ?_, ?_⟩⟩
      · rw [owner, recipient, List.getD_eq_getElem _ _ inside, ← List.getElem?_eq_getElem inside,
          local', ownerIs]
      · rw [ownerColdkey, recipient]
    · cases scored_of_planNetwork voted weightPos with
      | inl same => exact absurd same isOwner
      | inr earned =>
        obtain ⟨scored, positive⟩ := earned
        have scoredUid : uid < scores.length := by
          by_contra beyond
          rw [List.getD_eq_default _ _ (not_lt.mp beyond)] at positive
          exact lt_irrefl _ positive
        obtain ⟨-, -, sameSnapshot⟩ := agree scored uid scoredUid positive
        have hasColdkey := List.getElem?_eq_getElem
          (sameLength ▸ registered : uid < coldkeys.length)
        refine ⟨by rw [← sameSnapshot, ← sameHotkey, held], Or.inr ⟨isOwner, scored, positive, _,
          hasColdkey, fun same => ?_⟩⟩
        exact unpaid uid member isOwner (statusOf.mp (Or.inr (hasColdkey.trans same)))

/-- Five blocks later the alias is gone and the network has grown. -/
def laterState : OwnerState where
  block := 905
  ownerHotkey := some "owner"
  ownerColdkey := some "cold"
  hotkeys := some ["owner", "miner", "newcomer", "late"]
  coldkeys := some ["cold", "other", "fresh", "cold"]

/-- The quarter-burn vector still reaches the owner and the miner. -/
theorem quarterPlan_redirects_nothing :
    ∃ snapshot state hotkeys coldkeys, some voteSnapshot = some snapshot ∧
      some laterState = some state ∧ some 905 = some state.block ∧
      state.hotkeys = some hotkeys ∧ state.coldkeys = some coldkeys ∧
      ∀ uid ∈ [0, 1], ∃ hotkey,
        hotkeys[uid]? = some hotkey ∧ voteSnapshot.hotkeys[uid]? = some hotkey ∧
        snapshot.hotkeys[uid]? = some hotkey ∧
        ((uid = 0 ∧ snapshot.ownerHotkey = some hotkey ∧ state.ownerHotkey = some hotkey ∧
            state.ownerColdkey = snapshot.ownerColdkey) ∨
          (uid ≠ 0 ∧ EmissionMode.scored = .scored ∧ 0 < ([0, 3, 1] : List ℚ).getD uid 0 ∧
            ∃ coldkey, coldkeys[uid]? = some coldkey ∧ some coldkey ≠ state.ownerColdkey)) := by
  have candidate : emissionCandidate quarterPlan.weights = some [1 / 4, 3 / 4, 0] := by
    decide +kernel
  have encoded : chainWeightVector [1 / 4, 3 / 4, 0] (List.range 3) 3 1 1 quarterPlan.groups =
      .ok ⟨[0, 1], [1 / 4, 3 / 4], [0, 1], [21845, 65535]⟩ := by
    decide +kernel
  have voteAccepted : recheckOwnerVote ⟨.testnet, "owner", 0, 2500, some "cold", {0, 2}⟩ "0xab" 7
      voteSnapshot.hotkeys [0, 1] [21845, 65535] (some 1) (some 1) = .ok () := by
    decide +kernel
  have stateAccepted : recheckOwnerState ⟨.testnet, "owner", 0, 2500, some "cold", {0, 2}⟩
      (some laterState) (some 905) voteSnapshot.hotkeys [0, 1] = .ok () := by
    decide +kernel
  exact accepted_vector_redirects_nothing voteOn_quarterBurn rfl candidate encoded
    voteAccepted stateAccepted

end Endure.Scoring
