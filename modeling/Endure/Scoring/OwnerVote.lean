import Endure.Scoring.EmissionPolicy

/-!
# Who a vote on an owner-vote network pays

A plan's vector is either the owner's alone or shared: the owner takes the burn
rate and each other UID the rest in proportion to what it earned. The vector is
shared only on the owner's instruction, a commitment read for this snapshot that
decodes to a rate below the full burn.
-/

namespace Endure.Scoring

open Library.Checked

/-- The vector with everything on one UID. -/
def oneHot (size ownerUid : ℕ) : List ℚ :=
  (List.range size).map fun uid => if uid = ownerUid then 1 else 0

@[simp] theorem length_oneHot (size ownerUid : ℕ) : (oneHot size ownerUid).length = size := by
  simp [oneHot]

theorem getD_oneHot {size ownerUid : ℕ} (registered : ownerUid < size) (uid : ℕ) :
    (oneHot size ownerUid).getD uid 0 = if uid = ownerUid then 1 else 0 := by
  by_cases inside : uid < size
  · simp [oneHot, List.getD_eq_getElem?_getD, inside]
  · rw [List.getD_eq_default _ _ (by simpa using inside), if_neg (by omega)]

/-- A UID's part of a whole vector. -/
def share (weights : List ℚ) (uid : ℕ) : ℚ := weights.getD uid 0 / weights.sum

/-- A vector that gives the owner the burn rate and every other UID its part of
the rest, in proportion to what it earned. -/
structure Allots (ownerUid burnBps : ℕ) (earned weights : List ℚ) : Prop where
  length : weights.length = earned.length
  earnedPositive : 0 < earned.sum
  positive : 0 < weights.sum
  owner : share weights ownerUid = burnBps / 10000
  others : ∀ uid ≠ ownerUid,
    share weights uid = (1 - burnBps / 10000) * (earned.getD uid 0 / earned.sum)

section Vector

variable {earned weights : List ℚ} {ownerUid size rate burnBps : ℕ}

theorem ownerVoteWeights_eq_ok :
    ownerVoteWeights size ownerUid = .ok weights ↔
      ownerUid < size ∧ weights = oneHot size ownerUid := by
  simp only [ownerVoteWeights, bind_eq_ok, require_eq_ok, pure, Except.pure, Except.ok.injEq]
  constructor
  · rintro ⟨_, registered, rfl⟩
    exact ⟨registered, rfl⟩
  · rintro ⟨registered, rfl⟩
    exact ⟨(), registered, rfl⟩

/-- The scores `ownerBurnWeights` counts: the owner's own never earns. -/
private theorem earned_of_nonneg (nonneg : ∀ score ∈ earned, 0 ≤ score)
    (ownerZero : earned.getD ownerUid 0 = 0) :
    (earned.mapIdx fun uid score => if uid ≠ ownerUid ∧ 0 < score then score else 0) = earned := by
  refine List.ext_getElem (by simp) fun uid _ inside => ?_
  rw [List.getElem_mapIdx]
  split_ifs with counted
  · rfl
  · by_cases same : uid = ownerUid
    · subst same
      rw [List.getD_eq_getElem _ _ inside] at ownerZero
      exact ownerZero.symm
    · have := nonneg _ (List.getElem_mem inside)
      exact le_antisymm this (not_lt.mp fun above => counted ⟨same, above⟩)

private theorem sum_map_mul_div (factor total : ℚ) (scores : List ℚ) :
    (scores.map fun score => factor * score / total).sum = factor * scores.sum / total := by
  induction scores with
  | nil => simp
  | cons score rest ih =>
    rw [List.map_cons, List.sum_cons, List.sum_cons, ih]
    ring

/-- Sharing by a rate strictly between none and all allots the vector. -/
theorem allots_ownerBurnWeights (nonneg : ∀ score ∈ earned, 0 ≤ score)
    (ownerZero : earned.getD ownerUid 0 = 0)
    (shared : ownerBurnWeights earned ownerUid rate = .ok (some weights)) :
    Allots ownerUid rate earned weights := by
  simp only [ownerBurnWeights, bind_eq_ok, require_eq_ok, pure, Except.pure, Except.ok.injEq,
    earned_of_nonneg nonneg ownerZero, burnBpsDenominator] at shared
  obtain ⟨_, registered, made⟩ := shared
  split_ifs at made with nothing
  obtain rfl := Option.some.inj made
  have total : 0 < earned.sum := not_le.mp nothing
  set miners : ℚ := 1 - rate / (10000 : ℕ) with hminers
  -- the owner earns nothing, so writing its rate over its entry adds the rate to the sum
  have ownShare : ((earned.map fun score => miners * score / earned.sum).getD ownerUid 0) = 0 := by
    rw [List.getD_eq_getElem _ _ (by simpa using registered), List.getElem_map]
    rw [List.getD_eq_getElem _ _ registered] at ownerZero
    rw [ownerZero, mul_zero, zero_div]
  have unit : ((earned.map fun score => miners * score / earned.sum).set ownerUid
      ((rate : ℚ) / (10000 : ℕ))).sum = 1 := by
    rw [List.sum_set', dif_pos (by simpa using registered)]
    rw [List.getD_eq_getElem _ _ (by simpa using registered)] at ownShare
    rw [ownShare, sum_map_mul_div, mul_div_assoc, div_self total.ne', hminers]
    ring
  refine ⟨by simp, total, by rw [unit]; norm_num, ?_, ?_⟩
  · rw [share, unit, div_one, List.getD_eq_getElem?_getD,
      List.getElem?_set_self (by simpa using registered), Option.getD_some]
    norm_num
  · intro uid other
    rw [share, unit, div_one, List.getD_eq_getElem?_getD, List.getElem?_set_ne (Ne.symm other),
      List.getElem?_map, List.getD_eq_getElem?_getD]
    cases earned[uid]? with
    | none => simp
    | some score =>
      rw [Option.map_some, Option.getD_some, Option.getD_some, hminers, mul_div_assoc]
      norm_num

/-- A vector is allotted by a rate below the full burn, or the owner's alone: when
the rate burns all, or when nothing is earned. -/
theorem voteNetworkWeights_eq_ok (nonneg : ∀ score ∈ earned, 0 ≤ score)
    (ownerZero : earned.getD ownerUid 0 = 0) (bounded : rate ≤ fullBurnBps)
    (vector : voteNetworkWeights earned ownerUid size rate = .ok (weights, burnBps)) :
    (rate < fullBurnBps ∧ burnBps = rate ∧ Allots ownerUid rate earned weights) ∨
      ((rate < fullBurnBps → earned.any (0 < ·) = false) ∧ burnBps = fullBurnBps ∧
        ownerUid < size ∧ weights = oneHot size ownerUid) := by
  -- the branches that vote for the owner alone end alike
  have ownerVote : ∀ {weights' burnBps'}, (do
      let weights ← ownerVoteWeights size ownerUid
      return (weights, fullBurnBps) : Except EmissionBlocked (List ℚ × ℕ)) =
        .ok (weights', burnBps') →
      burnBps' = fullBurnBps ∧ ownerUid < size ∧ weights' = oneHot size ownerUid := by
    intro weights' burnBps' made
    simp only [bind_eq_ok, pure, Except.pure, Except.ok.injEq] at made
    obtain ⟨_, alone, same⟩ := made
    obtain ⟨registered, rfl⟩ := ownerVoteWeights_eq_ok.mp alone
    obtain ⟨rfl, rfl⟩ := Prod.mk.inj same
    exact ⟨rfl, registered, rfl⟩
  have some_positive : earned.any (0 < ·) = true → 0 < earned.sum := by
    intro found
    obtain ⟨score, member, positive⟩ := List.any_eq_true.mp found
    exact (of_decide_eq_true positive).trans_le (List.single_le_sum nonneg score member)
  unfold voteNetworkWeights at vector
  split_ifs at vector with free shared
  · obtain ⟨rfl, positive⟩ := free
    obtain ⟨rfl, rfl⟩ := Prod.mk.inj (Except.ok.inj vector)
    have total := some_positive positive
    refine Or.inl ⟨by decide, rfl, rfl, total, total, ?_, ?_⟩
    · rw [share, ownerZero, zero_div]
      norm_num
    · intro uid _
      rw [share]
      norm_num
  · simp only [bind_eq_ok] at vector
    obtain ⟨burned, made, result⟩ := vector
    cases burned with
    | some burned =>
      obtain ⟨rfl, rfl⟩ := Prod.mk.inj (Except.ok.inj result)
      exact Or.inl ⟨shared.2, rfl, allots_ownerBurnWeights nonneg ownerZero made⟩
    | none =>
      refine Or.inr ⟨fun _ => ?_, ownerVote result⟩
      -- `owner_burn_weights` gives no vector when nothing is earned, and the owner is voted for
      simp only [ownerBurnWeights, bind_eq_ok, require_eq_ok, pure, Except.pure, Except.ok.injEq,
        earned_of_nonneg nonneg ownerZero] at made
      obtain ⟨_, -, empty⟩ := made
      split_ifs at empty with nothing
      by_contra found
      exact absurd (some_positive (by simpa using found)) (not_lt.mpr nothing)
  · refine Or.inr ⟨fun below => ?_, ownerVote vector⟩
    by_contra found
    have : rate = 0 := by
      by_contra positive
      exact shared ⟨Nat.pos_of_ne_zero positive, below⟩
    exact free ⟨this, by simpa using found⟩

end Vector

/-! ### Withheld UIDs -/

/-- Whether a UID is held under the subnet owner's coldkey. -/
def underOwnerColdkey (snapshot : ChainSnapshot) (uid : ℕ) : Bool :=
  match snapshot.coldkeys, snapshot.ownerColdkey with
  | some coldkeys, some ownerColdkey => coldkeys[uid]? = some ownerColdkey
  | _, _ => false

/-- The score a UID can be paid for: none for the owner and its coldkey's hotkeys. -/
def payable (snapshot : ChainSnapshot) (ownerUid : ℕ) (scores : List ℚ) (uid : ℕ) : ℚ :=
  if uid = ownerUid ∨ underOwnerColdkey snapshot uid then 0 else scores.getD uid 0

@[simp] theorem length_earnedScores (scores : List ℚ) (withheld : Finset ℕ) :
    (earnedScores scores withheld).length = scores.length := by
  simp [earnedScores]

theorem getD_earnedScores (scores : List ℚ) (withheld : Finset ℕ) (uid : ℕ) :
    (earnedScores scores withheld).getD uid 0 =
      if uid ∈ withheld then 0 else scores.getD uid 0 := by
  simp only [earnedScores, List.getD_eq_getElem?_getD, List.getElem?_mapIdx]
  cases scores[uid]? <;> simp

theorem earnedScores_nonneg {scores : List ℚ} (nonneg : ∀ score ∈ scores, 0 ≤ score)
    (withheld : Finset ℕ) : ∀ score ∈ earnedScores scores withheld, 0 ≤ score := by
  intro score member
  obtain ⟨uid, bound, rfl⟩ := List.mem_iff_getElem.mp member
  rw [← List.getD_eq_getElem _ 0 bound, getD_earnedScores]
  split_ifs
  · exact le_rfl
  · rw [List.getD_eq_getElem _ _ (by simpa using bound)]
    exact nonneg _ (List.getElem_mem _)

theorem sum_earnedScores (scores : List ℚ) (withheld : Finset ℕ) :
    (earnedScores scores withheld).sum =
      ∑ uid ∈ Finset.range scores.length, (earnedScores scores withheld).getD uid 0 := by
  rw [← length_earnedScores scores withheld, ← Fin.sum_univ_getElem,
    Finset.sum_range fun uid => (earnedScores scores withheld).getD uid 0]
  exact Finset.sum_congr rfl fun uid _ => (List.getD_eq_getElem _ 0 uid.isLt).symm

section Plan

variable {mode : EmissionMode} {network : OwnerVoteNetwork} {snapshot : ChainSnapshot}
  {chainIdentity : String} {netuid block validatorUid : ℤ} {validatorHotkey : Hotkey}
  {localHotkeys : List Hotkey} {scores : List ℚ} {ownerCommitment : Option OwnerCommitment}
  {pools : List (List Hotkey)} {ownerUid : ℕ} {withheld : Finset ℕ} {rate : ℕ}

/-- The withheld UIDs of a snapshot are the owner's and those of its coldkey. -/
theorem chainWithheldUids_eq_ok
    (computed : chainWithheldUids snapshot ownerUid = .ok withheld) :
    (∃ coldkeys, snapshot.coldkeys = some coldkeys ∧
      coldkeys.length = snapshot.hotkeys.length) ∧
    ∀ uid, uid ∈ withheld ↔ uid = ownerUid ∨ underOwnerColdkey snapshot uid := by
  unfold chainWithheldUids at computed
  split at computed
  · cases computed
  · next coldkeys known =>
    simp only [bind_eq_ok, require_eq_ok, pure, Except.pure, Except.ok.injEq] at computed
    obtain ⟨_, ⟨filledKey, sameLength⟩, rfl⟩ := computed
    refine ⟨⟨coldkeys, known, sameLength⟩, fun uid => ?_⟩
    cases owner : snapshot.ownerColdkey with
    | none => simp [filled, owner] at filledKey
    | some ownerColdkey =>
      rw [Finset.mem_insert, List.mem_toFinset, List.mem_filter, List.mem_range,
        underOwnerColdkey, known, owner]
      simp only [decide_eq_true_eq]
      refine or_congr_right ⟨And.right, fun found => ⟨?_, found⟩⟩
      exact (List.getElem?_eq_some_iff.mp found).1

/-- The owner never earns, whatever the mode. -/
theorem mem_modeWithheld (computed : modeWithheld mode snapshot ownerUid = .ok withheld) :
    ownerUid ∈ withheld := by
  unfold modeWithheld at computed
  split_ifs at computed
  · exact ((chainWithheldUids_eq_ok computed).2 ownerUid).mpr (Or.inl rfl)
  · obtain rfl := Except.ok.inj computed
    exact Finset.mem_singleton_self _

/-- In a scored plan what a UID earns is its payable score. -/
theorem getD_earnedScores_eq_payable {scores : List ℚ}
    (computed : chainWithheldUids snapshot ownerUid = .ok withheld) (uid : ℕ) :
    (earnedScores scores withheld).getD uid 0 = payable snapshot ownerUid scores uid := by
  rw [getD_earnedScores, payable]
  exact if_congr ((chainWithheldUids_eq_ok computed).2 uid) rfl rfl

/-! ### The owner's instruction -/

/-- A commitment read tells the owner to burn `n` basis points of the vote: it was
read for the snapshot's owner at the snapshot's block, is no newer than that, and
is exactly the text an owner publishes for a rate below the full burn. -/
structure Instructs (snapshot : ChainSnapshot) (commitment : OwnerCommitment) (n : ℕ) : Prop where
  hotkey : some commitment.hotkey = snapshot.ownerHotkey
  block : commitment.block = snapshot.block
  notNewer : ∀ recorded, commitment.record.get "block" = .int recorded →
    recorded ≤ commitment.block
  text : ∃ published, commitmentText commitment.record = some published ∧
    burnCommitmentText n = .ok published
  below : n < 10000

/-- Every rate is at most the full burn. -/
theorem parseBurnRate_le (text : Option String) : parseBurnRate text ≤ fullBurnBps := by
  unfold parseBurnRate
  split
  · exact le_rfl
  · dsimp only
    split_ifs with bounded
    · exact bounded
    · exact le_rfl

/-- A planned rate below the full burn is the owner's instruction. -/
theorem plannedRate_eq_ok {scored : Bool}
    (computed : plannedRate scored ownerCommitment snapshot = .ok rate) :
    rate ≤ fullBurnBps ∧ (rate < fullBurnBps →
      scored ∧ ∃ commitment, ownerCommitment = some commitment ∧
        Instructs snapshot commitment rate) := by
  unfold plannedRate at computed
  split_ifs at computed with reading
  · cases ownerCommitment with
    | none => simp at reading
    | some commitment =>
      simp only [observedBurnRate, bind_eq_ok, require_eq_ok, pure, Except.pure,
        Except.ok.injEq] at computed
      obtain ⟨_, ⟨hotkey, atBlock⟩, _, notNewer, rfl⟩ := computed
      refine ⟨parseBurnRate_le _, fun less => ⟨reading.1, commitment, rfl, hotkey, atBlock, ?_,
        parseBurnRate_lt less, less⟩⟩
      intro recorded found
      simpa [recordedBlock, found] using notNewer
  · obtain rfl := Except.ok.inj computed
    exact ⟨le_rfl, fun less => absurd less (lt_irrefl _)⟩

/-- A scored plan whose earning UIDs share the vector by the owner's instruction. -/
structure SharedVote (mode : EmissionMode) (snapshot : ChainSnapshot) (ownerUid : ℕ)
    (scores : List ℚ) (ownerCommitment : Option OwnerCommitment) (vote : NetworkPlan) : Prop where
  scored : mode = .scored
  withheld : chainWithheldUids snapshot ownerUid = .ok vote.withheld
  instructed : ∃ commitment, ownerCommitment = some commitment ∧
    Instructs snapshot commitment vote.burnBps
  allots : Allots ownerUid vote.burnBps (earnedScores scores vote.withheld) vote.weights

/-- A network's vote is shared on the owner's instruction or the owner's alone. -/
theorem planNetwork_cases {vote : NetworkPlan} (nonneg : ∀ score ∈ scores, 0 ≤ score)
    (planned : planNetwork mode network snapshot chainIdentity netuid localHotkeys scores
      ownerCommitment = .ok vote) :
    ∃ ownerUid, localOwnerUid network chainIdentity netuid snapshot localHotkeys = .ok ownerUid ∧
      (SharedVote mode snapshot ownerUid scores ownerCommitment vote ∨
        vote.burnBps = fullBurnBps ∧ ownerUid < localHotkeys.length ∧
          vote.weights = oneHot localHotkeys.length ownerUid) := by
  obtain ⟨ownerUid, rate, resolved, ofMode, ofRate, vector, -⟩ := planNetwork_eq_ok planned
  have ownerZero : (earnedScores scores vote.withheld).getD ownerUid 0 = 0 := by
    rw [getD_earnedScores, if_pos (mem_modeWithheld ofMode)]
  obtain ⟨bounded, instructed⟩ := plannedRate_eq_ok ofRate
  refine ⟨ownerUid, resolved, ?_⟩
  cases voteNetworkWeights_eq_ok (earnedScores_nonneg nonneg vote.withheld) ownerZero bounded
    vector with
  | inr alone => exact Or.inr alone.2
  | inl shared =>
    obtain ⟨below, same, allots⟩ := shared
    obtain ⟨scored, commitment, read, instructs⟩ := instructed below
    rw [Bool.and_eq_true, decide_eq_true_eq] at scored
    rw [modeWithheld, if_pos scored.1] at ofMode
    exact Or.inl ⟨scored.1, ofMode, ⟨commitment, read, same ▸ instructs⟩, same ▸ allots⟩

/-- In a shared vote every UID's part of what is earned is its payable part. -/
theorem SharedVote.sum_earnedScores {vote : NetworkPlan}
    (shared : SharedVote mode snapshot ownerUid scores ownerCommitment vote) :
    (earnedScores scores vote.withheld).sum =
      ∑ earner ∈ Finset.range scores.length, payable snapshot ownerUid scores earner := by
  rw [Scoring.sum_earnedScores]
  exact Finset.sum_congr rfl fun earner _ => getD_earnedScores_eq_payable shared.withheld earner

/-- A UID other than the owner's that a shared vote pays has a payable score. -/
theorem SharedVote.payable_pos {vote : NetworkPlan}
    (shared : SharedVote mode snapshot ownerUid scores ownerCommitment vote)
    (nonneg : ∀ score ∈ scores, 0 ≤ score) {uid : ℕ} (other : uid ≠ ownerUid)
    (positive : 0 < vote.weights.getD uid 0) : 0 < payable snapshot ownerUid scores uid := by
  have part : 0 < share vote.weights uid := div_pos positive shared.allots.positive
  rw [shared.allots.others uid other, getD_earnedScores_eq_payable shared.withheld] at part
  refine lt_of_le_of_ne ?_ fun nothing => by simp [← nothing] at part
  rw [payable]
  split_ifs
  · exact le_rfl
  · by_cases inside : uid < scores.length
    · rw [List.getD_eq_getElem _ _ inside]
      exact nonneg _ (List.getElem_mem inside)
    · rw [List.getD_eq_default _ _ (not_lt.mp inside)]

/-- A payable score is the positive score of a UID under another coldkey. -/
theorem lt_of_payable_pos {uid : ℕ} (earns : 0 < payable snapshot ownerUid scores uid) :
    uid < scores.length ∧ 0 < scores.getD uid 0 ∧ uid ≠ ownerUid ∧
      underOwnerColdkey snapshot uid = false := by
  rw [payable] at earns
  split_ifs at earns with withheld
  · exact absurd earns (lt_irrefl _)
  · rw [not_or, Bool.not_eq_true] at withheld
    refine ⟨?_, earns, withheld⟩
    by_contra outside
    rw [List.getD_eq_default _ _ (not_lt.mp outside)] at earns
    exact lt_irrefl _ earns

/-- Miners are paid only on the owner's explicit instruction, and withheld UIDs
never earn: a vector with anything on another UID is a scored one, shared by the
rate of a valid commitment. Any other commitment burns the whole vote, and a plan
that lacks its commitment read carries no vector. -/
theorem pays_only_on_instruction {snapshot? : Option ChainSnapshot} {plan : EmissionPlan}
    (nonneg : ∀ score ∈ scores, 0 ≤ score)
    (planned : planEmission mode (some network) snapshot? block chainIdentity netuid validatorUid
      validatorHotkey localHotkeys scores ownerCommitment pools = .ok plan) :
    ∃ snapshot ownerUid, snapshot? = some snapshot ∧ snapshot.block = block ∧
      (∃ ownerHotkey, snapshot.ownerHotkey = some ownerHotkey ∧
        uidsOf snapshot.hotkeys ownerHotkey = [ownerUid]) ∧
      (∀ uid ≠ ownerUid, 0 < plan.weights.getD uid 0 →
        mode = .scored ∧
        (∃ hotkey, localHotkeys[uid]? = some hotkey ∧ snapshot.hotkeys[uid]? = some hotkey) ∧
        (∃ coldkeys coldkey, snapshot.coldkeys = some coldkeys ∧ coldkeys[uid]? = some coldkey ∧
          some coldkey ≠ snapshot.ownerColdkey) ∧
        ∃ commitment n, ownerCommitment = some commitment ∧ Instructs snapshot commitment n ∧
          share plan.weights ownerUid = n / 10000 ∧
          ∀ other ≠ ownerUid, share plan.weights other =
            (1 - n / 10000) * (payable snapshot ownerUid scores other /
              ∑ earner ∈ Finset.range scores.length, payable snapshot ownerUid scores earner)) ∧
      (∀ commitment, ownerCommitment = some commitment →
        (¬ ∃ n, Instructs snapshot commitment n) →
        plan.weights = oneHot localHotkeys.length ownerUid) ∧
      (mode = .scored → ownerCommitment = none →
        (∃ uid, 0 < payable snapshot ownerUid scores uid) →
        plan.weights = [] ∧ plan.recipient = none ∧
          plan.commitmentOwner = if plan.due then snapshot.ownerHotkey else none) := by
  obtain ⟨snapshot, vote, rfl, atBlock, agree, voted, result⟩ := planEmission_eq_ok planned
  obtain ⟨ownerUid, resolved, vector⟩ := planNetwork_cases nonneg voted
  obtain ⟨resolver, rate, resolved', ofMode, -, -, -, needs⟩ := planNetwork_eq_ok voted
  obtain rfl : resolver = ownerUid := Except.ok.inj (resolved'.symm.trans resolved)
  obtain ⟨ownerHotkey, isOwner, registered⟩ :=
    uidsOf_of_resolveOwnerVoteUid (localOwnerUid_eq_ok.mp resolved).1
  refine ⟨snapshot, resolver, rfl, atBlock, ⟨ownerHotkey, isOwner, registered⟩, ?_, ?_, ?_⟩
  · intro uid other positive
    cases waiting : vote.needsCommitment with
    | true =>
      simp only [waiting, if_true] at result
      rw [result.1] at positive
      exact absurd positive (lt_irrefl _)
    | false =>
      simp only [waiting, Bool.false_eq_true, if_false] at result
      rw [result.1] at positive ⊢
      cases vector with
      | inr alone =>
        rw [alone.2.2, getD_oneHot alone.2.1, if_neg other] at positive
        exact absurd positive (lt_irrefl _)
      | inl shared =>
        obtain ⟨inside, earns, -, paid⟩ := lt_of_payable_pos (shared.payable_pos nonneg other positive)
        -- The UID's own score is positive, so the snapshot agrees on its hotkey.
        obtain ⟨locally, onChain, same⟩ := agree shared.scored uid inside earns
        obtain ⟨⟨coldkeys, known, sameLength⟩, -⟩ := chainWithheldUids_eq_ok shared.withheld
        obtain ⟨commitment, read, instructs⟩ := shared.instructed
        have hasColdkey := List.getElem?_eq_getElem (sameLength ▸ onChain : uid < coldkeys.length)
        refine ⟨shared.scored, ⟨snapshot.hotkeys[uid], ?_, List.getElem?_eq_getElem onChain⟩,
          ⟨coldkeys, _, known, hasColdkey, fun owned => ?_⟩,
          commitment, vote.burnBps, read, instructs, shared.allots.owner, ?_⟩
        · rw [same, List.getElem?_eq_getElem onChain]
        · rw [underOwnerColdkey, known, ← owned] at paid
          simp [hasColdkey] at paid
        · intro third outside
          rw [shared.allots.others third outside, getD_earnedScores_eq_payable shared.withheld,
            shared.sum_earnedScores]
  · intro commitment read others
    have ready : vote.needsCommitment = false := by
      rw [needs, read]
      simp
    simp only [ready, Bool.false_eq_true, if_false] at result
    rw [result.1]
    cases vector with
    | inr alone => exact alone.2.2
    | inl shared =>
      obtain ⟨commitment', read', instructs⟩ := shared.instructed
      obtain rfl := Option.some.inj (read.symm.trans read')
      exact absurd ⟨_, instructs⟩ others
  · intro scored unread earning
    obtain ⟨uid, earns⟩ := earning
    rw [modeWithheld, if_pos scored] at ofMode
    have waiting : vote.needsCommitment = true := by
      have entry := @getD_earnedScores_eq_payable _ _ _ scores ofMode uid
      have inside : uid < (earnedScores scores vote.withheld).length := by
        rw [length_earnedScores]
        exact (lt_of_payable_pos earns).1
      rw [List.getD_eq_getElem _ _ inside] at entry
      have found : (earnedScores scores vote.withheld).any (0 < ·) = true :=
        List.any_eq_true.mpr ⟨_, List.getElem_mem inside, by simpa [entry] using earns⟩
      rw [needs, scored, found, unread]
      rfl
    simpa only [waiting, if_true] using result

/-- Without a positive score the mode selected from the scores votes for the owner
alone, whatever its commitment says, and waits for no commitment. -/
theorem idle_vote_is_the_owners {snapshot? : Option ChainSnapshot} {plan : EmissionPlan}
    (nonneg : ∀ score ∈ scores, 0 ≤ score) (idle : ∀ score ∈ scores, score ≤ 0)
    (planned : planEmission (selectEmissionMode scores (some network)) (some network) snapshot?
      block chainIdentity netuid validatorUid validatorHotkey localHotkeys scores ownerCommitment
      pools = .ok plan) :
    ∃ ownerUid < localHotkeys.length, plan.weights = oneHot localHotkeys.length ownerUid := by
  have selected : selectEmissionMode scores (some network) = .ownerVote := by
    simpa [selectEmissionMode] using idle
  rw [selected] at planned
  obtain ⟨snapshot, vote, -, -, -, voted, result⟩ := planEmission_eq_ok planned
  obtain ⟨-, -, -, -, -, -, -, needs⟩ := planNetwork_eq_ok voted
  simp only [needs, reduceCtorEq, decide_false, Bool.false_and, Bool.false_eq_true, if_false]
    at result
  obtain ⟨ownerUid, -, shared | ⟨-, registered, alone⟩⟩ := planNetwork_cases nonneg voted
  · exact nomatch shared.scored
  · exact ⟨ownerUid, registered, result.1.trans alone⟩

end Plan

/-! ### One shared vote -/

/-- A network of an owner, a miner and an alias under the owner's coldkey. -/
def voteSnapshot : ChainSnapshot where
  block := 900
  hotkeys := ["owner", "miner", "alias"]
  ownerHotkey := some "owner"
  ownerColdkey := some "cold"
  coldkeys := some ["cold", "other", "cold"]
  validatorPermit := [true, true, false]
  lastUpdate := [100, 100, 100]
  weightsRateLimit := 100

/-- The owner's commitment to burn a quarter of the vote. -/
def quarterBurn : OwnerCommitment where
  hotkey := "owner"
  block := 900
  record := .dict [(.str "block", .int 880), (.str "info", .dict [(.str "fields", .list
    [.dict [(.str "Raw20", .str "0x656e647572652e6275726e5f6270733d32353030")]])])]

/-- The vote of that network on the scores of its UIDs. -/
def voteOn (commitment : Option OwnerCommitment) : Except EmissionBlocked EmissionPlan :=
  planEmission (selectEmissionMode [0, 3, 1] (some .testnet)) (some .testnet) (some voteSnapshot)
    900 "0xab" 7 1 "miner" voteSnapshot.hotkeys [0, 3, 1] commitment [["miner", "alias"]]

/-- The plan the miner's and the alias's scores lead to. -/
def quarterPlan : EmissionPlan where
  due := true
  permit := true
  nextEligibleBlock := 201
  weights := [1 / 4, 3 / 4, 0]
  recipient := some ⟨.testnet, "owner", 0, 2500, some "cold", {0, 2}⟩
  burnBps := some 2500
  commitmentOwner := none
  groups := []

theorem voteOn_quarterBurn : voteOn (some quarterBurn) = .ok quarterPlan := by
  decide +kernel

/-- The miner earns all that is not burned on the instruction just read. An owner
that committed nothing keeps the vote, and without a read nothing is sent. -/
theorem pays_miner_on_quarterBurn :
    (0 < quarterPlan.weights.getD 1 0 ∧
      voteSnapshot.hotkeys[1]? = some "miner" ∧
      (∃ coldkeys coldkey, voteSnapshot.coldkeys = some coldkeys ∧ coldkeys[1]? = some coldkey ∧
        some coldkey ≠ voteSnapshot.ownerColdkey) ∧
      Instructs voteSnapshot quarterBurn 2500 ∧ share quarterPlan.weights 0 = 2500 / 10000 ∧
      ∀ other ≠ 0, share quarterPlan.weights other =
        (1 - 2500 / 10000) * (payable voteSnapshot 0 [0, 3, 1] other /
          ∑ earner ∈ Finset.range 3, payable voteSnapshot 0 [0, 3, 1] earner)) ∧
    (∃ plan, voteOn (some ⟨"owner", 900, .none⟩) = .ok plan ∧ plan.weights = oneHot 3 0) ∧
    ∃ plan, voteOn none = .ok plan ∧ plan.due ∧ plan.weights = [] ∧ plan.recipient = none ∧
      plan.commitmentOwner = some "owner" := by
  have nonneg : ∀ score ∈ ([0, 3, 1] : List ℚ), 0 ≤ score := by decide +kernel
  have owner : ∀ {snapshot ownerUid}, some voteSnapshot = some snapshot →
      (∃ ownerHotkey, snapshot.ownerHotkey = some ownerHotkey ∧
        uidsOf snapshot.hotkeys ownerHotkey = [ownerUid]) →
      snapshot = voteSnapshot ∧ ownerUid = 0 := by
    rintro _ ownerUid ⟨⟩ ⟨ownerHotkey, isOwner, registered⟩
    obtain rfl := Option.some.inj isOwner
    have alone : uidsOf voteSnapshot.hotkeys "owner" = [0] := by decide
    exact ⟨rfl, List.singleton_inj.mp (registered.symm.trans alone)⟩
  refine ⟨?_, ?_, ?_⟩
  -- the rate of the instruction is what the owner's share says it is
  · obtain ⟨_, _, known, -, registered, paid, -, -⟩ :=
      pays_only_on_instruction nonneg voteOn_quarterBurn
    obtain ⟨rfl, rfl⟩ := owner known registered
    have positive : 0 < quarterPlan.weights.getD 1 0 := by decide +kernel
    obtain ⟨-, ⟨hotkey, locally, -⟩, coldkey, commitment, n, read, instructs, burned, others⟩ :=
      paid 1 one_ne_zero positive
    obtain rfl := Option.some.inj read
    have quarter : share quarterPlan.weights 0 = 1 / 4 := by decide +kernel
    have rate : n = 2500 := by
      have : (n : ℚ) = 2500 := by linarith [burned.symm.trans quarter]
      exact_mod_cast this
    subst rate
    exact ⟨positive, rfl, coldkey, instructs, by exact_mod_cast burned, by exact_mod_cast others⟩
  · have planned : voteOn (some ⟨"owner", 900, .none⟩) = .ok { quarterPlan with
        weights := [1, 0, 0], burnBps := some 10000
        recipient := some ⟨.testnet, "owner", 0, 10000, some "cold", {0, 2}⟩ } := by
      decide +kernel
    refine ⟨_, planned, ?_⟩
    obtain ⟨_, _, known, -, registered, -, burns, -⟩ := pays_only_on_instruction nonneg planned
    obtain ⟨rfl, rfl⟩ := owner known registered
    -- a commitment without text instructs no rate
    refine burns _ rfl fun ⟨n, instructs⟩ => ?_
    obtain ⟨published, read, -⟩ := instructs.text
    cases read
  · have planned : voteOn none = .ok { quarterPlan with
        weights := [], recipient := none, burnBps := none, commitmentOwner := some "owner" } := by
      decide +kernel
    obtain ⟨_, _, known, -, registered, -, -, waits⟩ := pays_only_on_instruction nonneg planned
    obtain ⟨rfl, rfl⟩ := owner known registered
    have earns : 0 < payable voteSnapshot 0 [0, 3, 1] 1 := by decide +kernel
    obtain ⟨weights, recipient, read⟩ := waits (by decide) rfl ⟨1, earns⟩
    exact ⟨_, planned, rfl, weights, recipient, read⟩

end Endure.Scoring
