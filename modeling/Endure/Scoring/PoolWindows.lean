import Endure.Scoring.Duplicates

/-!
# Pools over a sliding window

The pools of a window are disjoint, each of scored hotkeys of one group of one round,
the oldest that offers them a place; copies that match in every round share one pool.
New rounds never move a hotkey that an older round assigned, and a round that leaves
at the old end only lets the surviving pools grow.
-/

namespace Endure.Scoring

open Library Library.FirstCome Endure.Storage

/-- A hotkey counts toward pools. -/
def Counts (scored : Option (Finset Hotkey)) (hotkey : Hotkey) : Prop :=
  ∀ listed ∈ scored, hotkey ∈ listed

/-- What the pools of a window of disjoint groups are. -/
structure WellFormedPools (rounds : List IdenticalGroups) (scored : Option (Finset Hotkey))
    (pools : List (Finset Hotkey)) : Prop where
  disjoint : pools.Pairwise Disjoint
  several : ∀ pool ∈ pools, 1 < pool.card ∧ ∀ hotkey ∈ pool, Counts scored hotkey
  oldest : ∀ pool ∈ pools, ∃ age groups group, rounds[age]? = some groups ∧ group ∈ groups ∧
    pool ⊆ group ∧ 1 < (countedMembers scored group).card ∧
    ∀ older ∈ rounds.drop (age + 1), ∀ earlier ∈ older, ∀ hotkey ∈ pool, hotkey ∈ earlier →
      (countedMembers scored earlier).card ≤ 1
  copies : rounds ≠ [] → ∀ hotkey other, hotkey ≠ other → Counts scored hotkey →
    Counts scored other → (∀ groups ∈ rounds, ∃ group ∈ groups, hotkey ∈ group ∧ other ∈ group) →
      ∃ pool ∈ pools, hotkey ∈ pool ∧ other ∈ pool

variable {scored : Option (Finset Hotkey)} {rounds : List IdenticalGroups}
  {groups groups' : IdenticalGroups} {hotkey other : Hotkey} {pool : Finset Hotkey}

theorem slotOf_eq_some {age index : ℕ} (found : slotOf rounds scored hotkey = some (age, index)) :
    (∃ groups, rounds[age]? = some groups ∧ groupIndex scored groups hotkey = some index) ∧
      ∀ older ∈ rounds.drop (age + 1), groupIndex scored older hotkey = none := by
  obtain ⟨⟨label, located, labelled⟩, quiet⟩ := assign_eq_some.mp found
  rw [List.getElem?_map, Option.map_eq_some_iff] at located
  obtain ⟨groups, located, rfl⟩ := located
  refine ⟨⟨groups, located, labelled⟩, fun older member => ?_⟩
  rw [← List.map_drop] at quiet
  exact quiet _ (List.mem_map_of_mem member)

/-- The group of a hotkey's slot offers it. -/
theorem offers_of_slotOf {age index : ℕ} {group : Finset Hotkey} (located : rounds[age]? = some groups)
    (place : groups[index]? = some group) (found : slotOf rounds scored hotkey = some (age, index)) :
    Offers scored hotkey group := by
  obtain ⟨⟨groups', located', found'⟩, -⟩ := slotOf_eq_some found
  obtain rfl := Option.some.inj (located.symm.trans located')
  obtain ⟨group', place', offered⟩ := groupIndex_eq_some found'
  obtain rfl := Option.some.inj (place.symm.trans place')
  exact offered

/-- A group that counts a hotkey of no index counts it alone. -/
theorem card_le_one_of_groupIndex (free : groupIndex scored groups hotkey = none)
    (counts : Counts scored hotkey) {group : Finset Hotkey} (listed : group ∈ groups)
    (inside : hotkey ∈ group) : (countedMembers scored group).card ≤ 1 := by
  by_contra several
  have offered : Offers scored hotkey group :=
    ⟨by omega, mem_countedMembers.mpr ⟨inside, counts⟩⟩
  have found := groupIndex_isSome.mpr ⟨group, listed, offered, offered⟩
  rw [free] at found
  cases found

/-- The hotkeys assigned to a slot. -/
def slotPool (rounds : List IdenticalGroups) (scored : Option (Finset Hotkey)) (slot : ℕ × ℕ) :
    Finset Hotkey :=
  (assignments rounds scored).keys.toFinset.filter fun hotkey => slotOf rounds scored hotkey = some slot

theorem mem_slotPool {slot : ℕ × ℕ} :
    hotkey ∈ slotPool rounds scored slot ↔ slotOf rounds scored hotkey = some slot := by
  rw [slotPool, Finset.mem_filter, and_iff_right_iff_imp, List.mem_toFinset, Dict.mem_keys_iff]
  intro found
  exact ⟨slot, get?_assignments.trans found⟩

/-- A slot's hotkeys are among those of its group. -/
theorem slotPool_eq_filter {age index : ℕ} {group : Finset Hotkey}
    (located : rounds[age]? = some groups) (place : groups[index]? = some group) :
    slotPool rounds scored (age, index) =
      group.filter fun hotkey => slotOf rounds scored hotkey = some (age, index) := by
  ext hotkey
  rw [mem_slotPool, Finset.mem_filter, iff_and_self]
  exact fun found => (mem_countedMembers.mp (offers_of_slotOf located place found).2).1

/-- The pools are the slots of two or more hotkeys. -/
theorem mem_duplicatePools_iff_slotPool : pool ∈ duplicatePools rounds scored ↔
    1 < pool.card ∧ ∃ slot, pool = slotPool rounds scored slot := by
  rw [mem_duplicatePools]
  refine and_congr_right fun _ => exists_congr fun slot => ?_
  rw [Finset.ext_iff]
  simp only [mem_slotPool]

/-- Hotkeys of one slot share its pool. -/
theorem exists_pool {slot : ℕ × ℕ} (apart : hotkey ≠ other)
    (found : slotOf rounds scored hotkey = some slot)
    (found' : slotOf rounds scored other = some slot) :
    ∃ pool ∈ duplicatePools rounds scored, hotkey ∈ pool ∧ other ∈ pool := by
  have inside := mem_slotPool.mpr found
  have inside' := mem_slotPool.mpr found'
  refine ⟨slotPool rounds scored slot, ?_, inside, inside'⟩
  refine mem_duplicatePools_iff_slotPool.mpr ⟨?_, slot, rfl⟩
  exact Finset.one_lt_card.mpr ⟨hotkey, inside, other, inside', apart⟩

/-- The pools of a window are well formed. -/
theorem wellFormedPools_duplicatePools (disjoint : ∀ groups ∈ rounds, groups.Pairwise Disjoint) :
    WellFormedPools rounds scored (duplicatePools rounds scored) := by
  have counted : ∀ pool ∈ duplicatePools rounds scored, ∀ hotkey ∈ pool, Counts scored hotkey := by
    intro pool member hotkey inside
    obtain ⟨-, ⟨age, index⟩, spec⟩ := mem_duplicatePools.mp member
    obtain ⟨⟨groups, -, found⟩, -⟩ := slotOf_eq_some ((spec hotkey).mp inside)
    obtain ⟨group, -, offered⟩ := groupIndex_eq_some found
    exact (mem_countedMembers.mp offered.2).2
  refine ⟨duplicatePools_pairwise rounds scored, fun pool member =>
    ⟨(mem_duplicatePools.mp member).1, counted pool member⟩, fun pool member => ?_, ?_⟩
  · obtain ⟨several, ⟨age, index⟩, spec⟩ := mem_duplicatePools.mp member
    obtain ⟨first, leads⟩ : pool.Nonempty := Finset.card_pos.mp (by omega)
    obtain ⟨⟨groups, located, found⟩, -⟩ := slotOf_eq_some ((spec first).mp leads)
    obtain ⟨group, place, offered⟩ := groupIndex_eq_some found
    refine ⟨age, groups, group, located, List.mem_of_getElem? place, ?_, offered.1, ?_⟩
    · intro hotkey inside
      have offered' := offers_of_slotOf located place ((spec hotkey).mp inside)
      exact (mem_countedMembers.mp offered'.2).1
    · intro older inWindow earlier listed hotkey inside joined
      obtain ⟨-, quiet⟩ := slotOf_eq_some ((spec hotkey).mp inside)
      exact card_le_one_of_groupIndex (quiet older inWindow) (counted pool member hotkey inside)
        listed joined
  · intro nonempty hotkey other apart counts counts' shared
    -- The oldest round of the window pairs them already, and nobody is assigned before it.
    obtain ⟨newer, oldest, rfl⟩ : ∃ newer oldest, rounds = newer ++ [oldest] :=
      ⟨rounds.dropLast, rounds.getLast nonempty, (List.dropLast_append_getLast nonempty).symm⟩
    have inWindow : oldest ∈ newer ++ [oldest] := by simp
    obtain ⟨group, listed, inside, inside'⟩ := shared oldest inWindow
    have pair : 1 < (countedMembers scored group).card := by
      rw [Finset.one_lt_card]
      exact ⟨hotkey, mem_countedMembers.mpr ⟨inside, counts⟩, other,
        mem_countedMembers.mpr ⟨inside', counts'⟩, apart⟩
    obtain ⟨place, located⟩ := List.mem_iff_getElem?.mp listed
    have slot : ∀ key, key ∈ group → Counts scored key →
        slotOf (newer ++ [oldest]) scored key = some (newer.length, place) := by
      intro key joined keyCounts
      have own := groupIndex_eq_of_offers (disjoint oldest inWindow) located
        (show Offers scored key group from ⟨pair, mem_countedMembers.mpr ⟨joined, keyCounts⟩⟩)
      have alone : assign [groupIndex scored oldest] key = some (0, place) := by
        rw [assign, assign, own]
        rfl
      rw [slotOf, List.map_append, List.map_singleton, assign_append_of_some alone, List.length_map,
        Nat.zero_add]
    exact exists_pool apart (slot hotkey inside counts) (slot other inside' counts')

/-! ### Order, unscored hotkeys and UIDs -/

/-- Reordered groups pair the same hotkeys. -/
theorem samePairs_of_perm (disjoint : groups.Pairwise Disjoint) (perm : groups'.Perm groups) :
    SamePairs scored groups' groups := by
  refine ⟨(perm.pairwise_iff fun apart => apart.symm).mpr disjoint, disjoint, fun hotkey other => ?_⟩
  rw [Together, Together]
  simp only [perm.mem_iff]

/-- The tie order lists every pool's hotkeys, each once. -/
theorem flatten_tieOrdered_nodup (sha256 : String → ℕ) (seed : String) {pools : List (Finset Hotkey)}
    (disjoint : pools.Pairwise Disjoint) : (tieOrdered sha256 pools seed).flatten.Nodup := by
  have perm : ∀ pool : Finset Hotkey, (pool.sort.insertionSort fun first second =>
      sha256 ("endure.pool_tie_order.v1:" ++ seed ++ ":" ++ first) ≤
        sha256 ("endure.pool_tie_order.v1:" ++ seed ++ ":" ++ second)).Perm pool.sort := fun pool =>
    List.perm_insertionSort _ _
  rw [tieOrdered, List.nodup_flatten]
  constructor
  · intro ordered member
    obtain ⟨pool, -, rfl⟩ := List.mem_map.mp member
    exact (perm pool).nodup_iff.mpr (pool.sort_nodup (· ≤ ·))
  · rw [List.pairwise_map]
    refine disjoint.imp fun {first second} apart => ?_
    intro hotkey left right
    rw [(perm first).mem_iff, Finset.mem_sort] at left
    rw [(perm second).mem_iff, Finset.mem_sort] at right
    exact Finset.disjoint_left.mp apart left right

/-- Every round's groups are disjoint and the pools of any window of disjoint groups are well
formed; they depend neither on the order of the groups in a round nor, over submissions, on
anything but the values of the hotkeys that count; and the UID groups made of them are
disjoint, so the encoder places them for any distinct UIDs. -/
theorem duplicatePools_spec :
    (∀ accepted, (identicalForecastGroups accepted).Pairwise Disjoint) ∧
    (∀ rounds scored, (∀ groups ∈ rounds, groups.Pairwise Disjoint) →
      WellFormedPools rounds scored (duplicatePools rounds scored) ∧
      ∀ rounds', List.Forall₂ List.Perm rounds' rounds →
        duplicatePools rounds' scored = duplicatePools rounds scored) ∧
    (∀ submissions submissions' scored, List.Forall₂ (Agree scored) submissions submissions' →
      duplicatePools (submissions.map identicalForecastGroups) scored =
        duplicatePools (submissions'.map identicalForecastGroups) scored) ∧
    ∀ rounds scored sha256 seed hotkeys withheld,
      (poolUids (tieOrdered sha256 (duplicatePools rounds scored) seed) hotkeys
        withheld).flatten.Nodup ∧
      ∀ uids : List ℕ, uids.Nodup → ∃ positions, groupPositions uids
        (poolUids (tieOrdered sha256 (duplicatePools rounds scored) seed) hotkeys withheld) =
          .ok positions := by
  refine ⟨identicalForecastGroups_pairwise, fun rounds scored disjoint =>
    ⟨wellFormedPools_duplicatePools disjoint, fun rounds' perm => ?_⟩,
    fun submissions submissions' scored agree => ?_, fun rounds scored sha256 seed hotkeys withheld => ?_⟩
  · apply duplicatePools_congr
    induction perm with
    | nil => exact .nil
    | cons same _ ih =>
      obtain ⟨here, there⟩ := List.forall_mem_cons.mp disjoint
      exact .cons (samePairs_of_perm here same) (ih there)
  · apply duplicatePools_congr
    rw [List.forall₂_map_left_iff, List.forall₂_map_right_iff]
    exact agree.imp fun _ _ => samePairs_of_agree
  · have distinct := flatten_tieOrdered_nodup sha256 seed (duplicatePools_pairwise rounds scored)
    have uidsDistinct := (poolUids_flatten distinct hotkeys withheld).1
    exact ⟨uidsDistinct, fun uids nodup => ⟨_, groupPositions_eq nodup uidsDistinct⟩⟩

/-- Over a window without rounds every two hotkeys share a group in all of them, and no pool. -/
theorem emptyWindow_pools_none :
    (∀ groups ∈ ([] : List IdenticalGroups), ∃ group ∈ groups, "a" ∈ group ∧ "b" ∈ group) ∧
      Counts (some {"a", "b"}) "a" ∧ Counts (some {"a", "b"}) "b" ∧
      ¬∃ pool ∈ duplicatePools [] (some {"a", "b"}), "a" ∈ pool ∧ "b" ∈ pool := by
  refine ⟨by simp, by simp [Counts], by simp [Counts], ?_⟩
  rintro ⟨pool, member, inside, -⟩
  obtain ⟨-, slot, spec⟩ := mem_duplicatePools.mp member
  cases (spec "a").mp inside

/-! ### Sliding -/

section Sliding

variable {newer kept older : List IdenticalGroups} {age index : ℕ} {slot : ℕ × ℕ}

/-- Newer rounds leave an assignment at its round. -/
theorem slotOf_append_of_some (newer : List IdenticalGroups)
    (found : slotOf kept scored hotkey = some (age, index)) :
    slotOf (newer ++ kept) scored hotkey = some (age + newer.length, index) := by
  rw [slotOf, List.map_append, assign_append_of_some found, List.length_map]

/-- Newer rounds leave the pool of an older slot as it was. -/
theorem slotPool_append (newer : List IdenticalGroups)
    (found : slotOf kept scored hotkey = some (age, index)) :
    slotPool (newer ++ kept) scored (age + newer.length, index) =
      slotPool kept scored (age, index) := by
  ext other
  rw [mem_slotPool, mem_slotPool, ← slotOf_append_of_some newer found, ← found, slotOf, slotOf,
    List.map_append]
  exact assign_append_eq_iff found

/-- An assignment to a round that stays is the same without the older rounds. -/
theorem slotOf_of_append (found : slotOf (kept ++ older) scored hotkey = some (age, index))
    (stays : age < kept.length) : slotOf kept scored hotkey = some (age, index) := by
  rw [slotOf, List.map_append] at found
  exact assign_of_append found (by rwa [List.length_map])

/-- A pool of a window is the pool of the slot any of its hotkeys is assigned to. -/
theorem eq_slotPool (member : pool ∈ duplicatePools rounds scored) (inside : hotkey ∈ pool)
    (found : slotOf rounds scored hotkey = some slot) : pool = slotPool rounds scored slot := by
  obtain ⟨-, slot', rfl⟩ := mem_duplicatePools_iff_slotPool.mp member
  rw [mem_slotPool, found] at inside
  rw [Option.some.inj inside]

/-- New rounds change neither the pool nor the slot of a hotkey that an older round
assigned. -/
theorem mem_duplicatePools_append (newer : List IdenticalGroups)
    (found : slotOf kept scored hotkey = some (age, index)) (inside : hotkey ∈ pool) : pool ∈ duplicatePools (newer ++ kept) scored ↔
      pool ∈ duplicatePools kept scored := by
  have shifted := slotOf_append_of_some newer found
  constructor
  · intro member
    have same := eq_slotPool member inside shifted
    rw [slotPool_append newer found] at same
    exact mem_duplicatePools_iff_slotPool.mpr
      ⟨(mem_duplicatePools.mp member).1, (age, index), same⟩
  · intro member
    have same := eq_slotPool member inside found
    rw [← slotPool_append newer found] at same
    exact mem_duplicatePools_iff_slotPool.mpr
      ⟨(mem_duplicatePools.mp member).1, _, same⟩

/-- The pool of a round that stays only grows when older rounds leave. -/
theorem exists_grown_pool (member : pool ∈ duplicatePools (kept ++ older) scored)
    (inside : hotkey ∈ pool) (found : slotOf (kept ++ older) scored hotkey = some (age, index))
    (stays : age < kept.length) : ∃ grown ∈ duplicatePools kept scored, pool ⊆ grown := by
  have same := eq_slotPool member inside found
  have subset : pool ⊆ slotPool kept scored (age, index) := by
    intro other joined
    rw [same, mem_slotPool] at joined
    exact mem_slotPool.mpr (slotOf_of_append joined stays)
  refine ⟨slotPool kept scored (age, index), ?_, subset⟩
  refine mem_duplicatePools_iff_slotPool.mpr ⟨?_, _, rfl⟩
  exact (mem_duplicatePools.mp member).1.trans_le (Finset.card_le_card subset)

end Sliding

/-- A newer round leaves every pool as it was and pools only hotkeys that no older round
assigned. Without the oldest round every hotkey assigned to another one stays there, and the
pools of the others only grow. So in any later window the hotkeys of a round that is still
in it keep their group, whatever the new rounds hold. -/
theorem pools_stable (scored : Option (Finset Hotkey)) :
    (∀ newest rounds,
      (∀ pool ∈ duplicatePools rounds scored, pool ∈ duplicatePools (newest :: rounds) scored) ∧
      ∀ pool ∈ duplicatePools (newest :: rounds) scored, pool ∉ duplicatePools rounds scored →
        ∀ hotkey ∈ pool, (assignments rounds scored).get? hotkey = none) ∧
    (∀ rounds oldest,
      (∀ hotkey age index,
        (assignments (rounds ++ [oldest]) scored).get? hotkey = some (age, index) →
          age < rounds.length → (assignments rounds scored).get? hotkey = some (age, index)) ∧
      ∀ pool ∈ duplicatePools (rounds ++ [oldest]) scored, ∀ hotkey ∈ pool, ∀ age index,
        (assignments (rounds ++ [oldest]) scored).get? hotkey = some (age, index) →
          age < rounds.length → ∃ grown ∈ duplicatePools rounds scored, pool ⊆ grown) ∧
    ∀ newer newer' kept older hotkey age index,
      (assignments (kept ++ older) scored).get? hotkey = some (age, index) → age < kept.length →
        (assignments (newer ++ kept) scored).get? hotkey = some (age + newer.length, index) ∧
        (∀ pool, hotkey ∈ pool → (pool ∈ duplicatePools (newer ++ kept) scored ↔
          pool ∈ duplicatePools (newer' ++ kept) scored)) ∧
        ∀ pool ∈ duplicatePools (kept ++ older) scored, hotkey ∈ pool →
          ∃ grown ∈ duplicatePools (newer ++ kept) scored, pool ⊆ grown := by
  simp only [get?_assignments]
  refine ⟨fun newest rounds => ⟨fun pool member => ?_, fun pool member new hotkey inside => ?_⟩,
    fun rounds oldest => ⟨fun hotkey age index found stays => slotOf_of_append found stays,
      fun pool member hotkey inside age index found stays =>
        exists_grown_pool member inside found stays⟩,
    fun newer newer' kept older hotkey age index found stays => ?_⟩
  -- a pool has a member, whose slot finds it in the longer window
  · obtain ⟨several, ⟨age, index⟩, spec⟩ := mem_duplicatePools.mp member
    obtain ⟨first, leads⟩ : pool.Nonempty := Finset.card_pos.mp (by omega)
    exact (mem_duplicatePools_append [newest] ((spec first).mp leads) leads).mpr member
  -- a hotkey that an older round assigned keeps its pool, which is then no new one
  · by_contra assigned
    cases found : slotOf rounds scored hotkey with
    | none => exact assigned found
    | some slot =>
      obtain ⟨age, index⟩ := slot
      exact new ((mem_duplicatePools_append [newest] found inside).mp member)
  · have here := slotOf_of_append found stays
    refine ⟨slotOf_append_of_some newer here, fun pool inside => ?_, fun pool member inside => ?_⟩
    · rw [mem_duplicatePools_append newer here inside, mem_duplicatePools_append newer' here inside]
    · obtain ⟨grown, listed, subset⟩ := exists_grown_pool member inside found stays
      exact ⟨grown, (mem_duplicatePools_append newer here (subset inside)).mpr listed, subset⟩

-- The oldest round leaves and a newer one comes: one pool is kept, one grows by the hotkey
-- the oldest round had assigned, and one is new.
example :
    let stays : IdenticalGroups := [{"a", "b"}, {"c", "d", "e"}]
    let before := duplicatePools [stays, [{"d", "g"}]] none
    let after := duplicatePools [[{"a", "f"}, {"h", "i"}], stays] none
    ({"a", "b"} ∈ before ∧ {"a", "b"} ∈ after) ∧ ({"c", "e"} ∈ before ∧ {"c", "d", "e"} ∈ after) ∧
      {"h", "i"} ∉ before ∧ {"h", "i"} ∈ after := by
  refine ⟨⟨?_, ?_⟩, ⟨?_, ?_⟩, fun member => ?_, ?_⟩
  · exact mem_duplicatePools_iff_slotPool.mpr
      ⟨by decide, (0, 0), by rw [slotPool_eq_filter rfl rfl]; decide⟩
  · exact mem_duplicatePools_iff_slotPool.mpr
      ⟨by decide, (1, 0), by rw [slotPool_eq_filter rfl rfl]; decide⟩
  · exact mem_duplicatePools_iff_slotPool.mpr
      ⟨by decide, (0, 1), by rw [slotPool_eq_filter rfl rfl]; decide⟩
  · exact mem_duplicatePools_iff_slotPool.mpr
      ⟨by decide, (1, 1), by rw [slotPool_eq_filter rfl rfl]; decide⟩
  -- no round of the first window offers it a slot
  · obtain ⟨-, slot, spec⟩ := mem_duplicatePools.mp member
    exact nomatch (spec "h").mp (by decide)
  · exact mem_duplicatePools_iff_slotPool.mpr
      ⟨by decide, (0, 1), by rw [slotPool_eq_filter rfl rfl]; decide⟩

end Endure.Scoring
