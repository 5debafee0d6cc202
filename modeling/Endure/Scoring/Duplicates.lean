import Endure.Library.FirstCome
import Endure.Scoring.EmissionEncoding
import Endure.Storage.Rounds

/-!
# Pools of identical forecasts

The model of `endure/scoring/duplicates.py`. Each round groups the hotkeys that
submitted identical values; over a window of rounds every scored hotkey is assigned
to the oldest group it joined, and the hotkeys of one group form a pool. The pools
say who matched whom: neither the order of groups and entries nor an unscored hotkey
shows in them.
-/

namespace Endure.Scoring

open Library Library.FirstCome Endure.Storage

/-- One round's groups of hotkeys with identical forecasts. -/
abbrev IdenticalGroups := List (Finset Hotkey)

/-- One round's hotkeys that submitted identical values, two or more a group. An empty
submission joins no group. -/
def identicalForecastGroups (accepted : Dict Hotkey (Dict Coordinate ℤ)) : IdenticalGroups :=
  let groups := Dict.collect (accepted.entries.filterMap fun entry =>
    if entry.2.entries = [] then none else some (entry.2.entries.toFinset, entry.1))
  (groups.values.map List.toFinset).filter fun members => 1 < members.card

/-- A group's hotkeys that count: all of them, or the scored ones. -/
def countedMembers (scored : Option (Finset Hotkey)) (group : Finset Hotkey) : Finset Hotkey :=
  match scored with
  | none => group
  | some listed => group ∩ listed

/-- The hotkeys one round offers to assign to its slots, each slot named by the round's
age and the group's index. -/
def offers (scored : Option (Finset Hotkey)) (age : ℕ) (groups : IdenticalGroups) :
    List (Hotkey × (ℕ × ℕ)) :=
  groups.zipIdx.flatMap fun entry =>
    let members := countedMembers scored entry.1
    if 1 < members.card then members.sort.map fun hotkey => (hotkey, (age, entry.2)) else []

/-- Every hotkey's slot: the oldest group it joined. -/
def assignments (rounds : List IdenticalGroups) (scored : Option (Finset Hotkey)) :
    Dict Hotkey (ℕ × ℕ) :=
  Dict.empty.insertAllIfAbsent
    (rounds.zipIdx.reverse.flatMap fun entry => offers scored entry.2 entry.1)

/-- The hotkeys of every slot. -/
def slotMembers (assigned : Dict Hotkey (ℕ × ℕ)) : List (Finset Hotkey) :=
  (Dict.collect (assigned.entries.map fun entry => (entry.2, entry.1))).values.map List.toFinset

/-- The pools of two or more hotkeys across rounds given newest first. -/
def duplicatePools (rounds : List IdenticalGroups) (scored : Option (Finset Hotkey)) :
    List (Finset Hotkey) :=
  ((slotMembers (assignments rounds scored)).filter fun members => 1 < members.card).insertionSort
    fun first second => first.sort ≤ second.sort

/-- Each pool's hotkeys in the order drawn from a seed; `sha256` is the digest of a text. -/
def tieOrdered (sha256 : String → ℕ) (pools : List (Finset Hotkey)) (seed : String) :
    List (List Hotkey) :=
  pools.map fun pool => pool.sort.insertionSort fun first second =>
    sha256 ("endure.pool_tie_order.v1:" ++ seed ++ ":" ++ first) ≤
      sha256 ("endure.pool_tie_order.v1:" ++ seed ++ ":" ++ second)

/-! ### Assignment is first come -/

section Assignment

variable {scored : Option (Finset Hotkey)} {rounds : List IdenticalGroups}
  {groups : IdenticalGroups} {hotkey : Hotkey}

/-- Whether a group offers a slot to a hotkey. -/
def Offers (scored : Option (Finset Hotkey)) (hotkey : Hotkey) (group : Finset Hotkey) : Prop :=
  1 < (countedMembers scored group).card ∧ hotkey ∈ countedMembers scored group

instance (scored : Option (Finset Hotkey)) (hotkey : Hotkey) (group : Finset Hotkey) :
    Decidable (Offers scored hotkey group) :=
  inferInstanceAs (Decidable (_ ∧ _))

/-- The index of the first group of a round that offers a slot to a hotkey. -/
def groupIndex (scored : Option (Finset Hotkey)) (groups : IdenticalGroups) (hotkey : Hotkey) :
    Option ℕ :=
  groups.findIdx? fun group => Offers scored hotkey group

theorem groupIndex_cons (group : Finset Hotkey) (groups : IdenticalGroups) :
    groupIndex scored (group :: groups) hotkey =
      if Offers scored hotkey group then some 0
      else (groupIndex scored groups hotkey).map (· + 1) := by
  rw [groupIndex, List.findIdx?_cons]
  by_cases offered : Offers scored hotkey group
  · simp [offered]
  · simp [offered, groupIndex]

theorem lookup_map_pair (members : List Hotkey) (slot : ℕ × ℕ) (hotkey : Hotkey) :
    (members.map fun member => (member, slot)).lookup hotkey =
      if hotkey ∈ members then some slot else none := by
  induction members with
  | nil => rfl
  | cons member rest ih =>
    rw [List.map_cons, List.lookup_cons, ih]
    by_cases same : hotkey = member
    · simp [same]
    · have unequal : (hotkey == member) = false := beq_false_of_ne same
      simp [unequal, same]

/-- A round offers a hotkey the slot of its first group that counts it. -/
theorem lookup_offers (age : ℕ) : (offers scored age groups).lookup hotkey =
    (groupIndex scored groups hotkey).map fun index => (age, index) := by
  have general : ∀ start, ((groups.zipIdx start).flatMap fun entry =>
      if 1 < (countedMembers scored entry.1).card then
        (countedMembers scored entry.1).sort.map fun hotkey => (hotkey, (age, entry.2))
      else []).lookup hotkey =
        (groupIndex scored groups hotkey).map fun index => (age, index + start) := by
    induction groups with
    | nil => exact fun _ => rfl
    | cons group rest ih =>
      intro start
      rw [List.zipIdx_cons, List.flatMap_cons, List.lookup_append, ih, groupIndex_cons]
      by_cases offered : Offers scored hotkey group
      · rw [if_pos offered.1, lookup_map_pair, if_pos (by simpa using offered.2), if_pos offered]
        simp
      · have none : (if 1 < (countedMembers scored group).card then
            (countedMembers scored group).sort.map fun hotkey => (hotkey, (age, start))
            else []).lookup hotkey = none := by
          split_ifs with several
          · rw [lookup_map_pair, if_neg]
            intro member
            exact offered ⟨several, by simpa using member⟩
          · rfl
        rw [none, Option.none_or, if_neg offered, Option.map_map]
        congr 1
        funext index
        simp only [Function.comp_apply, Prod.mk.injEq, true_and]
        omega
  exact general 0

/-- Every hotkey is assigned by the oldest round that offers it a slot. -/
theorem get?_assignments : (assignments rounds scored).get? hotkey =
    assign (rounds.map (groupIndex scored)) hotkey := by
  have general : ∀ start, ((rounds.zipIdx start).reverse.flatMap fun entry =>
      offers scored entry.2 entry.1).lookup hotkey =
        (assign (rounds.map (groupIndex scored)) hotkey).map fun slot =>
          (slot.1 + start, slot.2) := by
    induction rounds with
    | nil => exact fun _ => rfl
    | cons groups older ih =>
      intro start
      rw [List.zipIdx_cons, List.reverse_cons, List.flatMap_append, List.lookup_append, ih,
        List.flatMap_singleton, lookup_offers, List.map_cons, assign]
      cases assign (older.map (groupIndex scored)) hotkey with
      | some slot =>
        rw [Option.map_some, Option.some_or, Option.map_some]
        simp only [Option.some.injEq, Prod.mk.injEq, and_true]
        omega
      | none =>
        rw [Option.map_none, Option.none_or]
        cases groupIndex scored groups hotkey <;> simp
  rw [assignments, Dict.get?_insertAllIfAbsent, Dict.get?_empty, Option.none_or, general 0]
  simp

end Assignment

/-! ### Pools are the hotkeys of one slot -/

section Pools

variable {scored : Option (Finset Hotkey)} {rounds rounds' : List IdenticalGroups}
  {groups groups' : IdenticalGroups} {hotkey other : Hotkey} {pool : Finset Hotkey}

/-- The slot every hotkey is assigned to over a window. -/
def slotOf (rounds : List IdenticalGroups) (scored : Option (Finset Hotkey)) :
    Hotkey → Option (ℕ × ℕ) :=
  assign (rounds.map (groupIndex scored))

theorem mem_collect_iff {assigned : Dict Hotkey (ℕ × ℕ)} {slot : ℕ × ℕ} :
    hotkey ∈ ((Dict.collect (assigned.entries.map fun entry => (entry.2, entry.1))).getD slot
      []).toFinset ↔ assigned.get? hotkey = some slot := by
  rw [List.mem_toFinset, Dict.getD_collect, Dict.get?_eq_some_iff]
  constructor
  · intro inside
    obtain ⟨entry, kept, rfl⟩ := List.mem_map.mp inside
    obtain ⟨listed, same⟩ := List.mem_filter.mp kept
    obtain ⟨source, member, rfl⟩ := List.mem_map.mp listed
    obtain rfl : source.2 = slot := by simpa using same
    exact member
  · intro member
    refine List.mem_map.mpr ⟨(slot, hotkey), List.mem_filter.mpr ⟨?_, by simp⟩, rfl⟩
    exact List.mem_map.mpr ⟨(hotkey, slot), member, rfl⟩

/-- A slot's members are exactly the hotkeys assigned to it. -/
theorem mem_slotMembers {assigned : Dict Hotkey (ℕ × ℕ)} {members : Finset Hotkey}
    (filled : members.Nonempty) : members ∈ slotMembers assigned ↔
      ∃ slot, ∀ hotkey, hotkey ∈ members ↔ assigned.get? hotkey = some slot := by
  rw [slotMembers, Dict.values_eq_map_keys _ [], List.map_map, List.mem_map]
  constructor
  · rintro ⟨slot, -, rfl⟩
    exact ⟨slot, fun hotkey => mem_collect_iff⟩
  · rintro ⟨slot, spec⟩
    refine ⟨slot, ?_, ?_⟩
    · obtain ⟨hotkey, member⟩ := filled
      rw [Dict.mem_keys_collect, List.map_map, List.mem_map]
      exact ⟨(hotkey, slot), Dict.get?_eq_some_iff.mp ((spec hotkey).mp member), rfl⟩
    · ext hotkey
      rw [Function.comp_apply, mem_collect_iff, spec]

/-- A pool is the two or more hotkeys assigned to one slot. -/
theorem mem_duplicatePools : pool ∈ duplicatePools rounds scored ↔
    1 < pool.card ∧ ∃ slot, ∀ hotkey, hotkey ∈ pool ↔ slotOf rounds scored hotkey = some slot := by
  rw [duplicatePools, (List.perm_insertionSort _ _).mem_iff, List.mem_filter, decide_eq_true_eq,
    and_comm]
  refine and_congr_right fun several => ?_
  have filled : pool.Nonempty := Finset.card_pos.mp (by omega)
  rw [mem_slotMembers filled]
  simp only [get?_assignments]
  rfl

theorem slotMembers_pairwise (assigned : Dict Hotkey (ℕ × ℕ)) :
    (slotMembers assigned).Pairwise Disjoint := by
  rw [slotMembers, Dict.values_eq_map_keys _ [], List.map_map, List.pairwise_map]
  refine (Dict.keys_nodup _).imp fun {slot slot'} apart => ?_
  rw [Finset.disjoint_left]
  intro hotkey first second
  have here := mem_collect_iff.mp first
  have there := mem_collect_iff.mp second
  exact apart (Option.some.inj (here.symm.trans there))

theorem duplicatePools_pairwise (rounds : List IdenticalGroups) (scored : Option (Finset Hotkey)) :
    (duplicatePools rounds scored).Pairwise Disjoint := by
  have kept := (slotMembers_pairwise (assignments rounds scored)).filter
    fun members => decide (1 < members.card)
  exact ((List.perm_insertionSort _ _).pairwise_iff fun apart => apart.symm).mpr kept

theorem duplicatePools_nodup (rounds : List IdenticalGroups) (scored : Option (Finset Hotkey)) :
    (duplicatePools rounds scored).Nodup := by
  refine List.Pairwise.imp_of_mem ?_ (duplicatePools_pairwise rounds scored)
  intro first second member _ apart same
  subst same
  have empty : first = ∅ := disjoint_self.mp apart
  have several := (mem_duplicatePools.mp member).1
  rw [empty] at several
  exact absurd several (by simp)

/-- Windows with the same pools list them in the same order. -/
theorem duplicatePools_ext (same : ∀ pool, pool ∈ duplicatePools rounds scored ↔
    pool ∈ duplicatePools rounds' scored) :
    duplicatePools rounds scored = duplicatePools rounds' scored := by
  have total : Std.Total fun first second : Finset Hotkey => first.sort ≤ second.sort :=
    ⟨fun first second => le_total first.sort second.sort⟩
  have trans : IsTrans (Finset Hotkey) fun first second => first.sort ≤ second.sort :=
    ⟨fun _ _ _ left right => left.trans right⟩
  have perm := (List.perm_ext_iff_of_nodup (duplicatePools_nodup rounds scored)
    (duplicatePools_nodup rounds' scored)).mpr same
  refine List.Perm.eq_of_pairwise (fun first second _ _ below above => ?_)
    (List.pairwise_insertionSort _ _) (List.pairwise_insertionSort _ _) perm
  have sorted : first.sort = second.sort := le_antisymm below above
  rw [← first.sort_toFinset (· ≤ ·), sorted, Finset.sort_toFinset]

/-! ### Who shares a group -/

/-- Two hotkeys are offered a slot by one group of a round. -/
def Together (scored : Option (Finset Hotkey)) (groups : IdenticalGroups)
    (hotkey other : Hotkey) : Prop :=
  ∃ group ∈ groups, Offers scored hotkey group ∧ Offers scored other group

theorem groupIndex_isSome :
    (groupIndex scored groups hotkey).isSome ↔ Together scored groups hotkey hotkey := by
  rw [groupIndex, List.findIdx?_isSome, List.any_eq_true]
  simp [Together]

theorem mem_countedMembers : hotkey ∈ countedMembers scored pool ↔
    hotkey ∈ pool ∧ ∀ listed ∈ scored, hotkey ∈ listed := by
  cases scored with
  | none => simp [countedMembers]
  | some listed => simp [countedMembers]

theorem groupIndex_eq_some {index : ℕ} (found : groupIndex scored groups hotkey = some index) :
    ∃ group, groups[index]? = some group ∧ Offers scored hotkey group := by
  rw [groupIndex, List.findIdx?_eq_some_iff_getElem] at found
  obtain ⟨inside, offered, -⟩ := found
  exact ⟨groups[index], List.getElem?_eq_getElem inside, by simpa using offered⟩

/-- A hotkey is in one group only of a round of disjoint groups. -/
theorem index_unique (disjoint : groups.Pairwise Disjoint) {index index' : ℕ}
    {group group' : Finset Hotkey} (located : groups[index]? = some group)
    (located' : groups[index']? = some group') (inside : hotkey ∈ group)
    (inside' : hotkey ∈ group') : index = index' := by
  obtain ⟨bound, rfl⟩ := List.getElem?_eq_some_iff.mp located
  obtain ⟨bound', rfl⟩ := List.getElem?_eq_some_iff.mp located'
  by_contra apart
  rcases lt_or_gt_of_ne apart with before | after
  · exact Finset.disjoint_left.mp
      (List.pairwise_iff_getElem.mp disjoint index index' bound bound' before) inside inside'
  · exact Finset.disjoint_left.mp
      (List.pairwise_iff_getElem.mp disjoint index' index bound' bound after) inside' inside

/-- A hotkey that a group counts is found at that group. -/
theorem groupIndex_eq_of_offers (disjoint : groups.Pairwise Disjoint) {place : ℕ}
    (located : groups[place]? = some pool) (offered : Offers scored hotkey pool) :
    groupIndex scored groups hotkey = some place := by
  have found := groupIndex_isSome.mpr ⟨pool, List.mem_of_getElem? located, offered, offered⟩
  obtain ⟨index, found⟩ := Option.isSome_iff_exists.mp found
  obtain ⟨group, located', offered'⟩ := groupIndex_eq_some found
  rw [found, index_unique disjoint located' located (mem_countedMembers.mp offered'.2).1
    (mem_countedMembers.mp offered.2).1]

/-- In a round of disjoint groups two hotkeys have one index when one group counts both,
or when none counts either. -/
theorem groupIndex_eq_iff (disjoint : groups.Pairwise Disjoint) :
    groupIndex scored groups hotkey = groupIndex scored groups other ↔
      Together scored groups hotkey other ∨
        ¬Together scored groups hotkey hotkey ∧ ¬Together scored groups other other := by
  constructor
  · intro same
    cases found : groupIndex scored groups hotkey with
    | some index =>
      obtain ⟨group, located, offered⟩ := groupIndex_eq_some found
      obtain ⟨group', located', offered'⟩ := groupIndex_eq_some (same ▸ found)
      obtain rfl := Option.some.inj (located.symm.trans located')
      exact Or.inl ⟨group, List.mem_of_getElem? located, offered, offered'⟩
    | none =>
      rw [← groupIndex_isSome, ← groupIndex_isSome, ← same, found]
      exact Or.inr ⟨by simp, by simp⟩
  · rintro (⟨group, member, offered, offered'⟩ | ⟨alone, alone'⟩)
    · obtain ⟨place, located⟩ := List.mem_iff_getElem?.mp member
      rw [groupIndex_eq_of_offers disjoint located offered,
        groupIndex_eq_of_offers disjoint located offered']
    · rw [← groupIndex_isSome, Option.not_isSome_iff_eq_none] at alone alone'
      rw [alone, alone']

/-- Rounds that pair the same hotkeys. -/
def SamePairs (scored : Option (Finset Hotkey)) (groups groups' : IdenticalGroups) : Prop :=
  groups.Pairwise Disjoint ∧ groups'.Pairwise Disjoint ∧
    ∀ hotkey other, Together scored groups hotkey other ↔ Together scored groups' hotkey other

theorem sameClasses_of_samePairs (same : SamePairs scored groups groups') :
    SameClasses (groupIndex scored groups) (groupIndex scored groups') where
  isSome_iff := fun hotkey => by
    rw [groupIndex_isSome, groupIndex_isSome, same.2.2]
  eq_iff := fun hotkey other => by
    rw [groupIndex_eq_iff same.1, groupIndex_eq_iff same.2.1, same.2.2, same.2.2, same.2.2]

/-- The pools are decided by which hotkeys each round pairs. -/
theorem duplicatePools_congr (same : List.Forall₂ (SamePairs scored) rounds rounds') :
    duplicatePools rounds scored = duplicatePools rounds' scored := by
  have classes : List.Forall₂ SameClasses (rounds.map (groupIndex scored))
      (rounds'.map (groupIndex scored)) := by
    rw [List.forall₂_map_left_iff, List.forall₂_map_right_iff]
    exact same.imp fun _ _ => sameClasses_of_samePairs
  have slots := assign_congr classes
  -- A pool is recognized by any one of its members.
  have members : ∀ {window : List IdenticalGroups} {pool : Finset Hotkey},
      (∃ slot, ∀ hotkey, hotkey ∈ pool ↔ slotOf window scored hotkey = some slot) → pool.Nonempty →
      ∃ first, (slotOf window scored first).isSome ∧ ∀ hotkey, hotkey ∈ pool ↔
        slotOf window scored first = slotOf window scored hotkey := by
    rintro window pool ⟨slot, spec⟩ ⟨first, inside⟩
    have own := (spec first).mp inside
    refine ⟨first, by rw [own]; rfl, fun hotkey => ?_⟩
    rw [spec, own, eq_comm]
  have transfer : ∀ {window : List IdenticalGroups} {pool : Finset Hotkey} {first : Hotkey},
      (slotOf window scored first).isSome → (∀ hotkey, hotkey ∈ pool ↔
        slotOf window scored first = slotOf window scored hotkey) →
      ∃ slot, ∀ hotkey, hotkey ∈ pool ↔ slotOf window scored hotkey = some slot := by
    intro window pool first assigned spec
    obtain ⟨slot, own⟩ := Option.isSome_iff_exists.mp assigned
    refine ⟨slot, fun hotkey => ?_⟩
    rw [spec, own, eq_comm]
  refine duplicatePools_ext fun pool => ?_
  rw [mem_duplicatePools, mem_duplicatePools]
  refine and_congr_right fun several => ?_
  have filled : pool.Nonempty := Finset.card_pos.mp (by omega)
  constructor
  · intro spec
    obtain ⟨first, assigned, alike⟩ := members spec filled
    refine transfer ((slots first first).1.mp assigned) fun hotkey => ?_
    rw [alike]
    exact (slots first hotkey).2
  · intro spec
    obtain ⟨first, assigned, alike⟩ := members spec filled
    refine transfer ((slots first first).1.mpr assigned) fun hotkey => ?_
    rw [alike]
    exact (slots first hotkey).2.symm

end Pools

/-! ### Groups of one round's submissions -/

section Submissions

variable {scored : Option (Finset Hotkey)} {accepted accepted' : Dict Hotkey (Dict Coordinate ℤ)}
  {hotkey other : Hotkey}

/-- The values a hotkey submitted, as a set; none for an empty submission. -/
def forecastOf (accepted : Dict Hotkey (Dict Coordinate ℤ)) (hotkey : Hotkey) :
    Option (Finset (Coordinate × ℤ)) :=
  (accepted.get? hotkey).bind fun values =>
    if values.entries = [] then none else some values.entries.toFinset

/-- The entries the groups are collected from. -/
theorem mem_forecasts {forecast : Finset (Coordinate × ℤ)} :
    (forecast, hotkey) ∈ (accepted.entries.filterMap fun entry =>
      if entry.2.entries = [] then none else some (entry.2.entries.toFinset, entry.1)) ↔
        forecastOf accepted hotkey = some forecast := by
  rw [List.mem_filterMap, forecastOf, Option.bind_eq_some_iff]
  constructor
  · rintro ⟨⟨key, values⟩, member, made⟩
    simp only at made
    split_ifs at made with empty
    obtain ⟨rfl, rfl⟩ := Prod.mk.inj (Option.some.inj made)
    exact ⟨values, Dict.get?_eq_some_iff.mpr member, if_neg empty⟩
  · rintro ⟨values, found, made⟩
    split_ifs at made with empty
    obtain rfl := Option.some.inj made
    exact ⟨(hotkey, values), Dict.get?_eq_some_iff.mp found, if_neg empty⟩

/-- A group is the two or more hotkeys with one forecast. -/
theorem mem_identicalForecastGroups {group : Finset Hotkey} :
    group ∈ identicalForecastGroups accepted ↔
      1 < group.card ∧ ∃ forecast, ∀ hotkey, hotkey ∈ group ↔
        forecastOf accepted hotkey = some forecast := by
  rw [identicalForecastGroups, List.mem_filter, decide_eq_true_eq, and_comm]
  refine and_congr_right fun several => ?_
  rw [Dict.values_eq_map_keys _ [], List.map_map, List.mem_map]
  -- what is collected under a forecast are the hotkeys that gave it
  have collected : ∀ forecast hotkey, hotkey ∈ ((Dict.collect (accepted.entries.filterMap
      fun entry => if entry.2.entries = [] then none
        else some (entry.2.entries.toFinset, entry.1))).getD forecast []).toFinset ↔
      forecastOf accepted hotkey = some forecast := by
    intro forecast hotkey
    rw [List.mem_toFinset, Dict.getD_collect, ← mem_forecasts, List.mem_map]
    constructor
    · rintro ⟨entry, kept, rfl⟩
      obtain ⟨listed, same⟩ := List.mem_filter.mp kept
      obtain rfl : entry.1 = forecast := by simpa using same
      exact listed
    · intro listed
      exact ⟨(forecast, hotkey), List.mem_filter.mpr ⟨listed, by simp⟩, rfl⟩
  constructor
  · rintro ⟨forecast, -, rfl⟩
    exact ⟨forecast, collected forecast⟩
  · rintro ⟨forecast, spec⟩
    refine ⟨forecast, ?_, ?_⟩
    · obtain ⟨hotkey, member⟩ : group.Nonempty := Finset.card_pos.mp (by omega)
      rw [Dict.mem_keys_collect, List.mem_map]
      exact ⟨(forecast, hotkey), mem_forecasts.mpr ((spec hotkey).mp member), rfl⟩
    · ext hotkey
      rw [Function.comp_apply, collected, spec]

/-- The groups of one round are disjoint. -/
theorem identicalForecastGroups_pairwise (accepted : Dict Hotkey (Dict Coordinate ℤ)) :
    (identicalForecastGroups accepted).Pairwise Disjoint := by
  rw [identicalForecastGroups]
  apply List.Pairwise.filter
  rw [Dict.values_eq_map_keys _ [], List.map_map, List.pairwise_map]
  refine (Dict.keys_nodup _).imp fun {forecast forecast'} apart => ?_
  rw [Finset.disjoint_left]
  intro hotkey first second
  simp only [Function.comp_apply, List.mem_toFinset, Dict.getD_collect, List.mem_map,
    List.mem_filter, decide_eq_true_eq] at first second
  obtain ⟨⟨own, key⟩, ⟨listed, rfl⟩, rfl⟩ := first
  obtain ⟨⟨own', key'⟩, ⟨listed', rfl⟩, same⟩ := second
  simp only at same apart
  subst same
  have here := mem_forecasts.mp listed
  have there := mem_forecasts.mp listed'
  exact apart (Option.some.inj (here.symm.trans there))

/-- The group of a forecast. -/
def groupOf (accepted : Dict Hotkey (Dict Coordinate ℤ)) (forecast : Finset (Coordinate × ℤ)) :
    Finset Hotkey :=
  accepted.keys.toFinset.filter fun hotkey => forecastOf accepted hotkey = some forecast

theorem mem_groupOf {forecast : Finset (Coordinate × ℤ)} :
    hotkey ∈ groupOf accepted forecast ↔ forecastOf accepted hotkey = some forecast := by
  rw [groupOf, Finset.mem_filter, and_iff_right_iff_imp, List.mem_toFinset, Dict.mem_keys_iff]
  intro found
  obtain ⟨values, submitted, -⟩ := Option.bind_eq_some_iff.mp found
  exact ⟨values, submitted⟩

/-- Two submissions of the same values by every hotkey that counts. -/
def Agree (scored : Option (Finset Hotkey)) (accepted accepted' : Dict Hotkey (Dict Coordinate ℤ)) :
    Prop :=
  ∀ hotkey, (∀ listed ∈ scored, hotkey ∈ listed) →
    forecastOf accepted hotkey = forecastOf accepted' hotkey

/-- What the hotkeys that do not count submitted pairs no one. -/
theorem together_of_agree (agree : Agree scored accepted accepted')
    (together : Together scored (identicalForecastGroups accepted) hotkey other) :
    Together scored (identicalForecastGroups accepted') hotkey other := by
  obtain ⟨group, listed, offered, offered'⟩ := together
  obtain ⟨-, forecast, spec⟩ := mem_identicalForecastGroups.mp listed
  have counted : countedMembers scored group = countedMembers scored (groupOf accepted' forecast) := by
    ext key
    rw [mem_countedMembers, mem_countedMembers, spec, mem_groupOf]
    refine and_congr_left fun counts => ?_
    rw [agree key counts]
  have several : 1 < (groupOf accepted' forecast).card := by
    refine offered.1.trans_le ?_
    rw [counted]
    refine Finset.card_le_card fun key member => ?_
    exact (mem_countedMembers.mp member).1
  refine ⟨groupOf accepted' forecast, ?_, ?_, ?_⟩
  · exact mem_identicalForecastGroups.mpr ⟨several, forecast, fun _ => mem_groupOf⟩
  · rwa [Offers, ← counted]
  · rwa [Offers, ← counted]

/-- Submissions that agree for every hotkey that counts pair the same hotkeys. -/
theorem samePairs_of_agree (agree : Agree scored accepted accepted') :
    SamePairs scored (identicalForecastGroups accepted) (identicalForecastGroups accepted') := by
  refine ⟨identicalForecastGroups_pairwise accepted, identicalForecastGroups_pairwise accepted',
    fun hotkey other => ⟨together_of_agree agree, together_of_agree ?_⟩⟩
  intro key counts
  exact (agree key counts).symm

end Submissions

end Endure.Scoring
