import Mathlib

/-!
# Rounding with a fixed total

Rounding half up moves one amount by at most one half. A family that must round
as one entry rounds its members down and hands the spare units, as many as the
remainders round half up to, to the largest remainders. Its total then moves by
at most one half, and no member leaves the integers next to its own amount.
-/

namespace Library.Rounding

variable {ι : Type*}

/-- Round to the nearest integer, halves away from zero. -/
def roundHalfUp (value : ℚ) : ℤ :=
  if 0 ≤ value then ⌊value + 1 / 2⌋ else ⌈value - 1 / 2⌉

theorem roundHalfUp_of_nonneg {value : ℚ} (nonneg : 0 ≤ value) :
    roundHalfUp value = ⌊value + 1 / 2⌋ :=
  if_pos nonneg

@[simp] theorem roundHalfUp_natCast (n : ℕ) : roundHalfUp n = n := by
  rw [roundHalfUp_of_nonneg (Nat.cast_nonneg n), Int.floor_eq_iff]
  constructor <;> push_cast <;> linarith

theorem abs_roundHalfUp_sub_le {value : ℚ} (nonneg : 0 ≤ value) :
    |(roundHalfUp value : ℚ) - value| ≤ 1 / 2 := by
  rw [roundHalfUp_of_nonneg nonneg, abs_le]
  have lower := Int.lt_floor_add_one (value + 1 / 2)
  have upper := Int.floor_le (value + 1 / 2)
  constructor <;> linarith

theorem roundHalfUp_nonneg {value : ℚ} (nonneg : 0 ≤ value) : 0 ≤ roundHalfUp value := by
  rw [roundHalfUp_of_nonneg nonneg, Int.le_floor]
  push_cast
  linarith

/-- An integer that bounds an amount bounds its rounding. -/
theorem roundHalfUp_le {value : ℚ} (nonneg : 0 ≤ value) {bound : ℤ} (below : value ≤ bound) :
    roundHalfUp value ≤ bound := by
  rw [roundHalfUp_of_nonneg nonneg, ← Int.lt_add_one_iff, Int.floor_lt]
  push_cast
  linarith

/-- An integer lies next to an amount: between its floor and its ceiling. -/
def Adjacent (amount : ℚ) (unit : ℤ) : Prop := ⌊amount⌋ ≤ unit ∧ unit ≤ ⌈amount⌉

theorem adjacent_roundHalfUp {value : ℚ} (nonneg : 0 ≤ value) :
    Adjacent value (roundHalfUp value) := by
  refine ⟨?_, roundHalfUp_le nonneg (Int.le_ceil value)⟩
  rw [roundHalfUp_of_nonneg nonneg]
  exact Int.floor_le_floor (by linarith)

/-- A whole amount has no other integer next to it. -/
theorem Adjacent.eq_of_int {unit whole : ℤ} (next : Adjacent (whole : ℚ) unit) : unit = whole := by
  obtain ⟨lower, upper⟩ := next
  rw [Int.floor_intCast] at lower
  rw [Int.ceil_intCast] at upper
  omega

theorem Adjacent.le {amount : ℚ} {unit bound : ℤ} (next : Adjacent amount unit)
    (below : amount ≤ bound) : unit ≤ bound :=
  next.2.trans (Int.ceil_le.mpr below)

theorem Adjacent.ge {amount : ℚ} {unit bound : ℤ} (next : Adjacent amount unit)
    (above : bound ≤ amount) : bound ≤ unit :=
  (Int.le_floor.mpr above).trans next.1

/-! ### Largest remainders -/

/-- Give one unit more than the base to each of the first `spare` entries. -/
def shareOut (base : ι → ℤ) (ranked : List ι) (spare : ℤ) : List (ι × ℤ) :=
  ranked.zipIdx.map fun entry =>
    (entry.1, base entry.1 + if (entry.2 : ℤ) < spare then 1 else 0)

@[simp] theorem map_fst_shareOut (base : ι → ℤ) (ranked : List ι) (spare : ℤ) :
    (shareOut base ranked spare).map Prod.fst = ranked := by
  rw [shareOut, List.map_map]
  exact List.zipIdx_map_fst 0 ranked

/-- The entries add up to the bases and the spare units. -/
theorem sum_shareOut (base : ι → ℤ) (ranked : List ι) {spare : ℤ} (nonneg : 0 ≤ spare)
    (fits : spare ≤ ranked.length) :
    ((shareOut base ranked spare).map Prod.snd).sum = (ranked.map base).sum + spare := by
  -- The entries from rank `start` on share what the earlier ones have left.
  have general : ∀ (rest : List ι) (start : ℕ), (start : ℤ) ≤ spare → spare ≤ start + rest.length →
      ((rest.zipIdx start).map fun entry => base entry.1 +
        if (entry.2 : ℤ) < spare then 1 else 0).sum = (rest.map base).sum + (spare - start) := by
    intro rest
    induction rest with
    | nil => intro start lower upper; simp at upper ⊢; omega
    | cons entry rest ih =>
      intro start lower upper
      rw [List.length_cons] at upper
      rw [List.zipIdx_cons, List.map_cons, List.sum_cons, List.map_cons, List.sum_cons]
      by_cases raised : (start : ℤ) < spare
      · rw [if_pos raised, ih (start + 1) (by push_cast; omega) (by push_cast at upper ⊢; omega)]
        push_cast
        ring
      · have spent : (rest.zipIdx (start + 1)).map (fun entry => base entry.1 +
            if (entry.2 : ℤ) < spare then 1 else 0) = rest.map base := by
          rw [← List.zipIdx_map_fst (start + 1) rest, List.map_map, List.zipIdx_map_fst]
          refine List.map_congr_left fun later member => ?_
          have after := (List.le_snd_of_mem_zipIdx member)
          rw [Function.comp_apply, if_neg (by omega), add_zero]
        have none_left : spare = start := by omega
        rw [if_neg raised, spent, none_left, sub_self, add_zero, add_zero]
  rw [shareOut, List.map_map]
  exact (general ranked 0 (by simpa using nonneg) (by simpa using fits)).trans (by simp)

section Remainders

variable {amount : ι → ℚ}

private theorem sum_fract_le_countP (amount : ι → ℚ) (members : List ι) :
    (members.map fun i => Int.fract (amount i)).sum ≤
      (members.countP fun i => 0 < Int.fract (amount i) : ℕ) := by
  induction members with
  | nil => simp
  | cons i rest ih =>
    rw [List.map_cons, List.sum_cons, List.countP_cons]
    by_cases positive : 0 < Int.fract (amount i)
    · have := (Int.fract_lt_one (amount i)).le
      rw [if_pos (by simpa using positive)]
      push_cast
      linarith
    · have := not_lt.mp positive
      rw [if_neg (by simpa using positive), add_zero]
      linarith

/-- There are never more spare units than entries with a remainder. -/
theorem roundHalfUp_fract_le_countP (amount : ι → ℚ) (members : List ι) :
    roundHalfUp (members.map fun i => Int.fract (amount i)).sum ≤
      (members.countP fun i => 0 < Int.fract (amount i) : ℕ) := by
  refine roundHalfUp_le (List.sum_nonneg fun part member => ?_) ?_
  · obtain ⟨i, -, rfl⟩ := List.mem_map.mp member
    exact Int.fract_nonneg _
  · exact_mod_cast sum_fract_le_countP amount members

/-- In descending order of remainders an entry without one comes after every
entry with one. -/
private theorem countP_le_of_whole {ranked : List ι}
    (sorted : ranked.Pairwise fun i j => Int.fract (amount j) ≤ Int.fract (amount i))
    {i : ι} {rank : ℕ} (located : ranked[rank]? = some i) (whole : Int.fract (amount i) = 0) :
    (ranked.countP fun i => 0 < Int.fract (amount i)) ≤ rank := by
  induction ranked generalizing rank with
  | nil => simp at located
  | cons first rest ih =>
    obtain ⟨below, sorted⟩ := List.pairwise_cons.mp sorted
    cases rank with
    | zero =>
      obtain rfl : first = i := by simpa using located
      rw [Nat.le_zero, List.countP_eq_zero]
      intro j member
      rw [decide_eq_true_eq, not_lt]
      cases List.mem_cons.mp member with
      | inl same => exact same ▸ whole.le
      | inr later => exact (below j later).trans whole.le
    | succ rank =>
      have rest_le := @ih sorted rank (by simpa using located)
      rw [List.countP_cons]
      split_ifs <;> omega

/-- What a group rounds to, its spare units going to the largest remainders. -/
structure GroupRounded (amount : ι → ℚ) (members : List ι) (units : List (ι × ℤ)) : Prop where
  keys : (units.map Prod.fst).Perm members
  adjacent : ∀ entry ∈ units, Adjacent (amount entry.1) entry.2
  total : |((units.map Prod.snd).sum : ℚ) - (members.map amount).sum| ≤ 1 / 2

/-- Handing the spare units to the largest remainders rounds a group as one entry. -/
theorem groupRounded_shareOut (amount : ι → ℚ) {members ranked : List ι} (perm : ranked.Perm members)
    (sorted : ranked.Pairwise fun i j => Int.fract (amount j) ≤ Int.fract (amount i)) :
    GroupRounded amount members (shareOut (fun i => ⌊amount i⌋) ranked
      (roundHalfUp (members.map fun i => Int.fract (amount i)).sum)) := by
  set spare := roundHalfUp (members.map fun i => Int.fract (amount i)).sum with hspare
  have remaindersNonneg : 0 ≤ (members.map fun i => Int.fract (amount i)).sum :=
    List.sum_nonneg fun part member => by
      obtain ⟨i, -, rfl⟩ := List.mem_map.mp member
      exact Int.fract_nonneg _
  have few : spare ≤ (ranked.countP fun i => 0 < Int.fract (amount i) : ℕ) := by
    rw [perm.countP_eq]
    exact roundHalfUp_fract_le_countP amount members
  refine ⟨?_, ?_, ?_⟩
  · rwa [map_fst_shareOut]
  -- a member gets its floor, or one more where it has a remainder to round up
  · intro entry member
    obtain ⟨⟨i, rank⟩, located, rfl⟩ := List.mem_map.mp member
    have place : ranked[rank]? = some i := by simpa using List.mem_zipIdx_iff_getElem?.mp located
    by_cases raised : (rank : ℤ) < spare
    · have fractional : Int.fract (amount i) ≠ 0 := fun whole => by
        have := countP_le_of_whole sorted place whole
        omega
      have up : ⌈amount i⌉ = ⌊amount i⌋ + 1 := by
        rw [Int.ceil_eq_iff]
        have split := Int.floor_add_fract (amount i)
        have positive := lt_of_le_of_ne (Int.fract_nonneg (amount i)) (Ne.symm fractional)
        have below := Int.fract_lt_one (amount i)
        push_cast
        constructor <;> linarith
      rw [Adjacent, if_pos raised]
      exact ⟨Int.le_add_one le_rfl, up.ge⟩
    · rw [Adjacent, if_neg raised, add_zero]
      exact ⟨le_rfl, Int.floor_le_ceil _⟩
  · have count : (ranked.countP fun i => 0 < Int.fract (amount i)) ≤ ranked.length :=
      List.countP_le_length
    rw [sum_shareOut _ _ (roundHalfUp_nonneg remaindersNonneg) (by omega)]
    -- the floors and the spare units add up to the rounded total
    have floors : (ranked.map fun i => ⌊amount i⌋).sum = (members.map fun i => ⌊amount i⌋).sum :=
      (perm.map _).sum_eq
    have split : (members.map amount).sum = ((members.map fun i => ⌊amount i⌋).sum : ℤ) +
        (members.map fun i => Int.fract (amount i)).sum := by
      clear_value spare
      clear perm sorted few count floors hspare remaindersNonneg
      induction members with
      | nil => simp
      | cons i rest ih =>
        simp only [List.map_cons, List.sum_cons, ih]
        push_cast
        linarith [Int.floor_add_fract (amount i)]
    rw [floors, split]
    push_cast
    have error := abs_roundHalfUp_sub_le remaindersNonneg
    rw [← hspare] at error
    rwa [add_sub_add_left_eq_sub]

/-- Units that share out a group's rounded total: every entry gets its floor or one
more, whole amounts no more, and larger remainders come first. -/
structure Apportioned (amount : ι → ℚ) (members : List ι) (unit : ι → ℤ) : Prop where
  total : (members.map unit).sum = roundHalfUp (members.map amount).sum
  floor_or_succ : ∀ i ∈ members, unit i = ⌊amount i⌋ ∨ unit i = ⌊amount i⌋ + 1
  whole : ∀ i ∈ members, Int.fract (amount i) = 0 → unit i = ⌊amount i⌋
  largest : ∀ i ∈ members, ∀ j ∈ members, Int.fract (amount i) < Int.fract (amount j) →
    unit i = ⌊amount i⌋ + 1 → unit j = ⌊amount j⌋ + 1

/-- Only the members' units matter. -/
theorem Apportioned.congr {members : List ι} {unit unit' : ι → ℤ}
    (apportioned : Apportioned amount members unit) (same : ∀ i ∈ members, unit' i = unit i) :
    Apportioned amount members unit' where
  total := by
    rw [← apportioned.total]
    exact congrArg List.sum (List.map_congr_left same)
  floor_or_succ := fun i member => by
    rw [same i member]
    exact apportioned.floor_or_succ i member
  whole := fun i member => by
    rw [same i member]
    exact apportioned.whole i member
  largest := fun i first j second => by
    rw [same i first, same j second]
    exact apportioned.largest i first j second

/-- The units of listed positions are the units of what is listed there. -/
theorem Apportioned.of_map {κ : Type*} {place : κ → ι} {members : List κ} {unit : ι → ℤ}
    (apportioned : Apportioned amount (members.map place) unit) :
    Apportioned (fun key => amount (place key)) members fun key => unit (place key) where
  total := by
    have total := apportioned.total
    rwa [List.map_map, List.map_map] at total
  floor_or_succ := fun key member =>
    apportioned.floor_or_succ _ (List.mem_map_of_mem member)
  whole := fun key member => apportioned.whole _ (List.mem_map_of_mem member)
  largest := fun key first key' second =>
    apportioned.largest _ (List.mem_map_of_mem first) _ (List.mem_map_of_mem second)

/-- A sum is its floors and its remainders. -/
theorem sum_floor_add_sum_fract (amount : ι → ℚ) (members : List ι) :
    (((members.map fun i => ⌊amount i⌋).sum : ℤ) : ℚ) +
      (members.map fun i => Int.fract (amount i)).sum = (members.map amount).sum := by
  induction members with
  | nil => simp
  | cons i rest ih =>
    simp only [List.map_cons, List.sum_cons, ← ih]
    push_cast
    linarith [Int.floor_add_fract (amount i)]

/-- A whole part passes through the rounding. -/
theorem roundHalfUp_intCast_add (whole : ℤ) {value : ℚ} (nonneg : 0 ≤ value)
    (positive : 0 ≤ whole) : roundHalfUp (whole + value) = whole + roundHalfUp value := by
  have sum : (0 : ℚ) ≤ whole + value := add_nonneg (by exact_mod_cast positive) nonneg
  rw [roundHalfUp_of_nonneg sum, roundHalfUp_of_nonneg nonneg, add_assoc, Int.floor_intCast_add]

/-- Handing the spare units to the largest remainders shares out the rounded total. -/
theorem apportioned_shareOut {members ranked : List ι} {unit : ι → ℤ}
    (nonneg : ∀ i ∈ members, 0 ≤ amount i) (perm : ranked.Perm members)
    (sorted : ranked.Pairwise fun i j => Int.fract (amount j) ≤ Int.fract (amount i))
    (written : ∀ entry ∈ shareOut (fun i => ⌊amount i⌋) ranked
      (roundHalfUp (members.map fun i => Int.fract (amount i)).sum), unit entry.1 = entry.2) :
    Apportioned amount members unit := by
  set remainder := (members.map fun i => Int.fract (amount i)).sum with hremainder
  set spare := roundHalfUp remainder with hspare
  have remainderNonneg : 0 ≤ remainder := List.sum_nonneg fun part member => by
    obtain ⟨i, -, rfl⟩ := List.mem_map.mp member
    exact Int.fract_nonneg _
  have few : spare ≤ (ranked.countP fun i => 0 < Int.fract (amount i) : ℕ) := by
    rw [perm.countP_eq]
    exact roundHalfUp_fract_le_countP amount members
  -- Every member has a rank, and its unit is decided by it.
  have ranks : ∀ i ∈ members, ∃ rank : ℕ, ranked[rank]? = some i ∧
      unit i = ⌊amount i⌋ + if (rank : ℤ) < spare then 1 else 0 := by
    intro i member
    obtain ⟨rank, located⟩ := List.mem_iff_getElem?.mp (perm.mem_iff.mpr member)
    refine ⟨rank, located, ?_⟩
    exact written (i, _) (List.mem_map.mpr ⟨(i, rank), List.mem_zipIdx_iff_getElem?.mpr located, rfl⟩)
  refine ⟨?_, ?_, ?_, ?_⟩
  · have counted : (ranked.countP fun i => 0 < Int.fract (amount i)) ≤ ranked.length :=
      List.countP_le_length
    have same : (members.map unit).sum =
        ((shareOut (fun i => ⌊amount i⌋) ranked spare).map Prod.snd).sum := by
      rw [← (perm.map unit).sum_eq, ← map_fst_shareOut (fun i => ⌊amount i⌋) ranked spare,
        List.map_map, map_fst_shareOut]
      exact congrArg List.sum (List.map_congr_left fun entry member => written entry member)
    have floorsNonneg : 0 ≤ (members.map fun i => ⌊amount i⌋).sum :=
      List.sum_nonneg fun part member => by
        obtain ⟨i, inside, rfl⟩ := List.mem_map.mp member
        exact Int.floor_nonneg.mpr (nonneg i inside)
    rw [same, sum_shareOut _ _ (roundHalfUp_nonneg remainderNonneg) (by omega),
      (perm.map fun i => ⌊amount i⌋).sum_eq, ← sum_floor_add_sum_fract amount members,
      roundHalfUp_intCast_add _ remainderNonneg floorsNonneg]
  · intro i member
    obtain ⟨rank, -, own⟩ := ranks i member
    rw [own]
    split_ifs
    · exact Or.inr rfl
    · exact Or.inl (add_zero _)
  · intro i member whole
    obtain ⟨rank, located, own⟩ := ranks i member
    have behind := countP_le_of_whole sorted located whole
    rw [own, if_neg (by omega), add_zero]
  · intro i first j second less raised
    obtain ⟨rank, located, own⟩ := ranks i first
    obtain ⟨rank', located', own'⟩ := ranks j second
    have within : (rank : ℤ) < spare := by
      by_contra beyond
      rw [own, if_neg beyond] at raised
      omega
    have earlier : rank' < rank := by
      by_contra later
      obtain ⟨inside, rfl⟩ := List.getElem?_eq_some_iff.mp located
      obtain ⟨inside', rfl⟩ := List.getElem?_eq_some_iff.mp located'
      rcases (not_lt.mp later).eq_or_lt with same | before
      · subst same
        exact lt_irrefl _ less
      · exact absurd (List.pairwise_iff_getElem.mp sorted rank rank' inside inside' before)
          (not_le.mpr less)
    rw [own', if_pos (by omega)]

end Remainders

/-! ### Several groups -/

section Groups

variable [DecidableEq ι] {amount : ι → ℚ} {unit unit' : ι → ℤ} {groups : List (List ι)}
  {all : Finset ι} {members : List ι} {units : List (ι × ℤ)}

/-- A rounding that leaves no entry's neighbouring integers and moves the total
of any set that splits no group by at most one half for each of its entries. -/
structure Balanced (amount : ι → ℚ) (unit : ι → ℤ) (groups : List (List ι)) (all : Finset ι) :
    Prop where
  adjacent : ∀ i ∈ all, Adjacent (amount i) (unit i)
  total : ∀ chosen ⊆ all,
    (∀ group ∈ groups, group.toFinset ⊆ chosen ∨ Disjoint group.toFinset chosen) →
      |∑ i ∈ chosen, ((unit i : ℚ) - amount i)| ≤ chosen.card / 2

/-- Rounding every entry half up on its own is balanced. -/
theorem balanced_roundHalfUp (nonneg : ∀ i ∈ all, 0 ≤ amount i)
    (rounded : ∀ i ∈ all, unit i = roundHalfUp (amount i)) : Balanced amount unit [] all where
  adjacent := fun i member => rounded i member ▸ adjacent_roundHalfUp (nonneg i member)
  total := fun chosen inside _ => by
    calc |∑ i ∈ chosen, ((unit i : ℚ) - amount i)|
        ≤ ∑ i ∈ chosen, |(unit i : ℚ) - amount i| := Finset.abs_sum_le_sum_abs _ _
      _ ≤ ∑ i ∈ chosen, (1 / 2 : ℚ) := Finset.sum_le_sum fun i member => by
          rw [rounded i (inside member)]
          exact abs_roundHalfUp_sub_le (nonneg i (inside member))
      _ = chosen.card / 2 := by
          rw [Finset.sum_const, nsmul_eq_mul]
          ring

/-- Only which entries form a group matters, not the order of the groups. -/
theorem Balanced.of_subset {groups' : List (List ι)} (balanced : Balanced amount unit groups all)
    (subset : groups ⊆ groups') : Balanced amount unit groups' all where
  adjacent := balanced.adjacent
  total := fun chosen inside whole =>
    balanced.total chosen inside fun group listed => whole group (subset listed)

/-- A group's rounded entries add up to its rounded total. -/
private theorem GroupRounded.sum_sub (rounded : GroupRounded amount members units)
    (nodup : members.Nodup) (written : ∀ entry ∈ units, unit' entry.1 = entry.2) :
    ∑ i ∈ members.toFinset, ((unit' i : ℚ) - amount i) =
      ((units.map Prod.snd).sum : ℚ) - (members.map amount).sum := by
  have same : units.map Prod.snd = (units.map Prod.fst).map unit' := by
    rw [List.map_map]
    exact List.map_congr_left fun entry member => (written entry member).symm
  rw [List.sum_toFinset _ nodup, same, ((rounded.keys).map unit').sum_eq]
  clear rounded nodup same
  induction members with
  | nil => simp
  | cons i rest ih =>
    simp only [List.map_cons, List.sum_cons, ih]
    push_cast
    ring

/-- Rounding one more group as one entry keeps the rounding balanced. -/
theorem Balanced.round_group (balanced : Balanced amount unit groups all)
    (rounded : GroupRounded amount members units) (nodup : members.Nodup)
    (apart : ∀ group ∈ groups, group.Disjoint members)
    (written : ∀ entry ∈ units, unit' entry.1 = entry.2)
    (others : ∀ i ∉ members, unit' i = unit i) :
    Balanced amount unit' (members :: groups) all where
  adjacent := fun i member => by
    by_cases grouped : i ∈ members
    · obtain ⟨entry, listed, rfl⟩ := List.mem_map.mp (rounded.keys.mem_iff.mpr grouped)
      rw [written entry listed]
      exact rounded.adjacent entry listed
    · rw [others i grouped]
      exact balanced.adjacent i member
  total := fun chosen inside whole => by
    have earlier : ∀ group ∈ groups, group.toFinset ⊆ chosen ∨ Disjoint group.toFinset chosen :=
      fun group listed => whole group (List.mem_cons_of_mem _ listed)
    cases whole members List.mem_cons_self with
    | inr outside =>
      -- The chosen entries keep their units.
      have kept : ∑ i ∈ chosen, ((unit' i : ℚ) - amount i) =
          ∑ i ∈ chosen, ((unit i : ℚ) - amount i) :=
        Finset.sum_congr rfl fun i member => by
          rw [others i fun grouped =>
            Finset.disjoint_left.mp outside (List.mem_toFinset.mpr grouped) member]
      rw [kept]
      exact balanced.total chosen inside earlier
    | inl contains =>
      have rest : |∑ i ∈ chosen \ members.toFinset, ((unit i : ℚ) - amount i)| ≤
          (chosen \ members.toFinset).card / 2 := by
        refine balanced.total _ (Finset.sdiff_subset.trans inside) fun group listed => ?_
        have separate : Disjoint group.toFinset members.toFinset := by
          rw [Finset.disjoint_left]
          exact fun i left right => apart group listed (List.mem_toFinset.mp left)
            (List.mem_toFinset.mp right)
        cases earlier group listed with
        | inl subset => exact Or.inl (Finset.subset_sdiff.mpr ⟨subset, separate⟩)
        | inr disjoint => exact Or.inr (disjoint.mono_right Finset.sdiff_subset)
      have own : |∑ i ∈ members.toFinset, ((unit' i : ℚ) - amount i)| ≤
          members.toFinset.card / 2 := by
        cases members with
        | nil => simp
        | cons i tail =>
          rw [rounded.sum_sub nodup written]
          have one : 1 ≤ (i :: tail).toFinset.card :=
            Finset.card_pos.mpr ⟨i, List.mem_toFinset.mpr List.mem_cons_self⟩
          have := rounded.total
          have counted : (1 : ℚ) ≤ (i :: tail).toFinset.card := by exact_mod_cast one
          linarith
      have kept : ∑ i ∈ chosen \ members.toFinset, ((unit' i : ℚ) - amount i) =
          ∑ i ∈ chosen \ members.toFinset, ((unit i : ℚ) - amount i) :=
        Finset.sum_congr rfl fun i member => by
          rw [others i fun grouped =>
            (Finset.mem_sdiff.mp member).2 (List.mem_toFinset.mpr grouped)]
      have cards : ((chosen \ members.toFinset).card : ℚ) + members.toFinset.card =
          chosen.card := by
        exact_mod_cast Finset.card_sdiff_add_card_eq_card contains
      rw [← Finset.sum_sdiff contains, kept]
      calc _ ≤ _ := abs_add_le _ _
        _ ≤ ((chosen \ members.toFinset).card / 2 : ℚ) + members.toFinset.card / 2 :=
          add_le_add rest own
        _ = chosen.card / 2 := by
          rw [← cards]
          ring

end Groups

end Library.Rounding
