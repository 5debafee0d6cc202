import Endure.Library.Checked
import Endure.Library.SortBy
import Endure.Storage.Rounds

/-!
# Target universes

The static whitelists of `endure/assessment/lending_universe.py` and
`endure/assessment/subnet_alpha_universe.py`: how a whitelist is stored with a round and how the
stored members are read back. The two modules differ in the words of their errors, in the whitelist
and in the cap.
-/

namespace Endure.Assessment

open Library Endure.Storage

/-- `int` and `str` convert numbers of at most this many digits. -/
def maxStrDigits : ℕ := 4300

/-- `str` of a non-negative number. -/
def strOf (value : ℕ) : Except String String :=
  if maxStrDigits < (Nat.toDigits 10 value).length then
    .error "Exceeds the limit (4300 digits) for integer string conversion"
  else .ok (Nat.repr value)

/-- The texts of the errors of one universe module. -/
structure UniverseTexts where
  duplicate : String
  tooMany : ℕ → ℕ → String

def lendingUniverseTexts : UniverseTexts where
  duplicate := "lending netuid whitelist must be unique"
  tooMany size cap := "lending universe has " ++ Nat.repr size ++ " targets > cap " ++ Nat.repr cap

def alphaRiskUniverseTexts : UniverseTexts where
  duplicate := "alpha risk netuid whitelist must be unique"
  tooMany size cap :=
    "alpha risk universe has " ++ Nat.repr size ++ " targets > cap " ++ Nat.repr cap

/-- Sorted, unique netuid members as a snapshot stores them. -/
def canonicalUniverseMembers (texts : UniverseTexts) (netuids : List ℕ) :
    Except String (List String) :=
  if ¬netuids.Nodup then .error texts.duplicate else (sortBy id netuids).mapM strOf

/-- Digest of the members as they are stored. -/
def universeSourceHash (sha256 : String → String) (members : List String) : String :=
  sha256 ("\n".intercalate members)

/-- A member is the ASCII form that `str` gives a netuid: no other digits and no leading zero. -/
def parseMember (member : String) : Option ℕ :=
  let netuid := Nat.ofDigitChars 10 member.toList 0
  -- `int` raises on more digits, which is no member either
  if maxStrDigits < member.toList.length then none
  else if member.toList.all Char.isDigit && member.toList.length ≠ 0 && Nat.repr netuid = member then
    some netuid
  else none

/-- The netuids of a stored universe, if every member is canonical and none comes twice. -/
def parseUniverseMembers (members : List String) : Option (List ℕ) := do
  let parsed ← members.mapM parseMember
  if parsed.Nodup then return parsed else none

/-- Every submitted netuid is in the frozen universe. -/
def validateNetuidMembership (netuids : List ℤ) (tickers : List String) : Bool :=
  match parseUniverseMembers tickers with
  | none => false
  | some members => netuids.all fun netuid => members.any fun member => (member : ℤ) = netuid

/-- A static whitelist behind a cap. -/
structure StaticUniverseProvider where
  texts : UniverseTexts
  netuids : List ℕ
  maxTargets : ℕ

/-- The frozen universe of a round. -/
def StaticUniverseProvider.fetchUniverse (provider : StaticUniverseProvider)
    (sha256 : String → String) : Except String UniverseSnapshot := do
  let members ← canonicalUniverseMembers provider.texts provider.netuids
  if provider.maxTargets < members.length then
    .error (provider.texts.tooMany members.length provider.maxTargets)
  else return ⟨members, universeSourceHash sha256 members⟩

/-- `FORGE_LENDING_WHITELISTED_NETUIDS`. -/
def forgeLendingWhitelistedNetuids : List ℕ := [8, 44, 288, 333, 418]

def staticLendingUniverseProvider : StaticUniverseProvider :=
  ⟨lendingUniverseTexts, forgeLendingWhitelistedNetuids, forgeLendingWhitelistedNetuids.length⟩

/-- `ALPHA_RISK_WHITELISTED_NETUIDS`. -/
def alphaRiskWhitelistedNetuids : List ℕ :=
  [3, 4, 8, 9, 30, 34, 44, 50, 51, 53, 56, 64, 68, 107, 120]

def maxAlphaRiskTargetsPerRound : ℕ := alphaRiskWhitelistedNetuids.length

def staticAlphaRiskUniverseProvider : StaticUniverseProvider :=
  ⟨alphaRiskUniverseTexts, alphaRiskWhitelistedNetuids, maxAlphaRiskTargetsPerRound⟩

/-! ### Stored members are read back -/

theorem length_repr (netuid : ℕ) :
    (Nat.repr netuid).toList.length = (Nat.toDigits 10 netuid).length := by
  rw [Nat.toList_repr]

theorem parseMember_repr {netuid : ℕ} (short : (Nat.toDigits 10 netuid).length ≤ maxStrDigits) :
    parseMember (Nat.repr netuid) = some netuid := by
  have digits : (Nat.repr netuid).toList = Nat.toDigits 10 netuid := Nat.toList_repr
  have all : (Nat.toDigits 10 netuid).all Char.isDigit = true :=
    List.all_eq_true.mpr fun _ member => Nat.isDigit_of_mem_toDigits (by omega) (by omega) member
  have some : (Nat.toDigits 10 netuid).length ≠ 0 := Nat.length_toDigits_pos.ne'
  rw [parseMember, length_repr, if_neg (not_lt.mpr short)]
  simp [digits, all, Nat.ofDigitChars_ten_toDigits]

/-- Only the canonical text of a netuid is read as it. -/
theorem parseMember_eq_some_iff {member : String} {netuid : ℕ} :
    parseMember member = some netuid ↔
      Nat.repr netuid = member ∧ (Nat.toDigits 10 netuid).length ≤ maxStrDigits := by
  constructor
  · intro read
    rw [parseMember] at read
    split_ifs at read with long canonical
    cases read
    simp only [Bool.and_eq_true, decide_eq_true_eq] at canonical
    refine ⟨canonical.2, ?_⟩
    rw [← length_repr, canonical.2]
    exact not_lt.mp long
  · rintro ⟨rfl, short⟩
    exact parseMember_repr short

/-- What a member may be: a netuid that `str` converts. -/
theorem strOf_eq_ok {netuid : ℕ} {member : String} (done : strOf netuid = .ok member) :
    member = Nat.repr netuid ∧ (Nat.toDigits 10 netuid).length ≤ maxStrDigits := by
  rw [strOf] at done
  split_ifs at done with long
  cases done
  exact ⟨rfl, not_lt.mp long⟩

theorem mapM_strOf_eq_ok {netuids : List ℕ} {members : List String}
    (done : netuids.mapM strOf = .ok members) :
    members = netuids.map Nat.repr ∧
      ∀ netuid ∈ netuids, (Nat.toDigits 10 netuid).length ≤ maxStrDigits := by
  have converted := Checked.mapM_eq_ok.mp done
  clear done
  induction converted with
  | nil => exact ⟨rfl, fun _ none => by cases none⟩
  | cons first _ ih =>
    have head := strOf_eq_ok first
    exact ⟨by rw [head.1, ih.1, List.map_cons], List.forall_mem_cons.mpr ⟨head.2, ih.2⟩⟩

/-- Members that are read are the texts of what is read. -/
theorem mapM_parseMember_eq_some_iff {members : List String} {netuids : List ℕ} :
    members.mapM parseMember = some netuids ↔ netuids.map Nat.repr = members ∧
      ∀ netuid ∈ netuids, (Nat.toDigits 10 netuid).length ≤ maxStrDigits := by
  rw [Checked.mapM_eq_some]
  constructor
  · intro read
    induction read with
    | nil => exact ⟨rfl, fun _ none => by cases none⟩
    | cons first _ ih =>
      have head := parseMember_eq_some_iff.mp first
      exact ⟨by rw [List.map_cons, head.1, ih.1], List.forall_mem_cons.mpr ⟨head.2, ih.2⟩⟩
  · rintro ⟨rfl, short⟩
    rw [List.forall₂_map_left_iff, List.forall₂_same]
    exact fun netuid listed => parseMember_repr (short netuid listed)

/-- A universe that is read is the texts of its netuids. -/
theorem parseUniverseMembers_eq_some_iff {members : List String} {netuids : List ℕ} :
    parseUniverseMembers members = some netuids ↔
      netuids.map Nat.repr = members ∧ netuids.Nodup ∧
        ∀ netuid ∈ netuids, (Nat.toDigits 10 netuid).length ≤ maxStrDigits := by
  rw [parseUniverseMembers]
  constructor
  · intro read
    obtain ⟨parsed, each, unique⟩ := Option.bind_eq_some_iff.mp read
    split_ifs at unique with nodup
    cases unique
    obtain ⟨texts, short⟩ := mapM_parseMember_eq_some_iff.mp each
    exact ⟨texts, nodup, short⟩
  · rintro ⟨texts, nodup, short⟩
    rw [mapM_parseMember_eq_some_iff.mpr ⟨texts, short⟩]
    exact if_pos nodup

theorem nodup_of_canonicalUniverseMembers {texts : UniverseTexts} {netuids : List ℕ}
    {members : List String} (stored : canonicalUniverseMembers texts netuids = .ok members) :
    netuids.Nodup := by
  rw [canonicalUniverseMembers] at stored
  split_ifs at stored with double
  exact double

/-- A whitelist is read back from what a round stores of it, in order. -/
theorem parseUniverseMembers_canonical {texts : UniverseTexts} {netuids : List ℕ}
    {members : List String} (stored : canonicalUniverseMembers texts netuids = .ok members) :
    parseUniverseMembers members = some (sortBy id netuids) ∧
      members.length = netuids.length ∧
      ∀ netuid ∈ netuids, (Nat.toDigits 10 netuid).length ≤ maxStrDigits := by
  rw [canonicalUniverseMembers] at stored
  split_ifs at stored with double
  obtain ⟨rfl, short⟩ := mapM_strOf_eq_ok stored
  have nodup : (sortBy id netuids).Nodup := (perm_sortBy id netuids).nodup_iff.mpr double
  refine ⟨?_, by simp, fun netuid member => short netuid (mem_sortBy.mpr member)⟩
  exact parseUniverseMembers_eq_some_iff.mpr ⟨rfl, nodup, short⟩

/-- What a provider freezes is its whitelist, within its cap. -/
theorem fetchUniverse_eq_ok {provider : StaticUniverseProvider} {sha256 : String → String}
    {snapshot : UniverseSnapshot} (fetched : provider.fetchUniverse sha256 = .ok snapshot) :
    canonicalUniverseMembers provider.texts provider.netuids = .ok snapshot.tickers ∧
      snapshot.tickers.length ≤ provider.maxTargets ∧
      snapshot.sourceHash = universeSourceHash sha256 snapshot.tickers := by
  rw [StaticUniverseProvider.fetchUniverse] at fetched
  obtain ⟨members, stored, done⟩ := Checked.bind_eq_ok.mp fetched
  split_ifs at done with many
  cases done
  exact ⟨stored, not_lt.mp many, rfl⟩

theorem validateNetuidMembership_eq_true_iff {texts : UniverseTexts} {netuids : List ℕ}
    {members : List String} (stored : canonicalUniverseMembers texts netuids = .ok members)
    (submitted : List ℤ) : validateNetuidMembership submitted members = true ↔
      ∀ netuid ∈ submitted, ∃ member ∈ netuids, (member : ℤ) = netuid := by
  rw [validateNetuidMembership, (parseUniverseMembers_canonical stored).1]
  simp only [List.all_eq_true, List.any_eq_true, decide_eq_true_eq, mem_sortBy]

/-- A universe is read as the set of another one exactly when it is the other's members in some
order. -/
theorem parses_as_iff_perm {members members' : List String} {netuids' : List ℕ}
    (read' : parseUniverseMembers members' = some netuids') :
    (∃ netuids, parseUniverseMembers members = some netuids ∧
      netuids.toFinset = netuids'.toFinset) ↔ members.Perm members' := by
  obtain ⟨rfl, nodup', short'⟩ := parseUniverseMembers_eq_some_iff.mp read'
  constructor
  · rintro ⟨netuids, read, same⟩
    obtain ⟨rfl, nodup, -⟩ := parseUniverseMembers_eq_some_iff.mp read
    exact (List.perm_of_nodup_nodup_toFinset_eq nodup nodup' same).map Nat.repr
  -- each member is read on its own, so a reordering of them is read too
  · intro perm
    let number (member : String) : ℕ := Nat.ofDigitChars 10 member.toList 0
    have reads (netuid : ℕ) : number (Nat.repr netuid) = netuid := by
      change Nat.ofDigitChars 10 (Nat.repr netuid).toList 0 = netuid
      rw [Nat.toList_repr, Nat.ofDigitChars_ten_toDigits]
    have texts : (members.map number).map Nat.repr = members := by
      rw [List.map_map]
      refine (List.map_congr_left fun member listed => ?_).trans (List.map_id members)
      obtain ⟨netuid, -, rfl⟩ := List.mem_map.mp (perm.mem_iff.mp listed)
      exact congrArg Nat.repr (reads netuid)
    have back : (netuids'.map Nat.repr).map number = netuids' := by
      rw [List.map_map]
      exact (List.map_congr_left fun netuid _ => reads netuid).trans (List.map_id netuids')
    have reordered : (members.map number).Perm netuids' := back ▸ perm.map number
    refine ⟨members.map number, parseUniverseMembers_eq_some_iff.mpr ⟨texts, ?_, ?_⟩,
      List.toFinset_eq_of_perm _ _ reordered⟩
    · exact reordered.nodup_iff.mpr nodup'
    · exact fun netuid listed => short' netuid (reordered.mem_iff.mp listed)

/-- **Frozen universes round-trip.** A frozen universe admits exactly the submissions on netuids of
the whitelist it was frozen from; two providers freeze the same members and digest exactly when their
whitelists hold the same netuids, in whatever order they were written; and the lists of members that
are read as the set of that whitelist are the frozen one and its reorderings. -/
theorem frozen_universe_round_trips {provider provider' : StaticUniverseProvider}
    {sha256 : String → String} {snapshot snapshot' : UniverseSnapshot}
    (fetched : provider.fetchUniverse sha256 = .ok snapshot)
    (fetched' : provider'.fetchUniverse sha256 = .ok snapshot') :
    (∀ submitted, validateNetuidMembership submitted snapshot.tickers = true ↔
      ∀ netuid ∈ submitted, ∃ member ∈ provider.netuids, (member : ℤ) = netuid) ∧
    (snapshot = snapshot' ↔ provider.netuids.Perm provider'.netuids) ∧
    ∀ tickers, (∃ netuids, parseUniverseMembers tickers = some netuids ∧
      netuids.toFinset = provider.netuids.toFinset) ↔ tickers.Perm snapshot.tickers := by
  obtain ⟨stored, -, hash⟩ := fetchUniverse_eq_ok fetched
  obtain ⟨stored', -, hash'⟩ := fetchUniverse_eq_ok fetched'
  have read := (parseUniverseMembers_canonical stored).1
  have read' := (parseUniverseMembers_canonical stored').1
  have perm (netuids : List ℕ) : (sortBy id netuids).Perm netuids := perm_sortBy id netuids
  refine ⟨validateNetuidMembership_eq_true_iff stored, ⟨?_, ?_⟩, ?_⟩
  -- one text is read as one sorted whitelist
  · rintro rfl
    have sorted : sortBy id provider.netuids = sortBy id provider'.netuids :=
      Option.some.inj (read.symm.trans read')
    exact (perm _).symm.trans (sorted ▸ perm _)
  -- netuids are distinct, so sorting forgets how the whitelist was written
  · intro same
    have nodup : (provider.netuids.map id).Nodup := by
      rw [List.map_id]
      exact nodup_of_canonicalUniverseMembers stored
    have tickers : snapshot.tickers = snapshot'.tickers := by
      rw [← (parseUniverseMembers_eq_some_iff.mp read).1,
        ← (parseUniverseMembers_eq_some_iff.mp read').1, sortBy_eq_of_perm nodup same]
    cases snapshot
    cases snapshot'
    simp only at tickers hash hash'
    rw [hash, hash', tickers]
  · intro tickers
    rw [← parses_as_iff_perm read, List.toFinset_eq_of_perm _ _ (perm _)]

/-- The frozen universe of three subnets with its digest. -/
def threeSubnets : UniverseSnapshot :=
  ⟨["3", "4", "8"], "8d6eed34f79ede7cf8575f2593bfe65d81ddbeeaef0649f2f900ed02d256aa50"⟩

/-- One whitelist written in two orders. -/
theorem frozen_universe_round_trips_threeSubnets :
    (∀ submitted, validateNetuidMembership submitted threeSubnets.tickers = true ↔
      ∀ netuid ∈ submitted, ∃ member ∈ ([8, 3, 4] : List ℕ), (member : ℤ) = netuid) ∧
    (threeSubnets = threeSubnets ↔ ([8, 3, 4] : List ℕ).Perm [4, 8, 3]) ∧
    ∀ tickers, (∃ netuids, parseUniverseMembers tickers = some netuids ∧
      netuids.toFinset = ([8, 3, 4] : List ℕ).toFinset) ↔
        tickers.Perm threeSubnets.tickers := by
  have fetched (netuids : List ℕ) (listed : netuids = [8, 3, 4] ∨ netuids = [4, 8, 3]) :
      StaticUniverseProvider.fetchUniverse ⟨alphaRiskUniverseTexts, netuids, 3⟩
        (fun _ => threeSubnets.sourceHash) = .ok threeSubnets := by
    rcases listed with rfl | rfl <;> decide +kernel
  exact frozen_universe_round_trips (fetched _ (.inl rfl)) (fetched _ (.inr rfl))

/-- A reordering of the members is read, a leading zero is not. -/
example : parseUniverseMembers ["4", "3", "8"] = some [4, 3, 8] ∧
    parseUniverseMembers ["04", "3", "8"] = none := by decide +kernel

/-- The whitelists of this build are frozen as they are written, within their caps. -/
theorem fetchUniverse_static {provider : StaticUniverseProvider}
    (static : provider = staticLendingUniverseProvider ∨
      provider = staticAlphaRiskUniverseProvider) (sha256 : String → String) :
    provider.fetchUniverse sha256 = .ok ⟨provider.netuids.map Nat.repr,
      universeSourceHash sha256 (provider.netuids.map Nat.repr)⟩ := by
  have members : canonicalUniverseMembers provider.texts provider.netuids =
      .ok (provider.netuids.map Nat.repr) := by
    rcases static with rfl | rfl <;> decide +kernel
  have capped : ¬provider.maxTargets < (provider.netuids.map Nat.repr).length := by
    rcases static with rfl | rfl <;> decide
  rw [StaticUniverseProvider.fetchUniverse, members]
  exact if_neg capped

end Endure.Assessment
