import Endure.Library.PaddedDigits
import Endure.Protocol.RoundSchedule
import Endure.Storage.UntouchedRounds

/-!
# Timestamps

`datetime.isoformat` of an instant of UTC, as the timestamps of `endure/storage/repository.py` are
stored. Queries compare the stored texts where the handlers and the read API compare instants.
-/

namespace Endure.Protocol

open Library.PaddedDigits Endure.Storage Endure.Scoring

/-! ### The calendar -/

/-- Whether a year has a leap day. -/
def isLeap (year : ℕ) : Bool := year % 4 = 0 ∧ (year % 100 ≠ 0 ∨ year % 400 = 0)

/-- The days before the first of January of a year. -/
def daysBeforeYear (year : ℕ) : ℕ :=
  (year - 1) * 365 + (year - 1) / 4 + (year - 1) / 400 - (year - 1) / 100

def daysInYear (year : ℕ) : ℕ := if isLeap year then 366 else 365

theorem daysBeforeYear_succ {year : ℕ} (pos : 1 ≤ year) :
    daysBeforeYear (year + 1) = daysBeforeYear year + daysInYear year := by
  obtain ⟨past, rfl⟩ := Nat.exists_eq_add_of_le' pos
  -- a cycle is over when its length divides the number of the year
  have four : (past + 1) / 4 = _ := Nat.succ_div
  have hundred : (past + 1) / 100 = _ := Nat.succ_div
  have fourHundred : (past + 1) / 400 = _ := Nat.succ_div
  have leap : isLeap (past + 1) = decide (4 ∣ past + 1 ∧ (¬100 ∣ past + 1 ∨ 400 ∣ past + 1)) := by
    simp only [isLeap, Nat.dvd_iff_mod_eq_zero, ne_eq]
  have some : past / 100 ≤ past := Nat.div_le_self past 100
  rw [daysInYear, leap]
  unfold daysBeforeYear
  simp only [Nat.add_sub_cancel, four, hundred, fourHundred, decide_eq_true_eq]
  clear four hundred fourHundred leap pos
  by_cases by400 : 400 ∣ past + 1
  · have by100 : 100 ∣ past + 1 := (by norm_num : 100 ∣ 400).trans by400
    have by4 : 4 ∣ past + 1 := (by norm_num : 4 ∣ 400).trans by400
    simp only [by400, by100, by4, if_true, not_true, or_true, and_self]
    omega
  by_cases by100 : 100 ∣ past + 1
  · have by4 : 4 ∣ past + 1 := (by norm_num : 4 ∣ 100).trans by100
    simp only [by400, by100, by4, if_true, if_false, not_true, or_self, and_false]
    omega
  by_cases by4 : 4 ∣ past + 1
  · simp only [by400, by100, by4, if_true, if_false, not_false_iff, true_or, and_self]
    omega
  · simp only [by400, by100, by4, if_false, false_and]
    generalize past / 4 = x4, past / 400 = x400, past / 100 = x100 at some
    clear by400 by100 by4
    omega

/-- The days that full cycles of years have. -/
theorem daysBeforeYear_cycles {n100 n4 n1 : ℕ} (n400 : ℕ) (b100 : n100 ≤ 3) (b4 : n4 ≤ 24)
    (b1 : n1 ≤ 3) : daysBeforeYear (400 * n400 + 100 * n100 + 4 * n4 + n1 + 1) =
      146097 * n400 + 36524 * n100 + 1461 * n4 + 365 * n1 := by
  have by400 : (400 * n400 + 100 * n100 + 4 * n4 + n1) / 400 = n400 := by omega
  have by100 : (400 * n400 + 100 * n100 + 4 * n4 + n1) / 100 = 4 * n400 + n100 := by omega
  have by4 : (400 * n400 + 100 * n100 + 4 * n4 + n1) / 4 = 100 * n400 + 25 * n100 + n4 := by omega
  unfold daysBeforeYear
  rw [Nat.add_sub_cancel, by400, by100, by4]
  omega

theorem daysBeforeYear_mono {year later : ℕ} (pos : 1 ≤ year) (le : year ≤ later) :
    daysBeforeYear year ≤ daysBeforeYear later := by
  induction later, le using Nat.le_induction with
  | base => exact le_rfl
  | succ later le ih =>
    rw [daysBeforeYear_succ (pos.trans le)]
    exact ih.trans (Nat.le_add_right _ _)

/-- The month and the day of a day counted within its year. -/
def monthDay (leap : Bool) (inYear : ℕ) : ℕ × ℕ :=
  let daysBefore := fun month => daysBeforeMonth month + if 2 < month ∧ leap then 1 else 0
  let estimate := (inYear + 50) / 32
  let month := if inYear < daysBefore estimate then estimate - 1 else estimate
  (month, inYear - daysBefore month + 1)

/-- The cycles of four hundred, a hundred, four and one years that a number of days goes through. -/
theorem exists_cycles (days : ℕ) : ∃ n400 n100 n4 n1 inYear,
    days / 146097 = n400 ∧ days % 146097 / 36524 = n100 ∧ days % 146097 % 36524 / 1461 = n4 ∧
      days % 146097 % 36524 % 1461 / 365 = n1 ∧ days % 146097 % 36524 % 1461 % 365 = inYear ∧
      days = 146097 * n400 + 36524 * n100 + 1461 * n4 + 365 * n1 + inYear ∧ inYear < 365 ∧
      n100 ≤ 4 ∧ n4 ≤ 24 ∧ n1 ≤ 4 ∧ (n1 = 4 → inYear = 0 ∧ n4 ≠ 24 ∧ n100 ≠ 4) ∧
      (n100 = 4 → n4 = 0 ∧ n1 = 0 ∧ inYear = 0) := by
  refine ⟨_, _, _, _, _, rfl, rfl, rfl, rfl, rfl, ?_⟩
  omega

/-- An ordinal is a day within a year. -/
theorem ymdOfOrdinal_eq {ordinal : ℕ} (pos : 1 ≤ ordinal) :
    ∃ year inYear, 1 ≤ year ∧ ordinal = daysBeforeYear year + inYear + 1 ∧
      inYear < daysInYear year ∧
      ymdOfOrdinal ordinal = (year, monthDay (isLeap year) inYear) := by
  obtain ⟨n400, n100, n4, n1, inYear, h400, h100, h4, h1, hYear, total, short, b100, b4, b1, last4,
    last400⟩ := exists_cycles (ordinal - 1)
  unfold ymdOfOrdinal
  simp only [h400, h100, h4, h1, hYear]
  by_cases last : n1 = 4 ∨ n100 = 4
  · -- the last day of a leap year ends a cycle of four years
    rw [if_pos last]
    obtain ⟨m100, m4, c100, c4, sum⟩ : ∃ m100 m4, m100 ≤ 3 ∧ m4 ≤ 24 ∧
        100 * n100 + 4 * n4 + n1 = 100 * m100 + 4 * m4 + 4 ∧
          ordinal - 1 = 146097 * n400 + 36524 * m100 + 1461 * m4 + 365 * 3 + 365 ∧
            (m4 ≠ 24 ∨ m100 = 3) := by
      rcases last with rfl | rfl
      · exact ⟨n100, n4, by omega, b4, by omega, by omega, by omega⟩
      · exact ⟨3, 24, le_rfl, le_rfl, by omega, by omega, by omega⟩
    have year : n400 * 400 + 1 + n100 * 100 + n4 * 4 + n1 - 1 =
        400 * n400 + 100 * m100 + 4 * m4 + 3 + 1 := by omega
    have leap : isLeap (400 * n400 + 100 * m100 + 4 * m4 + 3 + 1) = true := by
      rw [isLeap, decide_eq_true_iff]
      omega
    rw [year]
    refine ⟨400 * n400 + 100 * m100 + 4 * m4 + 3 + 1, 365, Nat.le_add_left 1 _, ?_, ?_, ?_⟩
    · rw [daysBeforeYear_cycles n400 c100 c4 le_rfl]
      omega
    · rw [daysInYear, if_pos leap]
      omega
    · rw [leap]
      rfl
  -- any other day lies in the year that the cycles count to
  · rw [if_neg last]
    have year : n400 * 400 + 1 + n100 * 100 + n4 * 4 + n1 =
        400 * n400 + 100 * n100 + 4 * n4 + n1 + 1 := by omega
    have leap : isLeap (400 * n400 + 100 * n100 + 4 * n4 + n1 + 1) =
        decide (n1 = 3 ∧ (n4 ≠ 24 ∨ n100 = 3)) := by
      rw [isLeap, decide_eq_decide]
      omega
    rw [year]
    refine ⟨400 * n400 + 100 * n100 + 4 * n4 + n1 + 1, inYear, Nat.le_add_left 1 _, ?_, ?_, ?_⟩
    · rw [daysBeforeYear_cycles n400 (by omega) b4 (by omega)]
      omega
    · unfold daysInYear
      split <;> omega
    · rw [leap, monthDay]
      simp only [decide_eq_true_eq]

/-- The days of a year follow one another in the calendar. -/
theorem monthDay_succ (leap : Bool) {inYear : ℕ} (short : inYear < 365) :
    (monthDay leap inYear).1 < (monthDay leap (inYear + 1)).1 ∨
      (monthDay leap inYear).1 = (monthDay leap (inYear + 1)).1 ∧
        (monthDay leap inYear).2 < (monthDay leap (inYear + 1)).2 := by
  have all : ∀ leap : Bool, ∀ inYear : Fin 365,
      (monthDay leap inYear).1 < (monthDay leap (inYear + 1)).1 ∨
        (monthDay leap inYear).1 = (monthDay leap (inYear + 1)).1 ∧
          (monthDay leap inYear).2 < (monthDay leap (inYear + 1)).2 := by decide +kernel
  exact all leap ⟨inYear, short⟩

theorem monthDay_lt (leap : Bool) {inYear later : ℕ} (less : inYear < later) (within : later ≤ 365) :
    (monthDay leap inYear).1 < (monthDay leap later).1 ∨
      (monthDay leap inYear).1 = (monthDay leap later).1 ∧
        (monthDay leap inYear).2 < (monthDay leap later).2 := by
  induction later, less using Nat.le_induction with
  | base => exact monthDay_succ leap (by omega)
  | succ later less ih =>
    have before := ih (by omega)
    have next := monthDay_succ leap (show later < 365 by omega)
    omega

theorem monthDay_bounds (leap : Bool) {inYear : ℕ} (within : inYear ≤ 365) :
    (monthDay leap inYear).1 < 100 ∧ (monthDay leap inYear).2 < 100 := by
  have all : ∀ leap : Bool, ∀ inYear : Fin 366,
      (monthDay leap inYear).1 < 100 ∧ (monthDay leap inYear).2 < 100 := by decide +kernel
  exact all leap ⟨inYear, by omega⟩

/-! ### Dates -/

theorem zeroPadded_eq {width value : ℕ} (fits : value < 10 ^ width) (pos : 0 < width) :
    zeroPadded width value = String.ofList (padded width value) := by
  rw [zeroPadded, replicate_append_toDigits fits pos]

/-- The last day of the year 9999. -/
def maxOrdinal : ℕ := 3652059

theorem year_lt_of_le_maxOrdinal {year inYear : ℕ}
    (within : daysBeforeYear year + inYear + 1 ≤ maxOrdinal) : year < 10000 := by
  by_contra late
  have le := daysBeforeYear_mono (by norm_num) (not_lt.mp late)
  have most : daysBeforeYear 10000 = 3652059 := by decide +kernel
  rw [maxOrdinal] at within
  omega

/-- The characters of a date. -/
def dateChars (year : ℕ) (monthDay : ℕ × ℕ) : List Char :=
  padded 4 year ++ ('-' :: (padded 2 monthDay.1 ++ ('-' :: padded 2 monthDay.2)))

theorem length_dateChars (year : ℕ) (monthDay : ℕ × ℕ) : (dateChars year monthDay).length = 10 := by
  simp [dateChars]

/-- A day of the calendar is written in its fields. -/
theorem toList_isoformat {ordinal : ℕ} (pos : 1 ≤ ordinal) (within : ordinal ≤ maxOrdinal) :
    ∃ year inYear, 1 ≤ year ∧ year < 10000 ∧ ordinal = daysBeforeYear year + inYear + 1 ∧
      inYear < daysInYear year ∧
      (isoformat ordinal).toList = dateChars year (monthDay (isLeap year) inYear) := by
  obtain ⟨year, inYear, first, same, short, read⟩ := ymdOfOrdinal_eq pos
  have late := year_lt_of_le_maxOrdinal (same ▸ within)
  have length : inYear ≤ 365 := by
    unfold daysInYear at short
    split at short <;> omega
  obtain ⟨month, day⟩ := monthDay_bounds (isLeap year) length
  refine ⟨year, inYear, first, late, same, short, ?_⟩
  rw [isoformat, Int.toNat_natCast, read]
  simp only
  rw [zeroPadded_eq late (by norm_num), zeroPadded_eq month (by norm_num),
    zeroPadded_eq day (by norm_num)]
  simp [dateChars]

theorem dateChars_lt {year year' : ℕ} {monthDay monthDay' : ℕ × ℕ} (late : year' < 10000)
    (month : monthDay'.1 < 100) (day : monthDay'.2 < 100)
    (less : year < year' ∨ year = year' ∧ (monthDay.1 < monthDay'.1 ∨
      monthDay.1 = monthDay'.1 ∧ monthDay.2 < monthDay'.2)) :
    dateChars year monthDay < dateChars year' monthDay' := by
  unfold dateChars
  rcases less with years | ⟨rfl, months | ⟨same, days⟩⟩
  · exact append_lt_append (by simp) (padded_lt_padded years late)
  · exact List.append_left_lt (List.cons_lt_cons_iff.mpr (.inr ⟨rfl,
      append_lt_append (by simp) (padded_lt_padded months month)⟩))
  · rw [same]
    exact List.append_left_lt (List.cons_lt_cons_iff.mpr (.inr ⟨rfl, List.append_left_lt
      (List.cons_lt_cons_iff.mpr (.inr ⟨rfl, padded_lt_padded days day⟩))⟩))

/-- An earlier day is a smaller text. -/
theorem isoformat_lt_isoformat {ordinal later : ℕ} (pos : 1 ≤ ordinal) (less : ordinal < later)
    (within : later ≤ maxOrdinal) :
    (isoformat ordinal).toList < (isoformat later).toList := by
  obtain ⟨year, inYear, first, -, same, short, chars⟩ :=
    toList_isoformat pos (less.le.trans within)
  obtain ⟨year', inYear', first', late', same', short', chars'⟩ :=
    toList_isoformat (pos.trans less.le) within
  have length' : inYear' ≤ 365 := by
    unfold daysInYear at short'
    split at short' <;> omega
  obtain ⟨month, day⟩ := monthDay_bounds (isLeap year') length'
  rw [chars, chars']
  refine dateChars_lt late' month day ?_
  rcases lt_trichotomy year year' with years | rfl | years
  · exact .inl years
  · exact .inr ⟨rfl, monthDay_lt (isLeap year) (by omega) length'⟩
  · -- a later year starts after the last day of an earlier one
    have starts : daysBeforeYear (year' + 1) ≤ daysBeforeYear year :=
      daysBeforeYear_mono (Nat.le_add_left 1 year') years
    rw [daysBeforeYear_succ (by omega)] at starts
    omega

/-! ### Instants -/

/-- `datetime.isoformat` of an instant of UTC; microseconds are left out when there are none. -/
def isoformatUtc (instant : ℤ) : String :=
  let inDay := (instant % day).toNat
  let microsecond := inDay % 1000000
  let second := inDay / 1000000
  isoformat (instant / day) ++ "T" ++ zeroPadded 2 (second / 3600) ++ ":" ++
    zeroPadded 2 (second / 60 % 60) ++ ":" ++ zeroPadded 2 (second % 60) ++
    (if microsecond = 0 then "" else "." ++ zeroPadded 6 microsecond) ++ "+00:00"

/-- The instants that a `datetime` of UTC can be. -/
def IsDatetime (instant : ℤ) : Prop := day ≤ instant ∧ instant < (maxOrdinal + 1) * day

/-- The characters of the time of a day, by the second. -/
def clockChars (second : ℕ) : List Char :=
  padded 2 (second / 3600) ++ (':' :: (padded 2 (second / 60 % 60) ++ (':' :: padded 2 (second % 60))))

/-- The characters after the seconds. -/
def tailChars (microsecond : ℕ) : List Char :=
  if microsecond = 0 then "+00:00".toList
  else '.' :: (padded 6 microsecond ++ "+00:00".toList)

theorem clockChars_lt {second second' : ℕ} (less : second < second') (within : second' < 86400) :
    clockChars second < clockChars second' := by
  unfold clockChars
  rcases Nat.lt_or_ge (second / 3600) (second' / 3600) with hours | hours
  · exact append_lt_append (by simp) (padded_lt_padded hours (by omega))
  have sameHour : second / 3600 = second' / 3600 := by omega
  rw [sameHour]
  refine List.append_left_lt (List.cons_lt_cons_iff.mpr (.inr ⟨rfl, ?_⟩))
  rcases Nat.lt_or_ge (second / 60 % 60) (second' / 60 % 60) with minutes | minutes
  · exact append_lt_append (by simp) (padded_lt_padded minutes (by omega))
  have sameMinute : second / 60 % 60 = second' / 60 % 60 := by omega
  rw [sameMinute]
  exact List.append_left_lt (List.cons_lt_cons_iff.mpr (.inr ⟨rfl,
    padded_lt_padded (by omega) (by omega)⟩))

/-- A text without microseconds is below every one with the same seconds that has some. -/
theorem tailChars_lt {microsecond microsecond' : ℕ} (less : microsecond < microsecond')
    (within : microsecond' < 1000000) : tailChars microsecond < tailChars microsecond' := by
  rw [tailChars, tailChars, if_neg (show ¬microsecond' = 0 by omega)]
  by_cases none : microsecond = 0
  · rw [if_pos none]
    exact List.cons_lt_cons_iff.mpr (.inl (by decide))
  · rw [if_neg none]
    exact List.cons_lt_cons_iff.mpr (.inr ⟨rfl,
      append_lt_append (by simp) (padded_lt_padded less within)⟩)

/-- The day, the second and the microsecond of an instant. -/
theorem exists_fields {instant : ℤ} (valid : IsDatetime instant) :
    ∃ ordinal second microsecond : ℕ, 1 ≤ ordinal ∧ ordinal ≤ maxOrdinal ∧ second < 86400 ∧
      microsecond < 1000000 ∧
      instant = (ordinal * 86400 + second) * 1000000 + microsecond ∧
      (isoformatUtc instant).toList = (isoformat ordinal).toList ++
        ('T' :: (clockChars second ++ tailChars microsecond)) := by
  obtain ⟨first, last⟩ := valid
  have length : day = 86400000000 := by decide
  rw [length] at first last
  have inDay : ((instant % day).toNat : ℤ) = instant % day :=
    Int.toNat_of_nonneg (Int.emod_nonneg _ (by rw [length]; norm_num))
  refine ⟨(instant / day).toNat, (instant % day).toNat / 1000000,
    (instant % day).toNat % 1000000, ?_, ?_, ?_, Nat.mod_lt _ (by norm_num), ?_, ?_⟩
  · rw [length]
    omega
  · rw [length, maxOrdinal] at *
    omega
  · rw [length] at inDay ⊢
    omega
  · rw [length] at inDay ⊢
    omega
  · have ordinal : ((instant / day).toNat : ℤ) = instant / day :=
      Int.toNat_of_nonneg (by rw [length]; omega)
    have small : (instant % day).toNat / 1000000 < 86400 := by
      rw [length] at inDay ⊢
      omega
    unfold isoformatUtc
    simp only
    rw [ordinal]
    generalize (instant % day).toNat = inDay at small
    have hours : zeroPadded 2 (inDay / 1000000 / 3600) = _ := zeroPadded_eq (by omega) two_pos
    have minutes : zeroPadded 2 (inDay / 1000000 / 60 % 60) = _ := zeroPadded_eq (by omega) two_pos
    have seconds : zeroPadded 2 (inDay / 1000000 % 60) = _ := zeroPadded_eq (by omega) two_pos
    have micros : zeroPadded 6 (inDay % 1000000) = _ := zeroPadded_eq (by omega) (by norm_num)
    rw [hours, minutes, seconds, micros]
    -- `isoformat` leaves a zero microsecond out
    by_cases none : inDay % 1000000 = 0
    · simp [none, clockChars, tailChars]
    · simp [none, clockChars, tailChars]

theorem isoformatUtc_lt {instant later : ℤ} (valid : IsDatetime instant) (valid' : IsDatetime later)
    (less : instant < later) : isoformatUtc instant < isoformatUtc later := by
  obtain ⟨ordinal, second, microsecond, pos, -, short, small, same, chars⟩ := exists_fields valid
  obtain ⟨ordinal', second', microsecond', pos', within', short', small', same', chars'⟩ :=
    exists_fields valid'
  have lengths {ordinal : ℕ} (pos : 1 ≤ ordinal) (within : ordinal ≤ maxOrdinal) :
      (isoformat ordinal).toList.length = 10 := by
    obtain ⟨year, inYear, -, -, -, -, chars⟩ := toList_isoformat pos within
    rw [chars, length_dateChars]
  rw [String.lt_iff_toList_lt, chars, chars']
  rcases Nat.lt_or_ge ordinal ordinal' with days | days
  · exact append_lt_append ((lengths pos (by omega)).trans (lengths pos' within').symm)
      (isoformat_lt_isoformat pos days within')
  have sameDay : ordinal = ordinal' := by omega
  rw [sameDay]
  refine List.append_left_lt (List.cons_lt_cons_iff.mpr (.inr ⟨rfl, ?_⟩))
  rcases Nat.lt_or_ge second second' with seconds | seconds
  · exact append_lt_append (by simp [clockChars]) (clockChars_lt seconds short')
  have sameSecond : second = second' := by omega
  rw [sameSecond]
  exact List.append_left_lt (tailChars_lt (by omega) small')

/-! ### Reading a timestamp -/

/-- `_ymd2ord`. -/
def ymdToOrdinal (year month day : ℕ) : ℕ :=
  daysBeforeYear year + (daysBeforeMonth month + if 2 < month ∧ isLeap year then 1 else 0) + day

/-- A time of the day, by the second. -/
def readClock : List Char → Option ℕ
  | [h₁, h₂, ':', m₁, m₂, ':', s₁, s₂] =>
    let hours := Nat.ofDigitChars 10 [h₁, h₂] 0
    let minutes := Nat.ofDigitChars 10 [m₁, m₂] 0
    let seconds := Nat.ofDigitChars 10 [s₁, s₂] 0
    if [h₁, h₂, m₁, m₂, s₁, s₂].all Char.isDigit ∧ hours < 24 ∧ minutes < 60 ∧ seconds < 60 then
      some (hours * 3600 + minutes * 60 + seconds)
    else none
  | _ => none

/-- The microseconds, if there are any, and the offset of UTC. -/
def readTail : List Char → Option ℕ
  | '.' :: rest =>
    if (rest.take 6).length = 6 ∧ (rest.take 6).all Char.isDigit ∧
        rest.drop 6 = "+00:00".toList then
      some (Nat.ofDigitChars 10 (rest.take 6) 0)
    else none
  | rest => if rest = "+00:00".toList then some 0 else none

/-- `datetime.fromisoformat`, for texts in the form that timestamps are stored in. -/
def fromisoformat (text : String) : Option ℤ :=
  let date := text.toList.take 10
  if isCanonicalRoundId (String.ofList date) then
    match text.toList.drop 10 with
    | 'T' :: time => do
      let second ← readClock (time.take 8)
      let microsecond ← readTail (time.drop 8)
      let ordinal := ymdToOrdinal (Nat.ofDigitChars 10 (date.take 4) 0)
        (Nat.ofDigitChars 10 ((date.drop 5).take 2) 0) (Nat.ofDigitChars 10 (date.drop 8) 0)
      return ((ordinal * 86400 + second) * 1000000 + microsecond : ℕ)
    | _ => none
  else none

/-- The day of a year that a month and a day are. -/
theorem monthDay_valid {year inYear : ℕ} (short : inYear < daysInYear year) :
    (daysBeforeMonth (monthDay (isLeap year) inYear).1 +
        if 2 < (monthDay (isLeap year) inYear).1 ∧ isLeap year then 1 else 0) +
      (monthDay (isLeap year) inYear).2 = inYear + 1 ∧
    1 ≤ (monthDay (isLeap year) inYear).1 ∧ (monthDay (isLeap year) inYear).1 ≤ 12 ∧
    1 ≤ (monthDay (isLeap year) inYear).2 ∧
    (monthDay (isLeap year) inYear).2 ≤ daysInMonth year (monthDay (isLeap year) inYear).1 := by
  have all : ∀ leap : Bool, ∀ inYear : Fin 366, (leap = true ∨ inYear.1 < 365) →
      (daysBeforeMonth (monthDay leap inYear).1 +
          if 2 < (monthDay leap inYear).1 ∧ leap then 1 else 0) +
        (monthDay leap inYear).2 = inYear + 1 ∧
      1 ≤ (monthDay leap inYear).1 ∧ (monthDay leap inYear).1 ≤ 12 ∧
      1 ≤ (monthDay leap inYear).2 ∧
      (monthDay leap inYear).2 ≤
        if (monthDay leap inYear).1 = 2 then if leap then 29 else 28
        else if (monthDay leap inYear).1 = 4 ∨ (monthDay leap inYear).1 = 6 ∨
          (monthDay leap inYear).1 = 9 ∨ (monthDay leap inYear).1 = 11 then 30 else 31 := by
    decide +kernel
  have within : inYear < 366 ∧ (isLeap year = true ∨ inYear < 365) := by
    unfold daysInYear at short
    split at short
    next leap => exact ⟨short, .inl leap⟩
    · exact ⟨by omega, .inr short⟩
  have same := all (isLeap year) ⟨inYear, within.1⟩ within.2
  have leap : (isLeap year = true) = (year % 4 = 0 ∧ (year % 100 ≠ 0 ∨ year % 400 = 0)) := by
    rw [isLeap, decide_eq_true_eq]
  unfold daysInMonth
  simp only [leap] at same ⊢
  exact same

/-- The dates of the calendar are canonical round ids. -/
theorem isCanonicalRoundId_dateChars {year inYear : ℕ} (first : 1 ≤ year) (late : year < 10000)
    (short : inYear < daysInYear year) :
    isCanonicalRoundId (String.ofList (dateChars year (monthDay (isLeap year) inYear))) = true := by
  obtain ⟨-, month, month', day, day'⟩ := monthDay_valid short
  generalize monthDay (isLeap year) inYear = within at month month' day day'
  have dayShort : within.2 < 10 ^ 2 := by
    refine lt_of_le_of_lt day' ?_
    unfold daysInMonth
    split_ifs <;> norm_num
  have digits {width value : ℕ} : (padded width value).all Char.isDigit = true :=
    List.all_eq_true.mpr fun _ => isDigit_of_mem_padded
  have readYear := ofDigitChars_padded (show year < 10 ^ 4 by omega)
  have readMonth := ofDigitChars_padded (show within.1 < 10 ^ 2 by omega)
  have readDay := ofDigitChars_padded dayShort
  have digitsYear : (padded 4 year).all Char.isDigit = true := digits
  have digitsMonth : (padded 2 within.1).all Char.isDigit = true := digits
  have digitsDay : (padded 2 within.2).all Char.isDigit = true := digits
  simp only [padded, List.nil_append, List.cons_append] at readYear readMonth readDay
  simp only [padded, List.nil_append, List.cons_append, List.all_cons, List.all_nil, Bool.and_true,
    Bool.and_eq_true] at digitsYear digitsMonth digitsDay
  have chars : (String.ofList (dateChars year within)).toList = dateChars year within :=
    String.toList_ofList
  have length : (String.ofList (dateChars year within)).length = 10 := by
    rw [String.length_ofList, length_dateChars]
  rw [isCanonicalRoundId, chars, length]
  simp only [dateChars, padded, List.nil_append, List.cons_append, readYear, readMonth, readDay]
  simp [digitsYear, digitsMonth, digitsDay, first, month, month', day, day', maxRoundIdLength]

theorem readClock_clockChars {second : ℕ} (short : second < 86400) :
    readClock (clockChars second) = some second := by
  have digits {width value : ℕ} : (padded width value).all Char.isDigit = true :=
    List.all_eq_true.mpr fun _ => isDigit_of_mem_padded
  have hours := ofDigitChars_padded (show second / 3600 < 10 ^ 2 by omega)
  have minutes := ofDigitChars_padded (show second / 60 % 60 < 10 ^ 2 by omega)
  have seconds := ofDigitChars_padded (show second % 60 < 10 ^ 2 by omega)
  have digitsHours : (padded 2 (second / 3600)).all Char.isDigit = true := digits
  have digitsMinutes : (padded 2 (second / 60 % 60)).all Char.isDigit = true := digits
  have digitsSeconds : (padded 2 (second % 60)).all Char.isDigit = true := digits
  simp only [padded, List.nil_append, List.cons_append] at hours minutes seconds
  simp only [padded, List.nil_append, List.cons_append, List.all_cons, List.all_nil, Bool.and_true,
    Bool.and_eq_true] at digitsHours digitsMinutes digitsSeconds
  simp only [clockChars, padded, List.nil_append, List.cons_append, readClock, hours, minutes,
    seconds]
  rw [if_pos]
  · congr 1
    omega
  · simp only [List.all_cons, List.all_nil, Bool.and_true, Bool.and_eq_true]
    exact ⟨⟨digitsHours.1, digitsHours.2, digitsMinutes.1, digitsMinutes.2, digitsSeconds.1,
      digitsSeconds.2⟩, by omega, by omega, by omega⟩

theorem readTail_tailChars {microsecond : ℕ} (small : microsecond < 1000000) :
    readTail (tailChars microsecond) = some microsecond := by
  rw [tailChars]
  by_cases none : microsecond = 0
  · rw [if_pos none, none]
    decide
  · have field : (padded 6 microsecond ++ "+00:00".toList).take 6 = padded 6 microsecond :=
      List.take_left' (length_padded 6 microsecond)
    have offset : (padded 6 microsecond ++ "+00:00".toList).drop 6 = "+00:00".toList :=
      List.drop_left' (length_padded 6 microsecond)
    rw [if_neg none, readTail, field, offset, if_pos, ofDigitChars_padded (by omega)]
    exact ⟨length_padded 6 microsecond, List.all_eq_true.mpr fun _ => isDigit_of_mem_padded, rfl⟩

/-- What `isoformat` writes, `fromisoformat` reads. -/
theorem fromisoformat_isoformatUtc {instant : ℤ} (valid : IsDatetime instant) :
    fromisoformat (isoformatUtc instant) = some instant := by
  obtain ⟨ordinal, second, microsecond, pos, within, short, small, same, chars⟩ :=
    exists_fields valid
  obtain ⟨year, inYear, first, late, total, inside, date⟩ := toList_isoformat pos within
  rw [date] at chars
  have length := length_dateChars year (monthDay (isLeap year) inYear)
  have take : (isoformatUtc instant).toList.take 10 = dateChars year (monthDay (isLeap year) inYear) := by
    rw [chars, List.take_left' length]
  have drop : (isoformatUtc instant).toList.drop 10 =
      'T' :: (clockChars second ++ tailChars microsecond) := by
    rw [chars, List.drop_left' length]
  have clock : (clockChars second).length = 8 := by simp [clockChars]
  obtain ⟨ordinals, month, month', day, day'⟩ := monthDay_valid inside
  unfold fromisoformat
  simp only
  rw [take, drop, if_pos (isCanonicalRoundId_dateChars first late inside)]
  simp only [List.take_left' clock, List.drop_left' clock, readClock_clockChars short,
    readTail_tailChars small]
  generalize monthDay (isLeap year) inYear = fields at ordinals month month' day day'
  -- a day of a month has two digits at most
  have dayShort : fields.2 < 10 ^ 2 := by
    refine lt_of_le_of_lt day' ?_
    unfold daysInMonth
    split_ifs <;> norm_num
  have years : (dateChars year fields).take 4 = padded 4 year :=
    List.take_left' (length_padded 4 year)
  have months : ((dateChars year fields).drop 5).take 2 = padded 2 fields.1 := by
    simp [dateChars, padded]
  have days : (dateChars year fields).drop 8 = padded 2 fields.2 := by
    simp [dateChars, padded]
  rw [years, months, days, ofDigitChars_padded (by omega), ofDigitChars_padded (by omega),
    ofDigitChars_padded dayShort]
  -- the date that was read is the ordinal that was written
  have whole : ymdToOrdinal year fields.1 fields.2 = ordinal := by
    rw [ymdToOrdinal, total]
    omega
  rw [whole, same]
  rfl

/-! ### The two ways of reading an embargo -/

/-- The condition of `_post_embargo_rounds` on a stored text. -/
def availableByText (publicationAvailableAt nowIso : String) : Bool :=
  publicationAvailableAt < nowIso

/-- The condition of `_embargo_lifted` on a stored text. -/
def availableByInstant (publicationAvailableAt : String) (now : ℤ) : Bool :=
  match fromisoformat publicationAvailableAt with
  | some available => available < now
  | none => false

theorem availableByText_iff {available now : ℤ} (stored : IsDatetime available)
    (asked : IsDatetime now) :
    availableByText (isoformatUtc available) (isoformatUtc now) = true ↔ available < now := by
  rw [availableByText, decide_eq_true_iff]
  constructor
  · intro less
    by_contra late
    rcases (not_lt.mp late).lt_or_eq with later | same
    · exact absurd (isoformatUtc_lt asked stored later) (lt_asymm less)
    · exact absurd (same ▸ less) (lt_irrefl _)
  · exact isoformatUtc_lt stored asked

theorem availableByInstant_iff {available now : ℤ} (stored : IsDatetime available) :
    availableByInstant (isoformatUtc available) now = true ↔ available < now := by
  rw [availableByInstant, fromisoformat_isoformatUtc stored, decide_eq_true_iff]

/-- The queries of the feed compare texts where the gate compares instants: both lift an embargo at
the same instant, with microseconds or without. -/
theorem embargo_lifts_at_once {available now : ℤ} (stored : IsDatetime available)
    (asked : IsDatetime now) :
    availableByText (isoformatUtc available) (isoformatUtc now) =
        availableByInstant (isoformatUtc available) now ∧
      (availableByText (isoformatUtc available) (isoformatUtc now) = true ↔ available < now) := by
  have text := availableByText_iff stored asked
  have instant := @availableByInstant_iff available now stored
  exact ⟨Bool.eq_iff_iff.mpr (text.trans instant.symm), text⟩

/-- The instant at which an embargo ends, and the first after it. -/
theorem embargo_lifts_at_once_whole_second :
    availableByText (isoformatUtc 63918360000000000) (isoformatUtc 63918360000000001) =
        availableByInstant (isoformatUtc 63918360000000000) 63918360000000001 ∧
      (availableByText (isoformatUtc 63918360000000000) (isoformatUtc 63918360000000001) = true ↔
        (63918360000000000 : ℤ) < 63918360000000001) :=
  embargo_lifts_at_once ⟨by decide, by decide⟩ ⟨by decide, by decide⟩

/-! ### Round ids -/

/-- The days that a `date` can be. -/
def IsDate (ordinal : ℤ) : Prop := 1 ≤ ordinal ∧ ordinal ≤ maxOrdinal

/-- Later days have greater texts. -/
theorem isoformat_le_iff {ordinal later : ℤ} (valid : IsDate ordinal) (valid' : IsDate later) :
    isoformat ordinal ≤ isoformat later ↔ ordinal ≤ later := by
  have less {first second : ℤ} (valid : IsDate first) (valid' : IsDate second)
      (before : first < second) : isoformat first < isoformat second := by
    obtain ⟨ordinal, rfl⟩ := Int.eq_ofNat_of_zero_le (show 0 ≤ first by have := valid.1; omega)
    obtain ⟨later, rfl⟩ := Int.eq_ofNat_of_zero_le (show 0 ≤ second by have := valid'.1; omega)
    rw [String.lt_iff_toList_lt]
    exact isoformat_lt_isoformat (by exact_mod_cast valid.1) (by exact_mod_cast before)
      (by exact_mod_cast valid'.2)
  constructor
  · intro le
    by_contra before
    exact absurd (less valid' valid (not_le.mp before)) (not_lt.mpr le)
  · intro le
    rcases le.lt_or_eq with before | rfl
    · exact (less valid valid' before).le
    · exact le_rfl

/-- A schema's rounds are opened for days of the scheduler. -/
def Scheduled (schemaId : String) : RoundOperation → Prop
  | .openRound windows other _ _ _ => other = schemaId →
    ∃ ordinal offsets, IsDate ordinal ∧ windows = computeFixedUtcWindows ordinal offsets
  | _ => True

/-- A submission is new in an open round only. -/
theorem submitted_of_change {store later : Store} (change : Store.Change store later)
    {round : RoundKey} {hotkey : Hotkey} {row : SubmissionRow}
    (found : later.submissions.get? (round, hotkey) = some row) :
    (store.submissions.get? (round, hotkey)).isSome ∨ (store.roundState round).isSome := by
  cases change with
  | unchanged => exact .inl (by rw [found]; rfl)
  | opened opened row universes fresh isOpen kept => exact .inl (by rw [found]; rfl)
  | submitted submitted submitter row isOpen admitted =>
    rw [Library.Dict.get?_set] at found
    split at found
    next same =>
      obtain ⟨rfl, -⟩ := Prod.mk.inj same
      exact .inr (by rw [isOpen]; rfl)
    · exact .inl (by rw [found]; rfl)
  | advanced advanced later after =>
    rw [after.submissions] at found
    exact .inl (by rw [found]; rfl)

theorem isSome_of_windows {store later : Store} {round : RoundKey}
    (windows : later.roundWindows round = store.roundWindows round)
    (present : (later.roundState round).isSome) : (store.roundState round).isSome := by
  have stored : (later.roundWindows round).isSome := by
    rw [Store.roundWindows, Option.isSome_map]
    rwa [Store.roundState, Option.isSome_map] at present
  rw [windows, Store.roundWindows, Option.isSome_map] at stored
  rwa [Store.roundState, Option.isSome_map]

/-- Only an opening makes a round. -/
theorem opened_of_apply {limits : Limits} {store : Store} (consistent : store.Consistent)
    {operation : RoundOperation} {round : RoundKey}
    (present : ((operation.apply limits store).roundState round).isSome) :
    (store.roundState round).isSome ∨ ∃ windows schemaId snapshot nowIso publicationAvailableAt,
      operation = .openRound windows schemaId snapshot nowIso publicationAvailableAt ∧
        round = ⟨windows.roundId, schemaId⟩ := by
  cases operation with
  | openRound windows schemaId snapshot nowIso publicationAvailableAt =>
    rw [RoundOperation.apply] at present
    cases done : store.openRound windows schemaId snapshot nowIso publicationAvailableAt with
    | error raised =>
      rw [done] at present
      exact .inl present
    | ok later =>
      rw [done] at present
      have opened : later.roundState round = store.roundState round ∨ _ :=
        Store.roundState_openRound done
      rcases opened with same | ⟨own, -⟩
      · exact .inl (same ▸ present)
      · exact .inr ⟨windows, schemaId, snapshot, nowIso, publicationAvailableAt, rfl, own⟩
  | recordCommit other hotkey bundleHash nowIso =>
    rw [RoundOperation.apply, Store.roundState, Store.recordCommit_rounds] at present
    exact .inl present
  | recordRevealAttempt other hotkey =>
    rw [RoundOperation.apply, Store.roundState, Store.recordRevealAttempt_rounds] at present
    exact .inl present
  | recordReveal other hotkey bundleJson nonceHex accepted rejectionCode nowIso =>
    rw [RoundOperation.apply, Store.roundState, Store.recordReveal_rounds] at present
    exact .inl present
  -- the transactions that change a state keep which rounds have windows
  | publish other callback nowIso =>
    rw [RoundOperation.apply] at present
    cases done : store.publishAssessmentConsensusFromAcceptedBundlesAndReveal other callback
      nowIso with
    | error raised =>
      rw [done] at present
      exact .inl present
    | ok outcome =>
      rw [done] at present
      have windows := (Store.publish_spec consistent done).1.windows round
      exact .inl (isSome_of_windows windows present)
  | setRoundState other state postOpen nowIso =>
    rw [RoundOperation.apply] at present
    cases done : store.setRoundState other state nowIso with
    | error raised =>
      rw [done] at present
      exact .inl present
    | ok later =>
      rw [done] at present
      have windows := (Store.setRoundState_spec consistent postOpen done).1.windows round
      exact .inl (isSome_of_windows windows present)

/-- The rounds of a schema are days of the scheduler, and every submission is in a round. -/
structure Calendar (schemaId : String) (store : Store) : Prop where
  consistent : store.Consistent
  rounds : ∀ round, (store.roundState round).isSome → round.schemaId = schemaId →
    ∃ ordinal, IsDate ordinal ∧ round.roundId = isoformat ordinal
  submissions : ∀ round hotkey row, store.submissions.get? (round, hotkey) = some row →
    (store.roundState round).isSome

theorem Calendar.apply {schemaId : String} {store : Store} (calendar : Calendar schemaId store)
    (limits : Limits) {operation : RoundOperation} (scheduled : Scheduled schemaId operation) :
    Calendar schemaId (operation.apply limits store) := by
  have change := operation.apply_change limits calendar.consistent
  have evolves := change.evolves
  refine ⟨change.consistent calendar.consistent, fun round present own => ?_,
    fun round hotkey row found => ?_⟩
  · rcases opened_of_apply calendar.consistent present with before |
      ⟨windows, other, snapshot, nowIso, publicationAvailableAt, rfl, rfl⟩
    · exact calendar.rounds round before own
    · obtain ⟨ordinal, offsets, valid, rfl⟩ := scheduled own
      exact ⟨ordinal, valid, rfl⟩
  · have before : (store.roundState round).isSome := by
      rcases submitted_of_change change found with old | isOpen
      · obtain ⟨row', found'⟩ := Option.isSome_iff_exists.mp old
        exact calendar.submissions round hotkey row' found'
      · exact isOpen
    obtain ⟨windows, stored⟩ := Option.isSome_iff_exists.mp
      (show (store.roundWindows round).isSome by
        rw [Store.roundWindows, Option.isSome_map]
        rwa [Store.roundState, Option.isSome_map] at before)
    have kept : ((operation.apply limits store).roundWindows round).isSome := by
      rw [evolves.windows round windows stored]
      rfl
    rw [Store.roundState, Option.isSome_map]
    rwa [Store.roundWindows, Option.isSome_map] at kept

theorem Calendar.run {schemaId : String} {store : Store} (calendar : Calendar schemaId store)
    (limits : Limits) {operations : List RoundOperation}
    (scheduled : ∀ operation ∈ operations, Scheduled schemaId operation) :
    Calendar schemaId (RoundOperation.run limits store operations) := by
  induction operations generalizing store with
  | nil => exact calendar
  | cons operation rest ih =>
    exact ih (calendar.apply limits (scheduled operation List.mem_cons_self))
      fun other member => scheduled other (List.mem_cons_of_mem operation member)

theorem calendar_empty (schemaId : String) : Calendar schemaId .empty where
  consistent := Store.consistent_empty
  rounds _ present := by cases present
  submissions _ _ _ found := by cases found

/-- The hotkeys that the query finds eligible for the round of a day, comparing round ids as texts,
are those with an accepted reveal in a round of the same day or an earlier one. -/
theorem eligible_iff_earlier_day (limits : Limits) {schemaId : String}
    {operations : List RoundOperation}
    (scheduled : ∀ operation ∈ operations, Scheduled schemaId operation) {day : ℤ}
    (valid : IsDate day) (hotkey : Hotkey) :
    hotkey ∈ (RoundOperation.run limits .empty operations).assessmentHotkeysEligibleForRound
        schemaId (isoformat day) ↔
      ∃ earlier, IsDate earlier ∧ earlier ≤ day ∧
        ∃ row, (RoundOperation.run limits .empty operations).submissions.get?
            (⟨isoformat earlier, schemaId⟩, hotkey) = some row ∧ row.verdict = .accepted := by
  have calendar := (calendar_empty schemaId).run limits scheduled
  generalize RoundOperation.run limits .empty operations = store at calendar
  rw [Store.assessmentHotkeysEligibleForRound, List.mem_dedup, List.mem_map]
  constructor
  · rintro ⟨⟨⟨roundId, _⟩, hotkey⟩, listed, rfl⟩
    obtain ⟨row, found⟩ := Library.Dict.mem_keys_iff.mp listed
    rw [Library.Dict.get?_filter, Option.filter_eq_some_iff, decide_eq_true_iff] at found
    obtain ⟨held, rfl, accepted, before⟩ := found
    obtain ⟨earlier, valid', rfl⟩ :=
      calendar.rounds _ (calendar.submissions _ hotkey row held) rfl
    exact ⟨earlier, valid', (isoformat_le_iff valid' valid).mp before, row, held, accepted⟩
  · rintro ⟨earlier, valid', before, row, held, accepted⟩
    refine ⟨(⟨isoformat earlier, schemaId⟩, hotkey), Library.Dict.mem_keys_iff.mpr ⟨row, ?_⟩, rfl⟩
    rw [Library.Dict.get?_filter, Option.filter_eq_some_iff, decide_eq_true_iff]
    exact ⟨held, rfl, accepted, (isoformat_le_iff valid' valid).mpr before⟩

/-- A hotkey that reveals for a day is eligible from that day on. -/
theorem eligible_iff_earlier_day_revealed :
    "miner" ∈ (RoundOperation.run ⟨1, 1, le_rfl, le_rfl⟩ .empty
        [.openRound (computeFixedUtcWindows 739786 defaultOffsets) "schema" none "now" none,
          .recordReveal ⟨isoformat 739786, "schema"⟩ "miner" "bundle" "nonce" true none
            "now"]).assessmentHotkeysEligibleForRound "schema" (isoformat 739787) ↔
      ∃ earlier, IsDate earlier ∧ earlier ≤ 739787 ∧
        ∃ row, (RoundOperation.run ⟨1, 1, le_rfl, le_rfl⟩ .empty
          [.openRound (computeFixedUtcWindows 739786 defaultOffsets) "schema" none "now" none,
            .recordReveal ⟨isoformat 739786, "schema"⟩ "miner" "bundle" "nonce" true none
              "now"]).submissions.get? (⟨isoformat earlier, "schema"⟩, "miner") = some row ∧
          row.verdict = .accepted := by
  refine eligible_iff_earlier_day _ (fun operation member => ?_) ⟨by decide, by decide⟩ "miner"
  rcases List.mem_pair.mp member with rfl | rfl
  · exact fun _ => ⟨739786, defaultOffsets, ⟨by decide, by decide⟩, rfl⟩
  · trivial

end Endure.Protocol
