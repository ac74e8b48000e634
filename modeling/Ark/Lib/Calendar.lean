import Mathlib.Algebra.Group.Nat.Defs
import Mathlib.Data.List.Forall2
import Mathlib.Data.Nat.Find
import Mathlib.Order.Monotone.Basic
import Mathlib.Tactic.IntervalCases
import Ark.Lib.Positional

/- Dates of the Gregorian calendar, extended to the year 0, and times of day.

   An instant is counted in nanoseconds from the start of the year 0, in UTC, without
   leap seconds. Its date and time are found by a search for the last year, and the
   last month, that starts at or before it (`lastMark`); whatever comes after the mark is
   the next, smaller part. Parts found in this way compare as the instant does
   (`mark_add_lt_iff`), so a list of them, largest first, is in the order of time
   (`fields_lt_iff`), and the instant is the sum of what the parts stand for
   (`instant_fields`). -/
namespace Ark.Lib.Calendar
open Positional

/-! ## Marks -/

/-- The last mark at or before `n`, of the first `limit`. -/
def lastMark (mark : Nat → Nat) (limit n : Nat) : Nat := Nat.findGreatest (fun k => mark k ≤ n) limit

section Marks
variable {mark : Nat → Nat}

theorem lastMark_le (hzero : mark 0 = 0) (limit n : Nat) : mark (lastMark mark limit n) ≤ n := by
  apply Nat.findGreatest_spec (P := fun k => mark k ≤ n) (m := 0) (Nat.zero_le limit)
  omega

/-- The next mark comes after `n`, when the mark after the limit does. -/
theorem lt_next_mark {limit n : Nat} (hlimit : n < mark (limit + 1)) :
    n < mark (lastMark mark limit n + 1) := by
  -- the search ends before its limit, or at it
  rcases Nat.lt_or_ge (lastMark mark limit n) limit with hlt | hge
  · have hnot : ¬ mark (lastMark mark limit n + 1) ≤ n :=
      Nat.findGreatest_is_greatest (P := fun k => mark k ≤ n) (Nat.lt_succ_self _) hlt
    omega
  · have heq : lastMark mark limit n = limit := Nat.le_antisymm (Nat.findGreatest_le limit) hge
    rwa [heq]

/-- A mark and what comes after it compare as their sum does. -/
theorem mark_add_lt_iff (hmono : Monotone mark) {k k' r r' : Nat}
    (hr : mark k + r < mark (k + 1)) (hr' : mark k' + r' < mark (k' + 1)) :
    mark k + r < mark k' + r' ↔ k < k' ∨ k = k' ∧ r < r' := by
  rcases Nat.lt_trichotomy k k' with hlt | heq | hgt
  · have hle : mark (k + 1) ≤ mark k' := hmono hlt
    omega
  · rw [heq]
    omega
  · have hle : mark (k' + 1) ≤ mark k := hmono hgt
    omega

end Marks

/-! ## Years and months -/

def isLeap (year : Nat) : Bool := year % 4 = 0 ∧ (year % 100 ≠ 0 ∨ year % 400 = 0)

/-- Days before the year. -/
def yearStart (year : Nat) : Nat :=
  365 * year + (year + 3) / 4 - (year + 99) / 100 + (year + 399) / 400

/-- Days of a month, the months counted from 0. -/
def monthLength (leap : Bool) (month : Nat) : Nat :=
  [31, 28 + leap.toNat, 31, 30, 31, 30, 31, 31, 30, 31, 30, 31].getD month 0

/-- Days of the year before the month. -/
def monthStart (leap : Bool) : Nat → Nat
  | 0 => 0
  | month + 1 => monthStart leap month + monthLength leap month

theorem monthStart_twelve (leap : Bool) : monthStart leap 12 = 365 + leap.toNat := by
  cases leap <;> rfl

theorem yearStart_succ (year : Nat) :
    yearStart (year + 1) = yearStart year + monthStart (isLeap year) 12 := by
  have h4 : (year + 4) / 4 = (year + 3) / 4 + if year % 4 = 0 then 1 else 0 := by
    split <;> omega
  have h100 : (year + 100) / 100 = (year + 99) / 100 + if year % 100 = 0 then 1 else 0 := by
    split <;> omega
  have h400 : (year + 400) / 400 = (year + 399) / 400 + if year % 400 = 0 then 1 else 0 := by
    split <;> omega
  have h4of100 : year % 100 = 0 → year % 4 = 0 := by omega
  have h100of400 : year % 400 = 0 → year % 100 = 0 := by omega
  have hle : (year + 99) / 100 ≤ (year + 3) / 4 := by omega
  rw [monthStart_twelve]
  show 365 * (year + 1) + (year + 4) / 4 - (year + 100) / 100 + (year + 400) / 400 = _
  rw [h4, h100, h400]
  unfold yearStart isLeap
  -- with the quotients as variables every case of the remainders is linear
  clear h4 h100 h400
  generalize (year + 3) / 4 = a at hle ⊢
  generalize (year + 99) / 100 = b at hle ⊢
  generalize (year + 399) / 400 = c
  by_cases hm4 : year % 4 = 0 <;> by_cases hm100 : year % 100 = 0 <;>
    by_cases hm400 : year % 400 = 0 <;> simp [hm4, hm100, hm400] at * <;> omega

theorem yearStart_mono : Monotone yearStart := by
  apply monotone_nat_of_le_succ
  intro year
  rw [yearStart_succ]
  exact Nat.le_add_right _ _

theorem monthStart_mono (leap : Bool) : Monotone (monthStart leap) := by
  apply monotone_nat_of_le_succ
  intro month
  exact Nat.le_add_right _ _

def yearOf (day : Nat) : Nat := lastMark yearStart (day / 365) day

def monthOf (leap : Bool) (yday : Nat) : Nat := lastMark (monthStart leap) 11 yday

theorem yearStart_yearOf (day : Nat) :
    yearStart (yearOf day) ≤ day ∧ day < yearStart (yearOf day + 1) := by
  constructor
  · exact lastMark_le rfl _ _
  · apply lt_next_mark
    unfold yearStart
    omega

theorem monthStart_monthOf {leap : Bool} {yday : Nat} (h : yday < monthStart leap 12) :
    monthStart leap (monthOf leap yday) ≤ yday ∧ yday < monthStart leap (monthOf leap yday + 1) :=
  ⟨lastMark_le rfl _ _, lt_next_mark h⟩

/-! ## Dates -/

/-- Year, month and day of the month, the last two counted from 1. -/
def date (day : Nat) : List Nat :=
  let year := yearOf day
  let yday := day - yearStart year
  let month := monthOf (isLeap year) yday
  [year, month + 1, yday - monthStart (isLeap year) month + 1]

/-- The day of a date. -/
def dayOf (year month mday : Nat) : Nat :=
  yearStart year + monthStart (isLeap year) (month - 1) + (mday - 1)

/-- The parts of a day: what is left after each mark fits before the next one. -/
theorem date_parts (day : Nat) : ∃ year month mday,
    date day = [year, month + 1, mday + 1] ∧ month < 12 ∧
      mday < monthLength (isLeap year) month ∧
      monthStart (isLeap year) month + mday < monthStart (isLeap year) 12 ∧
      day = yearStart year + (monthStart (isLeap year) month + mday) := by
  obtain ⟨hyear, hnext⟩ := yearStart_yearOf day
  rw [yearStart_succ] at hnext
  have hyday : day - yearStart (yearOf day) < monthStart (isLeap (yearOf day)) 12 := by omega
  obtain ⟨hmonth, hmonthnext⟩ := monthStart_monthOf hyday
  refine ⟨_, _, _, rfl, ?_, ?_, ?_, ?_⟩
  · exact Nat.lt_succ_of_le (Nat.findGreatest_le (P := fun k => monthStart _ k ≤ _) 11)
  · rw [monthStart] at hmonthnext
    omega
  · omega
  · omega

theorem date_lt_iff (m n : Nat) : date m < date n ↔ m < n := by
  obtain ⟨y, mo, d, hm, hmo, hd, hyd, hmday⟩ := date_parts m
  obtain ⟨y', mo', d', hn, hmo', hd', hyd', hnday⟩ := date_parts n
  rw [hm, hn]
  -- the years decide, and within one year the months and the days
  have hyear : m < n ↔ y < y' ∨ y = y' ∧
      monthStart (isLeap y) mo + d < monthStart (isLeap y') mo' + d' := by
    rw [hmday, hnday]
    apply mark_add_lt_iff yearStart_mono
    · rw [yearStart_succ]
      omega
    · rw [yearStart_succ]
      omega
  rw [hyear]
  simp only [List.cons_lt_cons_iff, List.not_lt_nil, and_false, or_false, Nat.add_lt_add_iff_right,
    Nat.add_right_cancel_iff]
  apply or_congr Iff.rfl
  apply and_congr_right
  intro hy
  rw [hy] at hd hyd ⊢
  apply (mark_add_lt_iff (monthStart_mono (isLeap y')) _ _).symm
  · rw [monthStart]
    omega
  · rw [monthStart]
    omega

/-! ## Times of day -/

/-- Hour, minute, second and nanosecond. -/
def timeOfDay (t : Nat) : List Nat :=
  [t / 3600000000000, t / 60000000000 % 60, t / 1000000000 % 60, t % 1000000000]

theorem timeOfDay_lt_iff (s t : Nat) : timeOfDay s < timeOfDay t ↔ s < t := by
  simp only [timeOfDay, List.cons_lt_cons_iff, List.not_lt_nil, and_false, or_false]
  omega

/-! ## Instants -/

/-- Nanoseconds of a day. -/
def dayLength : Nat := 86400000000000

def fields (n : Nat) : List Nat := date (n / dayLength) ++ timeOfDay (n % dayLength)

/-- The instant of a date and a time, if there is one. -/
def instant : List Nat → Option Nat
  | [year, month, mday, hour, min, sec, nsec] =>
    if (1 ≤ month ∧ month ≤ 12) ∧ (1 ≤ mday ∧ mday ≤ monthLength (isLeap year) (month - 1)) ∧
        hour < 24 ∧ min < 60 ∧ sec < 60 ∧ nsec < 1000000000 then
      some (dayOf year month mday * dayLength +
        (3600000000000 * hour + 60000000000 * min + 1000000000 * sec + nsec))
    else none
  | _ => none

theorem date_injective {m n : Nat} (h : date m = date n) : m = n :=
  eq_of_lt_iff List.lt_irrefl (date_lt_iff m n) (date_lt_iff n m) h

/-- **Fields are in the order of time.** -/
theorem fields_lt_iff (m n : Nat) : fields m < fields n ↔ m < n := by
  have heq : date (m / dayLength) = date (n / dayLength) ↔ m / dayLength = n / dayLength := by
    constructor
    · exact date_injective
    · intro h
      rw [h]
  have hlen : (date (m / dayLength)).length = (date (n / dayLength)).length := rfl
  rw [fields, fields, append_lt_append_iff hlen, date_lt_iff, timeOfDay_lt_iff, heq]
  unfold dayLength
  omega

theorem instant_fields (n : Nat) : instant (fields n) = some n := by
  obtain ⟨year, month, mday, hdate, hmonth, hmday, hyday, hday⟩ := date_parts (n / dayLength)
  have hfields : fields n = [year, month + 1, mday + 1, n % dayLength / 3600000000000,
      n % dayLength / 60000000000 % 60, n % dayLength / 1000000000 % 60,
      n % dayLength % 1000000000] := by
    rw [fields, hdate]
    rfl
  have hvalid : (1 ≤ month + 1 ∧ month + 1 ≤ 12) ∧
      (1 ≤ mday + 1 ∧ mday + 1 ≤ monthLength (isLeap year) (month + 1 - 1)) ∧
      n % dayLength / 3600000000000 < 24 ∧ n % dayLength / 60000000000 % 60 < 60 ∧
      n % dayLength / 1000000000 % 60 < 60 ∧ n % dayLength % 1000000000 < 1000000000 := by
    rw [Nat.add_sub_cancel]
    unfold dayLength
    omega
  have hdayOf : dayOf year (month + 1) (mday + 1) = n / dayLength := by
    rw [dayOf, Nat.add_sub_cancel, Nat.add_sub_cancel, hday, Nat.add_assoc]
  rw [hfields, instant, if_pos hvalid, hdayOf]
  unfold dayLength
  congr 1
  omega

/-- The year, for an instant before the start of another. -/
theorem yearOf_lt {day year : Nat} (h : day < yearStart year) : yearOf day < year := by
  by_contra hge
  have hmono : yearStart year ≤ yearStart (yearOf day) := yearStart_mono (not_lt.mp hge)
  have hle := (yearStart_yearOf day).1
  omega

/-- Each field has the digits it is usually written with. -/
theorem fields_fit {n : Nat} (h : n / dayLength < yearStart 10000) :
    List.Forall₂ (fun w v => v < 10 ^ w) [4, 2, 2, 2, 2, 2, 9] (fields n) := by
  obtain ⟨year, month, mday, hdate, hmonth, hmday, _, _⟩ := date_parts (n / dayLength)
  have hyear : year < 10000 := by
    have hlt := yearOf_lt h
    have heq : yearOf (n / dayLength) = year := (List.cons.inj hdate).1
    rwa [heq] at hlt
  have hlength : monthLength (isLeap year) month ≤ 31 := by
    interval_cases month <;> cases isLeap year <;> decide
  have htime : n % dayLength < 86400000000000 := Nat.mod_lt n (by decide)
  rw [fields, hdate]
  refine .cons hyear (.cons ?_ (.cons ?_ (.cons ?_ (.cons ?_ (.cons ?_ (.cons ?_ .nil))))))
  all_goals omega

end Ark.Lib.Calendar
