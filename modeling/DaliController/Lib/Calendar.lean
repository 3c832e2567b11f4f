import Mathlib.Tactic.ByContra
import Mathlib.Tactic.SplitIfs

/-! The Gregorian calendar on the integers.  Days count from the first of January 1970, and months
from the January of the year zero, so that month `12 * y + m` is the month `m` of the year `y`. -/

namespace Calendar

/-- The day on which the year starts, for years that start in March and days that count from the
first of March of the year zero. -/
def yearStart (y : Int) : Int := 365 * y + y / 4 - y / 100 + y / 400

/-- The days of a year before its month `m`, from March on. -/
def daysBefore (m : Int) : Int := (153 * m + 2) / 5

/-- The first day of a month. -/
def monthStart (n : Int) : Int :=
  yearStart ((n - 2) / 12) + daysBefore ((n - 2) % 12) - 719468

/-- The year of a day that counts from the first of March of the year zero. -/
def yearOf (z : Int) : Int :=
  let y := 400 * z / 146097
  if z < yearStart y then y - 1 else if yearStart (y + 1) ≤ z then y + 1 else y

/-- The month of a day. -/
def monthOf (d : Int) : Int :=
  let y := yearOf (d + 719468)
  12 * y + (5 * (d + 719468 - yearStart y) + 2) / 153 + 2

/-- The day of the month, from 1 on. -/
def dayOf (d : Int) : Int := d - monthStart (monthOf d) + 1

/-- The day of the week, from Sunday on. -/
def weekdayOf (d : Int) : Int := (d + 4) % 7

theorem yearOf_spec (z : Int) : yearStart (yearOf z) ≤ z ∧ z < yearStart (yearOf z + 1) := by
  simp only [yearOf]
  split_ifs with hlow hhigh
  · constructor
    · simp only [yearStart] at *
      omega
    · simpa using hlow
  · constructor
    · exact hhigh
    · simp only [yearStart] at *
      omega
  · omega

/-- A year has 365 or 366 days. -/
theorem yearStart_succ (y : Int) :
    yearStart y + 365 ≤ yearStart (y + 1) ∧ yearStart (y + 1) ≤ yearStart y + 366 := by
  simp only [yearStart]
  omega

/-- The month `m` of a year, from March on. -/
theorem monthStart_of_year {y m : Int} (hlow : 0 ≤ m) (hhigh : m < 12) :
    monthStart (12 * y + m + 2) = yearStart y + daysBefore m - 719468 := by
  have hyear : (12 * y + m + 2 - 2) / 12 = y := by omega
  have hmonth : (12 * y + m + 2 - 2) % 12 = m := by omega
  rw [monthStart, hyear, hmonth]

/-- Every month is one of a year. -/
theorem exists_month (n : Int) : ∃ y m, n = 12 * y + m + 2 ∧ 0 ≤ m ∧ m < 12 :=
  ⟨(n - 2) / 12, (n - 2) % 12, by omega, by omega, by omega⟩

theorem monthStart_next_year (y : Int) :
    monthStart (12 * y + 11 + 2 + 1) = yearStart (y + 1) - 719468 := by
  have h := monthStart_of_year (y := y + 1) (m := 0) (by omega) (by omega)
  rw [show 12 * y + 11 + 2 + 1 = 12 * (y + 1) + 0 + 2 by omega, h]
  simp [daysBefore]

theorem monthStart_next_month {y m : Int} (hlow : 0 ≤ m) (hhigh : m < 11) :
    monthStart (12 * y + m + 2 + 1) = yearStart y + daysBefore (m + 1) - 719468 := by
  rw [← monthStart_of_year (by omega) (by omega)]
  congr 1
  omega

/-- A month has 28 to 31 days. -/
theorem monthStart_succ (n : Int) :
    monthStart n + 28 ≤ monthStart (n + 1) ∧ monthStart (n + 1) ≤ monthStart n + 31 := by
  obtain ⟨y, m, rfl, hlow, hhigh⟩ := exists_month n
  rw [monthStart_of_year hlow hhigh]
  rcases (show m < 11 ∨ m = 11 by omega) with h | rfl
  · rw [monthStart_next_month hlow h]
    simp only [daysBefore]
    omega
  · have hyear := yearStart_succ y
    rw [monthStart_next_year]
    simp only [daysBefore]
    omega

theorem monthStart_lt_succ (n : Int) : monthStart n < monthStart (n + 1) := by
  have := monthStart_succ n
  omega

theorem monthStart_lt {m n : Int} (h : m < n) : monthStart m < monthStart n := by
  obtain ⟨k, rfl⟩ : ∃ k : Nat, n = m + 1 + k := ⟨(n - m - 1).toNat, by omega⟩
  clear h
  induction k with
  | zero => simpa using monthStart_lt_succ m
  | succ k ih =>
    have := monthStart_lt_succ (m + 1 + k)
    rw [Int.natCast_succ, ← Int.add_assoc]
    omega

theorem lt_of_monthStart_lt {m n : Int} (h : monthStart m < monthStart n) : m < n := by
  by_contra hle
  rcases (show n < m ∨ n = m by omega) with hlt | rfl
  · have := monthStart_lt hlt
    omega
  · omega

/-- One of two months that follow each other has 31 days. -/
theorem monthStart_long (n : Int) :
    monthStart (n + 1) = monthStart n + 31 ∨ monthStart (n + 1 + 1) = monthStart (n + 1) + 31 := by
  obtain ⟨y, m, rfl, hlow, hhigh⟩ := exists_month n
  rcases (show m < 10 ∨ m = 10 ∨ m = 11 by omega) with h | rfl | rfl
  · have hnext := monthStart_next_month (y := y) (m := m + 1) (by omega) (by omega)
    rw [show 12 * y + m + 2 + 1 + 1 = 12 * y + (m + 1) + 2 + 1 by omega, hnext,
      monthStart_next_month hlow (by omega), monthStart_of_year hlow hhigh]
    simp only [daysBefore]
    omega
  · left
    rw [monthStart_next_month hlow (by omega), monthStart_of_year hlow hhigh]
    simp only [daysBefore]
    omega
  · right
    have hmarch := monthStart_of_year (y := y + 1) (m := 0) (by omega) (by omega)
    have hapril := monthStart_next_month (y := y + 1) (m := 0) (by omega) (by omega)
    rw [show 12 * y + 11 + 2 + 1 = 12 * (y + 1) + 0 + 2 by omega, hmarch, hapril]
    simp only [daysBefore]
    omega

/-- A day is in its month. -/
theorem monthOf_spec (d : Int) : monthStart (monthOf d) ≤ d ∧ d < monthStart (monthOf d + 1) := by
  obtain ⟨hlow, hhigh⟩ := yearOf_spec (d + 719468)
  have hlength := yearStart_succ (yearOf (d + 719468))
  simp only [monthOf]
  generalize yearOf (d + 719468) = y at *
  obtain ⟨m, hm⟩ : ∃ m, m = (5 * (d + 719468 - yearStart y) + 2) / 153 := ⟨_, rfl⟩
  rw [← hm, monthStart_of_year (by omega) (by omega)]
  rcases (show m < 11 ∨ m = 11 by omega) with h | rfl
  · rw [monthStart_next_month (by omega) h]
    simp only [daysBefore]
    omega
  · rw [monthStart_next_year]
    simp only [daysBefore]
    omega

/-- A day is in no other month. -/
theorem monthOf_unique {n d : Int} (hlow : monthStart n ≤ d) (hhigh : d < monthStart (n + 1)) :
    monthOf d = n := by
  obtain ⟨hlow', hhigh'⟩ := monthOf_spec d
  have h1 : n < monthOf d + 1 := lt_of_monthStart_lt (by omega)
  have h2 : monthOf d < n + 1 := lt_of_monthStart_lt (by omega)
  omega

theorem monthStart_dayOf (d : Int) : monthStart (monthOf d) + dayOf d - 1 = d := by
  simp only [dayOf]
  omega

theorem dayOf_bounds (d : Int) : 1 ≤ dayOf d ∧ dayOf d ≤ 31 := by
  have hmonth := monthOf_spec d
  have hlength := monthStart_succ (monthOf d)
  simp only [dayOf]
  omega

/-- Less than four weeks later the day of the month is another one. -/
theorem dayOf_ne {d k : Int} (hpos : 0 < k) (hlt : k < 28) : dayOf (d + k) ≠ dayOf d := by
  have hd := monthOf_spec d
  have hk := monthOf_spec (d + k)
  intro h
  simp only [dayOf] at h
  rcases eq_or_ne (monthOf (d + k)) (monthOf d) with heq | hne
  · rw [heq] at h
    omega
  · have hlater : monthOf d < monthOf (d + k) + 1 :=
      lt_of_monthStart_lt (by omega)
    have hnext := monthStart_succ (monthOf d)
    rcases (show monthOf d + 1 < monthOf (d + k) ∨ monthOf d + 1 = monthOf (d + k) by omega) with
      hlt | heq
    · have := monthStart_lt hlt
      omega
    · rw [heq] at hnext
      omega

/-- Every day of the month comes within two months. -/
theorem exists_dayOf {v : Int} (hlow : 1 ≤ v) (hhigh : v ≤ 31) (d : Int) :
    ∃ k, 0 < k ∧ k ≤ 93 ∧ dayOf (d + k) = v := by
  have hd := monthOf_spec d
  have h0 := monthStart_succ (monthOf d)
  have h1 := monthStart_succ (monthOf d + 1)
  -- a later month of 31 days
  obtain ⟨n, hafter, hnear, hlong⟩ : ∃ n, d < monthStart n ∧ monthStart n ≤ d + 62 ∧
      monthStart (n + 1) = monthStart n + 31 := by
    rcases monthStart_long (monthOf d + 1) with hlong | hlong
    · exact ⟨monthOf d + 1, by omega, by omega, hlong⟩
    · exact ⟨monthOf d + 1 + 1, by omega, by omega, hlong⟩
  refine ⟨monthStart n + v - 1 - d, by omega, by omega, ?_⟩
  rw [show d + (monthStart n + v - 1 - d) = monthStart n + v - 1 by omega, dayOf,
    monthOf_unique (n := n) (by omega) (by omega)]
  omega

end Calendar
