import Mathlib.Algebra.Order.Ring.Int
import Mathlib.Tactic.Linarith

/-! Numbers with places, such as the seconds, minutes and hours of a time.  The digit of `x` at a
place of the weight `unit` with `count` digits is `x / unit % count`.  To go to the next number
whose digit is one of a set, it is enough to look for the next digit. -/

namespace Places

/-- The next digit in the same turn. -/
theorem next_le {count p q v : Int} (hcount : 0 < count) (hpq : p ≤ q) (hv : v < count)
    (hskip : p % count ≤ q % count → v ≤ q % count) : p - p % count + v ≤ q := by
  have hp := Int.mul_ediv_add_emod p count
  have hq := Int.mul_ediv_add_emod q count
  have hq0 := Int.emod_nonneg q hcount.ne'
  rcases lt_trichotomy (p / count) (q / count) with h | h | h
  · have := mul_le_mul_of_nonneg_left (show p / count + 1 ≤ q / count by omega) hcount.le
    linarith
  · rw [h] at hp
    have := hskip (by linarith)
    linarith
  · have := Int.ediv_le_ediv hcount hpq
    omega

/-- The first digit of the next turn. -/
theorem wrap_le {count p q v : Int} (hcount : 0 < count) (hpq : p ≤ q)
    (hbefore : q % count < p % count) (hv : v ≤ q % count) : p - p % count + count + v ≤ q := by
  have hp := Int.mul_ediv_add_emod p count
  have hq := Int.mul_ediv_add_emod q count
  have hle := Int.ediv_le_ediv hcount hpq
  rcases hle.lt_or_eq with h | h
  · have := mul_le_mul_of_nonneg_left (show p / count + 1 ≤ q / count by omega) hcount.le
    linarith
  · rw [h] at hp
    linarith

/-- A bound for the number of units, and one for what is behind them. -/
theorem le_of_units {unit t q r : Int} (hunit : 0 < unit) (hq : q ≤ t / unit)
    (hr : r ≤ t % unit) : unit * q + r ≤ t := by
  have ht := Int.mul_ediv_add_emod t unit
  have := mul_le_mul_of_nonneg_left hq hunit.le
  linarith

end Places
