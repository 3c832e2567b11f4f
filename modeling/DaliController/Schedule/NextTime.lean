import DaliController.Lib.Places
import DaliController.Schedule.CronNext
import Mathlib.Data.Int.LeastGreatest

/-! `cron_next` finds the next time of an expression whose seconds are a range, which leaves open
the month and one of the two days, and which has a minute and an hour. -/

namespace DaliController.Schedule

open Calendar

/-! ### What is to hold -/

/-- A time of the calendar that the expression sets. -/
structure CronExpr.Matches (expr : CronExpr) (tm : Tm) : Prop where
  second : cronGetBit expr.seconds tm.sec = true
  minute : cronGetBit expr.minutes tm.min = true
  hour : cronGetBit expr.hours tm.hour = true
  dayOfMonth : cronGetBit expr.daysOfMonth tm.mday = true
  dayOfWeek : cronGetBit expr.daysOfWeek tm.wday = true
  month : cronGetBit expr.months tm.mon = true

/-- Some of the values below `max` are set. -/
def SomeSet (bits : List UInt8) (max : Nat) : Prop := ∃ i < max, cronGetBit bits i = true

structure CronExpr.Regular (expr : CronExpr) : Prop where
  seconds : SomeSet expr.seconds 60
  /-- The seconds are a range. -/
  range : ∀ i j k, i < j → j < k → k < 60 → cronGetBit expr.seconds i = true →
    cronGetBit expr.seconds k = true → cronGetBit expr.seconds j = true
  minutes : SomeSet expr.minutes 60
  hours : SomeSet expr.hours 24
  days : (∃ v, 1 ≤ v ∧ v ≤ 31 ∧ cronGetBit expr.daysOfMonth v = true) ∧
      (∀ w < 7, cronGetBit expr.daysOfWeek w = true) ∨
    (∀ v, 1 ≤ v → v ≤ 31 → cronGetBit expr.daysOfMonth v = true) ∧ SomeSet expr.daysOfWeek 7
  months : ∀ m < 12, cronGetBit expr.months m = true

/-! ### The next bit -/

theorem nextSetBit_eq_some {bits : List UInt8} {max n v : Nat}
    (h : nextSetBit bits max n = some v) :
    n ≤ v ∧ v < max ∧ cronGetBit bits v = true ∧
      ∀ i, n ≤ i → i < v → cronGetBit bits i = false := by
  obtain ⟨hbit, hmem, hbefore⟩ := List.find?_range'_eq_some.mp h
  rw [List.mem_range'_1] at hmem
  exact ⟨hmem.1, by omega, hbit, fun i hni hiv => by simpa using hbefore i hni hiv⟩

theorem nextSetBit_eq_none {bits : List UInt8} {max n : Nat} (h : nextSetBit bits max n = none) :
    ∀ i, n ≤ i → i < max → cronGetBit bits i = false := by
  intro i hni hi
  have := List.find?_eq_none.mp h i (by simp only [List.mem_range'_1]; omega)
  simpa using this

theorem nextSetBit_self {bits : List UInt8} {max n : Nat} (hn : n < max)
    (hbit : cronGetBit bits n = true) : nextSetBit bits max n = some n := by
  rw [nextSetBit, show max - n = (max - n - 1) + 1 by omega, List.range'_succ,
    List.find?_cons_of_pos hbit]

/-! ### Times -/

theorem timeOf_tmOf (t : Int) : timeOf (tmOf t) = t := by
  have hday := monthStart_dayOf (t / 86400)
  have hbounds := dayOf_bounds (t / 86400)
  have hmonth : 12 * (monthOf (t / 86400) / 12 - 1900 + 1900) +
      ((monthOf (t / 86400) % 12).toNat : Int) = monthOf (t / 86400) := by omega
  simp only [timeOf, tmOf, hmonth]
  omega

section

variable {zone : Int}

theorem settle_eq {calendar : Tm} {t : Int} (ht : timeOf calendar = t) (hzone : zone ≤ t) :
    settle zone calendar = .ok (tmOf t) := by
  simp only [settle, cronMktime, ht]
  rw [if_neg (by omega)]

/-- The fields of the time of day, from the smallest on. -/
def CalendarField.Clock (f : CalendarField) : Prop := f = .second ∨ f = .minute ∨ f = .hourOfDay

def CalendarField.unit : CalendarField → Int
  | .second => 1
  | .minute => 60
  | .hourOfDay => 3600
  | _ => 86400

def CalendarField.count : CalendarField → Nat
  | .second | .minute => 60
  | _ => 24

/-- The field that `do_next` moves when this one rolls over. -/
def CalendarField.next : CalendarField → CalendarField
  | .second => .minute
  | .minute => .hourOfDay
  | _ => .dayOfWeek

def CalendarField.digit (f : CalendarField) (t : Int) : Int := t / f.unit % f.count

theorem addToField_next {f : CalendarField} (hf : f.Clock) {u : Int} (hzone : zone ≤ u) :
    addToField zone (tmOf u) f.next 1 = .ok (tmOf (u + f.unit * f.count)) := by
  have hu := timeOf_tmOf u
  rcases hf with rfl | rfl | rfl
  all_goals
    refine settle_eq ?_ (by simp only [CalendarField.unit, CalendarField.count]; omega)
    simp only [timeOf, CalendarField.next, CalendarField.unit, CalendarField.count] at hu ⊢
    omega

theorem setField_clock {f : CalendarField} (hf : f.Clock) {u : Int} {v : Nat}
    (hzone : zone ≤ u - f.unit * f.digit u + f.unit * v) :
    setField zone (tmOf u) f v = .ok (tmOf (u - f.unit * f.digit u + f.unit * v)) := by
  have hu := timeOf_tmOf u
  rcases hf with rfl | rfl | rfl
  all_goals
    refine settle_eq ?_ hzone
    simp only [timeOf, tmOf, CalendarField.unit, CalendarField.count, CalendarField.digit] at hu ⊢
    omega

theorem resetMin_clock {f : CalendarField} (hf : f.Clock) {u : Int}
    (hzone : zone ≤ u - f.unit * f.digit u) :
    resetMin zone (tmOf u) f = .ok (tmOf (u - f.unit * f.digit u)) := by
  have hu := timeOf_tmOf u
  rcases hf with rfl | rfl | rfl
  all_goals
    refine settle_eq ?_ hzone
    simp only [timeOf, tmOf, CalendarField.unit, CalendarField.count, CalendarField.digit] at hu ⊢
    omega

/-- The time after a reset of the fields. -/
def resetTime : List CalendarField → Int → Int
  | [], u => u
  | f :: fs, u => resetTime fs (u - f.unit * f.digit u)

theorem CalendarField.Clock.unit_pos {f : CalendarField} (hf : f.Clock) : 0 < f.unit := by
  rcases hf with rfl | rfl | rfl <;> decide

theorem CalendarField.Clock.count_pos {f : CalendarField} (hf : f.Clock) : 0 < f.count := by
  rcases hf with rfl | rfl | rfl <;> decide

theorem CalendarField.Clock.digit_nonneg {f : CalendarField} (hf : f.Clock) (u : Int) :
    0 ≤ f.digit u :=
  Int.emod_nonneg _ (by have := hf.count_pos; omega)

theorem CalendarField.Clock.digit_lt {f : CalendarField} (hf : f.Clock) (u : Int) :
    f.digit u < f.count :=
  Int.emod_lt_of_pos _ (by have := hf.count_pos; omega)

theorem resetTime_le {fs : List CalendarField} (hfs : ∀ f ∈ fs, f.Clock) (u : Int) :
    resetTime fs u ≤ u := by
  induction fs generalizing u with
  | nil => exact le_refl _
  | cons f fs ih =>
    have hf := hfs f List.mem_cons_self
    have := ih (fun g hg => hfs g (List.mem_cons_of_mem f hg)) (u - f.unit * f.digit u)
    have := mul_nonneg hf.unit_pos.le (hf.digit_nonneg u)
    simp only [resetTime]
    omega

theorem resetAllMin_clock {fs : List CalendarField} (hfs : ∀ f ∈ fs, f.Clock) {u : Int}
    (hzone : zone ≤ resetTime fs u) :
    resetAllMin zone (tmOf u) fs = .ok (tmOf (resetTime fs u)) := by
  induction fs generalizing u with
  | nil => rfl
  | cons f fs ih =>
    have hfs' : ∀ g ∈ fs, g.Clock := fun g hg => hfs g (List.mem_cons_of_mem f hg)
    have hle := resetTime_le hfs' (u - f.unit * f.digit u)
    rw [resetAllMin, resetMin_clock (hfs f List.mem_cons_self) (hzone.trans hle)]
    exact ih hfs' hzone

/-! ### The next value of a field -/

theorem ok_bind {ε α β : Type} (a : α) (f : α → Except ε β) : (Except.ok a >>= f) = f a := rfl

theorem findNext_self {bits : List UInt8} {max n : Nat} {calendar : Tm}
    {field nextField : CalendarField} {lowerOrders : List CalendarField} (hn : n < max)
    (hbit : cronGetBit bits n = true) :
    findNext zone bits max n calendar field nextField lowerOrders = .ok (n, calendar) := by
  simp [findNext, nextSetBit_self hn hbit]
  rfl

/-- A time of as many units. -/
theorem CalendarField.Clock.units {f : CalendarField} (hf : f.Clock) {q s : Int} (hs0 : 0 ≤ s)
    (hs : s < f.unit) :
    (f.unit * q + s) / f.unit = q ∧ (f.unit * q + s) % f.unit = s ∧
      f.digit (f.unit * q + s) = q % f.count := by
  have hunit := hf.unit_pos
  have hdiv : (f.unit * q + s) / f.unit = q := by
    rw [Int.mul_add_ediv_left _ _ hunit.ne', Int.ediv_eq_zero_of_lt hs0 hs, add_zero]
  refine ⟨hdiv, ?_, by rw [CalendarField.digit, hdiv]⟩
  rw [Int.mul_add_emod_self_left, Int.emod_eq_of_lt hs0 hs]

/-- `find_next` has moved the calendar from `u` to `u'`, because the value `d` is not set: to the
first time with a set value `v`, or to `r` seconds behind it. -/
structure Moved (f : CalendarField) (bits : List UInt8) (r : Int) (d v : Nat) (u u' : Int) :
    Prop where
  later : u < u'
  digit : f.digit u' = v
  rest : u' % f.unit = r
  bit : cronGetBit bits v = true
  first : ∀ i < f.count, cronGetBit bits i = true → i < v → i < d ∧ d < v
  skips : ∀ t, u ≤ t → cronGetBit bits (f.digit t).toNat = true → r ≤ t % f.unit → u' ≤ t

theorem units_later {f : CalendarField} (hf : f.Clock) {u q s : Int} (hs : 0 ≤ s)
    (hq : u / f.unit < q) : u < f.unit * q + s := by
  have hu := Int.mul_ediv_add_emod u f.unit
  have hlt := Int.emod_lt_of_pos u hf.unit_pos
  have := mul_le_mul_of_nonneg_left (show u / f.unit + 1 ≤ q by omega) hf.unit_pos.le
  linarith

theorem moved_of_units {f : CalendarField} (hf : f.Clock) {bits : List UInt8} {d v : Nat}
    {u r q : Int} (hr0 : 0 ≤ r) (hrlt : r < f.unit) (hq : u / f.unit < q) (hv : q % f.count = v)
    (hbit : cronGetBit bits v = true)
    (hfirst : ∀ i < f.count, cronGetBit bits i = true → i < v → i < d ∧ d < v)
    (hskips : ∀ p, u / f.unit ≤ p → cronGetBit bits (p % f.count).toNat = true → q ≤ p) :
    Moved f bits r d v u (f.unit * q + r) := by
  obtain ⟨-, hrest, hdigit⟩ := hf.units (q := q) hr0 hrlt
  refine ⟨?_, hdigit.trans hv, hrest, hbit, hfirst, ?_⟩
  · exact units_later hf hr0 hq
  · intro t hut hset ht
    have hle := hskips (t / f.unit) (Int.ediv_le_ediv hf.unit_pos hut) hset
    exact Places.le_of_units hf.unit_pos hle ht

/-- The end of `find_next`: the field is set, and those below it are reset. -/
theorem setField_reset {f : CalendarField} (hf : f.Clock) {lower : List CalendarField} {v : Nat}
    {u r q x : Int} (hlower : ∀ g ∈ lower, g.Clock) (hr0 : 0 ≤ r)
    (hr : ∀ x, x % f.unit = u % f.unit → resetTime lower x = x - x % f.unit + r)
    (hzone : zone ≤ u) (hq : u / f.unit < q)
    (hx : x - f.unit * f.digit x + f.unit * v = f.unit * q + u % f.unit) :
    setField zone (tmOf x) f v = .ok (tmOf (f.unit * q + u % f.unit)) ∧
      resetAllMin zone (tmOf (f.unit * q + u % f.unit)) lower = .ok (tmOf (f.unit * q + r)) := by
  have hs0 := Int.emod_nonneg u hf.unit_pos.ne'
  obtain ⟨-, hrest, -⟩ := hf.units (q := q) hs0 (Int.emod_lt_of_pos u hf.unit_pos)
  have hset := units_later hf hs0 hq
  have hreset := units_later hf hr0 hq
  have hrx : resetTime lower (f.unit * q + u % f.unit) = f.unit * q + r := by
    rw [hr _ hrest, hrest]
    omega
  rw [setField_clock hf (by omega), hx, resetAllMin_clock hlower (by omega), hrx]
  exact ⟨rfl, rfl⟩

/-- When a set value comes later in the same turn. -/
theorem findNext_later {f : CalendarField} (hf : f.Clock) {bits : List UInt8}
    {lower : List CalendarField} {d v : Nat} {u r : Int} (hd : f.digit u = d)
    (hlower : ∀ g ∈ lower, g.Clock) (hr0 : 0 ≤ r) (hrlt : r < f.unit)
    (hr : ∀ x, x % f.unit = u % f.unit → resetTime lower x = x - x % f.unit + r)
    (hzone : zone ≤ u) (hnot : cronGetBit bits d = false)
    (hfound : nextSetBit bits f.count d = some v) :
    ∃ u', findNext zone bits f.count d (tmOf u) f f.next lower = .ok (v, tmOf u') ∧
      Moved f bits r d v u u' := by
  obtain ⟨hdv, hv, hbit, hbetween⟩ := nextSetBit_eq_some hfound
  have hne : v ≠ d := fun h => by rw [h, hnot] at hbit; cases hbit
  have hp : u / f.unit % f.count = d := hd
  have hturn := Int.mul_ediv_add_emod (u / f.unit) f.count
  obtain ⟨q, hq⟩ : ∃ q, q = u / f.unit - u / f.unit % f.count + v := ⟨_, rfl⟩
  have hlater : u / f.unit < q := by omega
  have hset : u - f.unit * f.digit u + f.unit * v = f.unit * q + u % f.unit := by
    have hu := Int.mul_ediv_add_emod u f.unit
    rw [hq, hd, hp]
    linarith
  refine ⟨f.unit * q + r, ?_, moved_of_units hf hr0 hrlt hlater ?_ hbit ?_ ?_⟩
  · obtain ⟨hfield, hreset⟩ := setField_reset hf hlower hr0 hr hzone hlater hset
    simp only [findNext, hfound, Option.isNone_some, Option.getD_some, hne, ne_eq,
      not_false_eq_true, or_true, if_true, Bool.false_eq_true, if_false, pure_bind, hfield, ok_bind,
      hreset]
    rfl
  · rw [hq, show u / f.unit - u / f.unit % f.count + (v : Int) =
      v + f.count * (u / f.unit / f.count) by omega, Int.add_mul_emod_self_left,
      Int.emod_eq_of_lt (by omega) (by omega)]
  · intro i hi hibit hiv
    by_contra hcontra
    have := hbetween i (by omega) hiv
    rw [this] at hibit
    cases hibit
  · intro p hp' hpbit
    rw [hq]
    refine Places.next_le (by have := hf.count_pos; omega) hp' (by omega) fun hle => ?_
    by_contra hcontra
    have := hbetween (p % f.count).toNat (by omega) (by omega)
    rw [this] at hpbit
    cases hpbit

/-- When the field rolls over. -/
theorem findNext_wrap {f : CalendarField} (hf : f.Clock) {bits : List UInt8}
    {lower : List CalendarField} {d v : Nat} {u r : Int} (hd : f.digit u = d)
    (hlower : ∀ g ∈ lower, g.Clock) (hr0 : 0 ≤ r) (hrlt : r < f.unit)
    (hr : ∀ x, x % f.unit = u % f.unit → resetTime lower x = x - x % f.unit + r)
    (hzone : zone ≤ u) (hnot : cronGetBit bits d = false)
    (hnone : nextSetBit bits f.count d = none) (hfound : nextSetBit bits f.count 0 = some v) :
    ∃ u', findNext zone bits f.count d (tmOf u) f f.next lower = .ok (v, tmOf u') ∧
      Moved f bits r d v u u' := by
  obtain ⟨-, hv, hbit, hbefore⟩ := nextSetBit_eq_some hfound
  have hend := nextSetBit_eq_none hnone
  have hne : v ≠ d := fun h => by rw [h, hnot] at hbit; cases hbit
  have hp : u / f.unit % f.count = d := hd
  have hturn := Int.mul_ediv_add_emod (u / f.unit) f.count
  have hcount := hf.count_pos
  have hdlt := hf.digit_lt u
  obtain ⟨q, hq⟩ : ∃ q, q = u / f.unit - u / f.unit % f.count + f.count + v := ⟨_, rfl⟩
  have hlater : u / f.unit < q := by omega
  have hu := Int.mul_ediv_add_emod u f.unit
  have hs0 := Int.emod_nonneg u hf.unit_pos.ne'
  have hs := Int.emod_lt_of_pos u hf.unit_pos
  have hnext : u + f.unit * f.count = f.unit * (u / f.unit + f.count) + u % f.unit := by linarith
  refine ⟨f.unit * q + r, ?_, moved_of_units hf hr0 hrlt hlater ?_ hbit ?_ ?_⟩
  · obtain ⟨b, hb⟩ : ∃ b, b = u / f.unit - u / f.unit % f.count + f.count := ⟨_, rfl⟩
    -- the digit before the roll-over, and the one behind it
    have hbefore : f.digit (u + f.unit * f.count) = u / f.unit % f.count := by
      rw [hnext, (hf.units hs0 hs).2.2, Int.add_emod_right]
    have hzero : f.digit (f.unit * b + u % f.unit) = 0 := by
      rw [(hf.units hs0 hs).2.2, hb, show u / f.unit - u / f.unit % f.count + f.count =
        f.count * (u / f.unit / f.count + 1) by rw [mul_add]; omega, Int.mul_emod_right]
    have hreset : resetMin zone (tmOf (u + f.unit * f.count)) f =
        .ok (tmOf (f.unit * b + u % f.unit)) := by
      have hb' : u + f.unit * f.count - f.unit * f.digit (u + f.unit * f.count) =
          f.unit * b + u % f.unit := by
        rw [hbefore, hb]
        linarith
      have hlow : u < f.unit * b + u % f.unit := units_later hf hs0 (by omega)
      rw [resetMin_clock hf (by omega), hb']
    obtain ⟨hfield, hall⟩ := setField_reset (v := v) (x := f.unit * b + u % f.unit) hf hlower hr0
      hr hzone hlater (by rw [hzero, hq, hb]; linarith)
    simp only [findNext, hnone, Option.isNone_none, hfound, Option.isNone_some, Option.getD_some,
      hne, ne_eq, not_false_eq_true, or_true, if_true, Bool.false_eq_true, pure_bind,
      addToField_next hf hzone, hreset, hfield, ok_bind, hall]
    rfl
  · rw [hq, show u / f.unit - u / f.unit % f.count + f.count + (v : Int) =
      v + f.count * (u / f.unit / f.count + 1) by rw [mul_add]; omega, Int.add_mul_emod_self_left,
      Int.emod_eq_of_lt (by omega) (by omega)]
  · intro i hi hibit hiv
    have := hbefore i (Nat.zero_le i) hiv
    rw [this] at hibit
    cases hibit
  · intro p hp' hpbit
    have hp0 := Int.emod_nonneg p (show (f.count : Int) ≠ 0 by omega)
    have hplt := Int.emod_lt_of_pos p (show 0 < (f.count : Int) by omega)
    rw [hq]
    refine Places.wrap_le (by omega) hp' ?_ ?_
    · by_contra hcontra
      have := hend (p % f.count).toNat (by omega) (by omega)
      rw [this] at hpbit
      cases hpbit
    · by_contra hcontra
      have := hbefore (p % f.count).toNat (by omega) (by omega)
      rw [this] at hpbit
      cases hpbit

variable (zone) in
theorem findNext_clock {f : CalendarField} (hf : f.Clock) {bits : List UInt8}
    (lower : List CalendarField) {d : Nat} {u r : Int} (hd : f.digit u = d)
    (hlower : ∀ g ∈ lower, g.Clock) (hr0 : 0 ≤ r) (hrlt : r < f.unit)
    (hr : ∀ x, x % f.unit = u % f.unit → resetTime lower x = x - x % f.unit + r)
    (hzone : zone ≤ u) (hsome : SomeSet bits f.count) (hnot : cronGetBit bits d = false) :
    ∃ v u', findNext zone bits f.count d (tmOf u) f f.next lower = .ok (v, tmOf u') ∧
      Moved f bits r d v u u' := by
  cases hfound : nextSetBit bits f.count d with
  | some v => exact ⟨v, findNext_later hf hd hlower hr0 hrlt hr hzone hnot hfound⟩
  | none =>
    cases hwrap : nextSetBit bits f.count 0 with
    | some v => exact ⟨v, findNext_wrap hf hd hlower hr0 hrlt hr hzone hnot hfound hwrap⟩
    | none =>
      obtain ⟨i, hi, hbit⟩ := hsome
      have := nextSetBit_eq_none hwrap i (Nat.zero_le i) hi
      rw [this] at hbit
      cases hbit

/-! ### The next day -/

/-- Both fields of a day are set. -/
def CronExpr.Day (expr : CronExpr) (d : Int) : Prop :=
  cronGetBit expr.daysOfMonth (dayOf d).toNat = true ∧
    cronGetBit expr.daysOfWeek (weekdayOf d).toNat = true

theorem addToField_day {u : Int} (hzone : zone ≤ u) :
    addToField zone (tmOf u) .dayOfMonth 1 = .ok (tmOf (u + 86400)) :=
  addToField_next (.inr (.inr rfl)) hzone

theorem findNextDay_self {expr : CronExpr} {d : Int} (hday : expr.Day d)
    (resets : List CalendarField) (count : Nat) (calendar : Tm) :
    findNextDay zone expr.daysOfMonth expr.daysOfWeek resets count (dayOf d).toNat
      (weekdayOf d).toNat calendar = .ok ((dayOf d).toNat, calendar) := by
  cases count with
  | zero => rfl
  | succ count => simp [findNextDay, hday.1, hday.2]

/-- One round of the loop. -/
theorem findNextDay_next {expr : CronExpr} {resets : List CalendarField} {x y : Int}
    (hfs : ∀ f ∈ resets, f.Clock) (hzone : zone ≤ x) (hy : resetTime resets (x + 86400) = y)
    (hyzone : zone ≤ y) (hday : ¬expr.Day (x / 86400)) (count : Nat) :
    findNextDay zone expr.daysOfMonth expr.daysOfWeek resets (count + 1)
      (dayOf (x / 86400)).toNat (weekdayOf (x / 86400)).toNat (tmOf x) =
    findNextDay zone expr.daysOfMonth expr.daysOfWeek resets count
      (dayOf (x / 86400 + 1)).toNat (weekdayOf (x / 86400 + 1)).toNat (tmOf y) := by
  have hcond : (!cronGetBit expr.daysOfMonth (dayOf (x / 86400)).toNat ||
      !cronGetBit expr.daysOfWeek (weekdayOf (x / 86400)).toNat) = true := by
    simp only [CronExpr.Day, not_and_or, Bool.not_eq_true] at hday
    simpa using hday
  have hreset : resetAllMin zone (tmOf (x + 86400)) resets = .ok (tmOf y) := by
    rw [resetAllMin_clock hfs (by omega), hy]
  rw [findNextDay, if_pos hcond, addToField_day hzone, ok_bind, hreset]
  simp only [tmOf, show (x + 86400) / 86400 = x / 86400 + 1 by omega]

variable (zone) in
/-- The loop stops on the first day that is set. -/
theorem findNextDay_first {expr : CronExpr} {resets : List CalendarField} {s r e : Int}
    (hfs : ∀ f ∈ resets, f.Clock) (hr0 : 0 ≤ r) (hr60 : r < 60)
    (hr : ∀ x, x % 60 = s ∨ x % 60 = r → resetTime resets x = 86400 * (x / 86400) + r)
    (he : expr.Day e) (k : Nat) : ∀ (x : Int) (count : Nat), k < count →
      x % 60 = s ∨ x % 60 = r → zone ≤ x → e = x / 86400 + k + 1 →
      (∀ d, x / 86400 ≤ d → d < e → ¬expr.Day d) →
      findNextDay zone expr.daysOfMonth expr.daysOfWeek resets count (dayOf (x / 86400)).toNat
          (weekdayOf (x / 86400)).toNat (tmOf x) =
        .ok ((dayOf e).toNat, tmOf (86400 * e + r)) := by
  induction k with
  | zero =>
    intro x count hcount hx hzone hxe hbefore
    obtain ⟨count, rfl⟩ : ∃ c, count = c + 1 := ⟨count - 1, by omega⟩
    have hy : resetTime resets (x + 86400) = 86400 * e + r := by
      rw [hr _ (by omega)]
      omega
    rw [findNextDay_next hfs hzone hy (by omega) (hbefore _ (by omega) (by omega)),
      show x / 86400 + 1 = e by omega, findNextDay_self he]
  | succ k ih =>
    intro x count hcount hx hzone hxe hbefore
    obtain ⟨count, rfl⟩ : ∃ c, count = c + 1 := ⟨count - 1, by omega⟩
    obtain ⟨y, hy⟩ : ∃ y, y = 86400 * (x / 86400 + 1) + r := ⟨_, rfl⟩
    have hreset : resetTime resets (x + 86400) = y := by
      rw [hr _ (by omega)]
      omega
    rw [findNextDay_next hfs hzone hreset (by omega) (hbefore _ (by omega) (by omega)),
      show x / 86400 + 1 = y / 86400 by omega]
    exact ih y count (by omega) (by omega) (by omega) (by omega)
      fun d hd => hbefore d (by omega)

/-- From every day on there is one that is set, and the first one has another number. -/
theorem CronExpr.Regular.exists_day {expr : CronExpr} (h : expr.Regular) (d : Int) :
    ∃ e, d < e ∧ e ≤ d + 93 ∧ expr.Day e ∧
      (¬expr.Day d → ∀ e', d < e' → e' ≤ e → expr.Day e' → dayOf e' ≠ dayOf d) := by
  have hwday (e : Int) : (weekdayOf e).toNat < 7 := by
    simp only [weekdayOf]
    omega
  rcases h.days with ⟨⟨v, hlow, hhigh, hv⟩, hall⟩ | ⟨hall, w, hw, hbit⟩
  · obtain ⟨k, hk0, hk, hday⟩ :=
      exists_dayOf (v := v) (by omega) (by omega) d
    refine ⟨d + k, by omega, by omega, ⟨by rwa [hday], hall _ (hwday _)⟩, ?_⟩
    intro hd e' _ _ he' heq
    exact hd ⟨heq ▸ he'.1, hall _ (hwday d)⟩
  · have hmday (e : Int) := dayOf_bounds e
    have hw' : (weekdayOf (d + 1 + (w - d - 5) % 7)).toNat = w := by
      simp only [weekdayOf]
      omega
    refine ⟨d + 1 + (w - d - 5) % 7, by omega, by omega, ⟨?_, by rwa [hw']⟩, ?_⟩
    · have := hmday (d + 1 + (w - d - 5) % 7)
      exact hall _ (by omega) (by omega)
    · intro _ e' hlater hle _
      have := dayOf_ne (d := d) (k := e' - d) (by omega) (by omega)
      rwa [show d + (e' - d) = e' by omega] at this

theorem CronExpr.Regular.exists_first {expr : CronExpr} (h : expr.Regular) {d : Int}
    (hd : ¬expr.Day d) : ∃ e, d < e ∧ e ≤ d + 93 ∧ expr.Day e ∧ dayOf e ≠ dayOf d ∧
      ∀ d', d ≤ d' → d' < e → ¬expr.Day d' := by
  obtain ⟨e, hlater, hle, he, hne⟩ := h.exists_day d
  obtain ⟨m, ⟨hdm, hm⟩, hfirst⟩ :=
    Int.exists_least_of_bdd (P := fun e => d < e ∧ expr.Day e) ⟨d, fun _ hz => hz.1.le⟩
      ⟨e, hlater, he⟩
  have hme := hfirst e ⟨hlater, he⟩
  refine ⟨m, hdm, by omega, hm, hne hd m hdm hme hm, fun d' hdd' hd'm hd' => ?_⟩
  rcases hdd'.lt_or_eq with hlt | rfl
  · have := hfirst d' ⟨hlt, hd'⟩
    omega
  · exact hd hd'

/-- From every time on there is one that is set. -/
theorem CronExpr.Regular.exists_matches {expr : CronExpr} (h : expr.Regular) (u : Int) :
    ∃ t, u ≤ t ∧ expr.Matches (tmOf t) := by
  obtain ⟨sec, hsec, hsecond⟩ := h.seconds
  obtain ⟨min, hmin, hminute⟩ := h.minutes
  obtain ⟨hr, hhr, hhour⟩ := h.hours
  obtain ⟨e, hlater, -, he, -⟩ := h.exists_day (u / 86400)
  obtain ⟨t, ht⟩ : ∃ t : Int, t = 86400 * e + 3600 * hr + 60 * min + sec := ⟨_, rfl⟩
  have hday : t / 86400 = e := by omega
  refine ⟨t, by omega, ?_, ?_, ?_, ?_, ?_, ?_⟩
  · rwa [show (tmOf t).sec = sec by simp only [tmOf]; omega]
  · rwa [show (tmOf t).min = min by simp only [tmOf]; omega]
  · rwa [show (tmOf t).hour = hr by simp only [tmOf]; omega]
  · simpa only [tmOf, hday] using he.1
  · simpa only [tmOf, hday] using he.2
  · exact h.months _ (by simp only [tmOf]; omega)

/-- The next time of the expression from `u` on, in local time. -/
def CronExpr.NextFrom (expr : CronExpr) (u next : Int) : Prop :=
  IsLeast {t | u ≤ t ∧ expr.Matches (tmOf t)} next

theorem CronExpr.Regular.exists_nextFrom {expr : CronExpr} (h : expr.Regular) (u : Int) :
    ∃ next, expr.NextFrom u next := by
  obtain ⟨t, hut, ht⟩ := h.exists_matches u
  obtain ⟨next, hnext, hleast⟩ := Int.exists_least_of_bdd
    (P := fun t => u ≤ t ∧ expr.Matches (tmOf t)) ⟨u, fun _ hz => hz.1⟩ ⟨t, hut, ht⟩
  exact ⟨next, hnext, fun t ht => hleast t ht⟩

/-- The times that are skipped are not set. -/
theorem CronExpr.NextFrom.skip {expr : CronExpr} {u u' next : Int} (h : expr.NextFrom u next)
    (hle : u ≤ u') (hskip : ∀ t, u ≤ t → expr.Matches (tmOf t) → u' ≤ t) :
    expr.NextFrom u' next :=
  ⟨⟨hskip next h.1.1 h.1.2, h.1.2⟩, fun _ ht => h.2 ⟨hle.trans ht.1, ht.2⟩⟩

theorem CronExpr.NextFrom.eq_of_matches {expr : CronExpr} {u next : Int}
    (h : expr.NextFrom u next) (hu : expr.Matches (tmOf u)) : next = u :=
  le_antisymm (h.2 ⟨le_refl u, hu⟩) h.1.1

/-! ### The rest of `do_next` behind each field -/

section

variable (zone) (expr : CronExpr) (dot : Int) (anew : Tm → ExceptT Tm Option Tm)

def fromMonth (resets : List CalendarField) (calendar : Tm) : ExceptT Tm Option Tm := do
  let (updateMonth, next) ← findNext zone expr.months 12 calendar.mon calendar .month .year resets
  if calendar.mon ≠ updateMonth then
    if 4 < (next.year - dot) % 2 ^ 32 then throw next
    anew next
  else return next

def fromDay (resets : List CalendarField) (calendar : Tm) : ExceptT Tm Option Tm := do
  let (update, next) ← findNextDay zone expr.daysOfMonth expr.daysOfWeek resets 366 calendar.mday
    calendar.wday calendar
  let (resets, calendar) ← further anew calendar.mday update .dayOfMonth resets next
  fromMonth zone expr dot anew resets calendar

def fromHour (resets : List CalendarField) (calendar : Tm) : ExceptT Tm Option Tm := do
  let (update, next) ← findNext zone expr.hours 24 calendar.hour calendar .hourOfDay .dayOfWeek
    resets
  let (resets, calendar) ← further anew calendar.hour update .hourOfDay resets next
  fromDay zone expr dot anew resets calendar

def fromMinute (resets : List CalendarField) (calendar : Tm) : ExceptT Tm Option Tm := do
  let (update, next) ← findNext zone expr.minutes 60 calendar.min calendar .minute .hourOfDay
    resets
  let (resets, calendar) ← further anew calendar.min update .minute resets next
  fromHour zone expr dot anew resets calendar

theorem doNext_succ (rounds : Nat) (calendar : Tm) :
    doNext zone expr dot (rounds + 1) calendar = (do
      let (update, next) ← findNext zone expr.seconds 60 calendar.sec calendar .second .minute []
      fromMinute zone expr dot (doNext zone expr dot rounds)
        (if calendar.sec = update then [.second] else []) next) :=
  rfl

end

section

variable {expr : CronExpr} {dot : Int} {anew : Tm → ExceptT Tm Option Tm}

theorem lift_ok_bind {α β : Type} (a : α) (f : α → ExceptT Tm Option β) :
    ((liftM (Except.ok a : Except Tm α) : ExceptT Tm Option α) >>= f) = f a := rfl

theorem further_same {value : Nat} {field : CalendarField} {resets : List CalendarField}
    {calendar : Tm} : further anew value value field resets calendar =
      pure (pushToFieldsArr resets field, calendar) := if_pos rfl

theorem further_anew {value update : Nat} {field : CalendarField} {resets : List CalendarField}
    {calendar result : Tm} (hne : value ≠ update) (hanew : anew calendar = pure result) :
    further anew value update field resets calendar = pure (resets, result) := by
  rw [further, if_neg hne, hanew, pure_bind]

theorem fromMonth_eq (h : expr.Regular) (resets : List CalendarField) (u : Int) :
    fromMonth zone expr dot anew resets (tmOf u) = pure (tmOf u) := by
  have hmon : (tmOf u).mon < 12 := by
    simp only [tmOf]
    omega
  rw [fromMonth, findNext_self hmon (h.months _ hmon), lift_ok_bind]
  simp

theorem fromDay_eq (h : expr.Regular) {u : Int} (hday : expr.Day (u / 86400))
    (resets : List CalendarField) :
    fromDay zone expr dot anew resets (tmOf u) = pure (tmOf u) := by
  rw [fromDay, show (tmOf u).mday = (dayOf (u / 86400)).toNat from rfl,
    show (tmOf u).wday = (weekdayOf (u / 86400)).toNat from rfl,
    findNextDay_self hday resets 366 (tmOf u), lift_ok_bind]
  simp only [further_same, pure_bind]
  exact fromMonth_eq h _ u

theorem fromHour_eq (h : expr.Regular) {u : Int}
    (hhour : cronGetBit expr.hours (tmOf u).hour = true) (hday : expr.Day (u / 86400))
    (resets : List CalendarField) :
    fromHour zone expr dot anew resets (tmOf u) = pure (tmOf u) := by
  have hlt : (tmOf u).hour < 24 := by
    simp only [tmOf]
    omega
  rw [fromHour, findNext_self hlt hhour, lift_ok_bind]
  simp only [further_same, pure_bind]
  exact fromDay_eq h hday _

/-! ### One call of `do_next` -/

/-- The calendar is at `u`, with the second of a set time, and `do_next` is to come to `next`.  A
reset of the second, if there is one, leads to `r`. -/
structure Ready (zone : Int) (expr : CronExpr) (low : List CalendarField) (r u next : Int) :
    Prop where
  zone_le : zone ≤ u
  reset : low = [] ∧ r = u % 60 ∨ low = [.second] ∧ r = 0
  least : ∀ i < 60, cronGetBit expr.seconds i = true → r ≤ i
  second : cronGetBit expr.seconds (tmOf u).sec = true
  nextFrom : expr.NextFrom u next

variable {low : List CalendarField} {r u next : Int}

theorem Ready.bounds (h : Ready zone expr low r u next) : 0 ≤ r ∧ r < 60 := by
  rcases h.reset with ⟨-, rfl⟩ | ⟨-, rfl⟩ <;> omega

theorem Ready.clock (h : Ready zone expr low r u next) : ∀ f ∈ low, f.Clock := by
  rcases h.reset with ⟨rfl, -⟩ | ⟨rfl, -⟩
  · simp
  · simp [CalendarField.Clock]

theorem Ready.le_second (h : Ready zone expr low r u next) {t : Int}
    (ht : expr.Matches (tmOf t)) : r ≤ t % 60 := by
  have := h.least _ (show (tmOf t).sec < 60 by simp only [tmOf]; omega) ht.second
  simp only [tmOf] at this
  omega

/-- A search from a later time on comes to the same time. -/
def Anew (zone : Int) (expr : CronExpr) (anew : Tm → ExceptT Tm Option Tm) (u next : Int) : Prop :=
  ∀ u', u < u' → zone ≤ u' → expr.NextFrom u' next → anew (tmOf u') = pure (tmOf next)

/-- `find_next` has moved one of the fields of the time of day. -/
theorem Ready.anew_moved (hready : Ready zone expr low r u next)
    (hanew : Anew zone expr anew u next) {f : CalendarField} {bits : List UInt8} {d v : Nat}
    {u' : Int} (hmoved : Moved f bits r d v u u')
    (hmatch : ∀ t, expr.Matches (tmOf t) →
      cronGetBit bits (f.digit t).toNat = true ∧ r ≤ t % f.unit) :
    anew (tmOf u') = pure (tmOf next) :=
  hanew u' hmoved.later (hready.zone_le.trans hmoved.later.le)
    (hready.nextFrom.skip hmoved.later.le fun t hut ht =>
      hmoved.skips t hut (hmatch t ht).1 (hmatch t ht).2)

theorem Moved.ne {f : CalendarField} {bits : List UInt8} {d v : Nat} {u' : Int}
    (hmoved : Moved f bits r d v u u') (hnot : cronGetBit bits d = false) : d ≠ v := by
  rintro rfl
  have := hmoved.bit
  rw [hnot] at this
  cases this

theorem fromDay_ready (h : expr.Regular) (hready : Ready zone expr low r u next)
    (hanew : Anew zone expr anew u next)
    (hminute : cronGetBit expr.minutes (tmOf u).min = true)
    (hhour : cronGetBit expr.hours (tmOf u).hour = true) :
    fromDay zone expr dot anew (low ++ [.minute, .hourOfDay]) (tmOf u) = pure (tmOf next) := by
  by_cases hday : expr.Day (u / 86400)
  · have hmonth := h.months (tmOf u).mon (by simp only [tmOf]; omega)
    rw [hready.nextFrom.eq_of_matches
      ⟨hready.second, hminute, hhour, hday.1, hday.2, hmonth⟩, fromDay_eq h hday]
  · obtain ⟨e, hlater, hle, he, hne, hfirst⟩ := h.exists_first hday
    obtain ⟨hr0, hr60⟩ := hready.bounds
    have hreset : ∀ x, x % 60 = u % 60 ∨ x % 60 = r →
        resetTime (low ++ [.minute, .hourOfDay]) x = 86400 * (x / 86400) + r := by
      intro x hx
      rcases hready.reset with ⟨rfl, rfl⟩ | ⟨rfl, rfl⟩ <;>
      · simp only [List.nil_append, List.cons_append, resetTime, CalendarField.digit,
          CalendarField.unit, CalendarField.count]
        omega
    have hclock : ∀ f ∈ low ++ [.minute, .hourOfDay], f.Clock := by
      simpa [or_imp, forall_and, CalendarField.Clock] using hready.clock
    have hfound := findNextDay_first zone hclock hr0 hr60 hreset he
      (e - u / 86400 - 1).toNat u 366 (by omega) (.inl rfl) hready.zone_le (by omega) hfirst
    have hmday : (dayOf (u / 86400)).toNat ≠ (dayOf e).toNat := by
      have := dayOf_bounds e
      have := dayOf_bounds (u / 86400)
      omega
    have hskip : ∀ t, u ≤ t → expr.Matches (tmOf t) → 86400 * e + r ≤ t := by
      intro t hut ht
      have hsecond := hready.le_second ht
      have hnot : ¬t / 86400 < e :=
        fun hlt => hfirst _ (by omega) hlt ⟨ht.dayOfMonth, ht.dayOfWeek⟩
      omega
    have hagain := hanew (86400 * e + r) (by omega) (by have := hready.zone_le; omega)
      (hready.nextFrom.skip (by omega) hskip)
    rw [fromDay, show (tmOf u).mday = (dayOf (u / 86400)).toNat from rfl,
      show (tmOf u).wday = (weekdayOf (u / 86400)).toNat from rfl, hfound, lift_ok_bind]
    simp only [further_anew hmday hagain, pure_bind]
    exact fromMonth_eq h _ _

theorem fromHour_ready (h : expr.Regular) (hready : Ready zone expr low r u next)
    (hanew : Anew zone expr anew u next)
    (hminute : cronGetBit expr.minutes (tmOf u).min = true) :
    fromHour zone expr dot anew (low ++ [.minute]) (tmOf u) = pure (tmOf next) := by
  have hlt : (tmOf u).hour < 24 := by
    simp only [tmOf]
    omega
  have hpush : pushToFieldsArr (low ++ [.minute]) .hourOfDay = low ++ [.minute, .hourOfDay] := by
    rcases hready.reset with ⟨rfl, -⟩ | ⟨rfl, -⟩ <;> rfl
  by_cases hhour : cronGetBit expr.hours (tmOf u).hour = true
  · rw [fromHour, findNext_self hlt hhour, lift_ok_bind]
    simp only [further_same, pure_bind, hpush]
    exact fromDay_ready h hready hanew hminute hhour
  · rw [Bool.not_eq_true] at hhour
    obtain ⟨hr0, hr60⟩ := hready.bounds
    have hclock : ∀ f ∈ low ++ [.minute], f.Clock := by
      simpa [or_imp, forall_and, CalendarField.Clock] using hready.clock
    have hreset : ∀ x, x % CalendarField.hourOfDay.unit = u % CalendarField.hourOfDay.unit →
        resetTime (low ++ [.minute]) x = x - x % CalendarField.hourOfDay.unit + r := by
      intro x hx
      rcases hready.reset with ⟨rfl, rfl⟩ | ⟨rfl, rfl⟩ <;>
      · simp only [List.nil_append, List.cons_append, resetTime, CalendarField.digit,
          CalendarField.unit, CalendarField.count] at hx ⊢
        omega
    obtain ⟨v, u', hfound, hmoved⟩ := findNext_clock zone (f := .hourOfDay)
      (.inr (.inr rfl)) (low ++ [.minute]) (d := (tmOf u).hour)
      (by simp only [tmOf, CalendarField.digit, CalendarField.unit, CalendarField.count]; omega)
      hclock hr0 (by simp only [CalendarField.unit]; omega) hreset hready.zone_le h.hours hhour
    have hagain := hready.anew_moved hanew hmoved fun t ht => by
      have := hready.le_second ht
      refine ⟨ht.hour, ?_⟩
      simp only [CalendarField.unit]
      omega
    obtain ⟨-, hmatches⟩ := hready.nextFrom.1
    rw [fromHour, show findNext zone expr.hours 24 (tmOf u).hour (tmOf u) .hourOfDay .dayOfWeek
      (low ++ [.minute]) = .ok (v, tmOf u') from hfound, lift_ok_bind]
    simp only [further_anew (hmoved.ne hhour) hagain, pure_bind]
    exact fromDay_eq h ⟨hmatches.dayOfMonth, hmatches.dayOfWeek⟩ _

theorem fromMinute_ready (h : expr.Regular) (hready : Ready zone expr low r u next)
    (hanew : Anew zone expr anew u next) :
    fromMinute zone expr dot anew low (tmOf u) = pure (tmOf next) := by
  have hlt : (tmOf u).min < 60 := by
    simp only [tmOf]
    omega
  have hpush : pushToFieldsArr low .minute = low ++ [.minute] := by
    rcases hready.reset with ⟨rfl, -⟩ | ⟨rfl, -⟩ <;> rfl
  by_cases hminute : cronGetBit expr.minutes (tmOf u).min = true
  · rw [fromMinute, findNext_self hlt hminute, lift_ok_bind]
    simp only [further_same, pure_bind, hpush]
    exact fromHour_ready h hready hanew hminute
  · rw [Bool.not_eq_true] at hminute
    obtain ⟨hr0, hr60⟩ := hready.bounds
    have hreset : ∀ x, x % CalendarField.minute.unit = u % CalendarField.minute.unit →
        resetTime low x = x - x % CalendarField.minute.unit + r := by
      intro x hx
      rcases hready.reset with ⟨rfl, rfl⟩ | ⟨rfl, rfl⟩ <;>
      · simp only [resetTime, CalendarField.digit, CalendarField.unit,
          CalendarField.count] at hx ⊢
        omega
    obtain ⟨v, u', hfound, hmoved⟩ := findNext_clock zone (f := .minute)
      (.inr (.inl rfl)) low (d := (tmOf u).min)
      (by simp only [tmOf, CalendarField.digit, CalendarField.unit, CalendarField.count]; omega)
      hready.clock hr0 (by simpa only [CalendarField.unit] using hr60) hreset hready.zone_le
      h.minutes hminute
    have hagain := hready.anew_moved hanew hmoved fun t ht => ⟨ht.minute, hready.le_second ht⟩
    obtain ⟨-, hmatches⟩ := hready.nextFrom.1
    rw [fromMinute, show findNext zone expr.minutes 60 (tmOf u).min (tmOf u) .minute .hourOfDay
      low = .ok (v, tmOf u') from hfound, lift_ok_bind]
    simp only [further_anew (hmoved.ne hminute) hagain, pure_bind]
    exact fromHour_eq h hmatches.hour ⟨hmatches.dayOfMonth, hmatches.dayOfWeek⟩ _

variable (dot) in
/-- `do_next` comes to the next time, with a call for every second on the way at most. -/
theorem doNext_eq (h : expr.Regular) (rounds : Nat) : ∀ {u next : Int}, zone ≤ u →
    expr.NextFrom u next → next - u < rounds →
    doNext zone expr dot rounds (tmOf u) = pure (tmOf next) := by
  induction rounds with
  | zero =>
    intro u next _ hnext hrounds
    have := hnext.1.1
    omega
  | succ rounds ih =>
    intro u next hzone hnext hrounds
    have hlt : (tmOf u).sec < 60 := by
      simp only [tmOf]
      omega
    rw [doNext_succ]
    by_cases hsecond : cronGetBit expr.seconds (tmOf u).sec = true
    · rw [findNext_self hlt hsecond, lift_ok_bind]
      simp only [if_true]
      refine fromMinute_ready (r := 0) h
        ⟨hzone, .inr ⟨rfl, rfl⟩, fun i _ _ => by omega, hsecond, hnext⟩ ?_
      exact fun u' hlater hzone' hnext' => ih hzone' hnext' (by omega)
    · rw [Bool.not_eq_true] at hsecond
      obtain ⟨v, u', hfound, hmoved⟩ := findNext_clock zone (f := .second)
        (r := 0) (.inl rfl) [] (d := (tmOf u).sec)
        (by simp only [tmOf, CalendarField.digit, CalendarField.unit, CalendarField.count]; omega)
        (by simp) (le_refl 0) Int.one_pos
        (by intro x _; simp only [resetTime, CalendarField.unit]; omega) hzone h.seconds hsecond
      have hv : u' % 60 = v := by
        have := hmoved.digit
        simp only [CalendarField.digit, CalendarField.unit, CalendarField.count] at this
        omega
      have hsec : (tmOf u').sec = v := by
        simp only [tmOf]
        omega
      -- a smaller second would be in the range around the one that is not set
      have hleast : ∀ i < 60, cronGetBit expr.seconds i = true → u' % 60 ≤ i := by
        intro i hi hbit
        by_contra hcontra
        obtain ⟨hid, hdv⟩ := hmoved.first i hi hbit (by omega)
        have := h.range i _ v hid hdv (by omega) hbit hmoved.bit
        rw [hsecond] at this
        cases this
      have hnext' := hnext.skip hmoved.later.le fun t hut ht => hmoved.skips t hut
        (by simpa [tmOf, CalendarField.digit, CalendarField.unit, CalendarField.count]
          using ht.second)
        (Int.emod_nonneg _ (by decide))
      rw [show findNext zone expr.seconds 60 (tmOf u).sec (tmOf u) .second .minute [] =
        .ok (v, tmOf u') from hfound, lift_ok_bind]
      simp only [if_neg (hmoved.ne hsecond)]
      have hlater := hmoved.later
      exact fromMinute_ready h ⟨by omega, .inl ⟨rfl, rfl⟩, hleast, hsec ▸ hmoved.bit, hnext'⟩
        fun w hw hzone' hw' => ih hzone' hw' (by omega)

end

/-! ### `cron_next` -/

theorem cronMktime_tmOf (zone t : Int) : cronMktime zone (tmOf t) = (t - zone, tmOf t) := by
  rw [cronMktime, timeOf_tmOf]

/-- The times of an expression, in seconds since 1970. -/
def CronExpr.times (expr : CronExpr) (zone : Int) : Set Int :=
  {t | expr.Matches (tmOf (t + zone))}

theorem addToField_second {zone u : Int} (hzone : zone ≤ u) :
    addToField zone (tmOf u) .second 1 = .ok (tmOf (u + 1)) := by
  have hu := timeOf_tmOf u
  refine settle_eq ?_ (by omega)
  simp only [timeOf] at hu ⊢
  omega

theorem cronNext_eq {zone : Int} {expr : CronExpr} (h : expr.Regular) {date next : Int}
    (hdate : 0 ≤ date) (hnext : expr.NextFrom (date + zone + 1) next) (rounds : Nat)
    (hrounds : next - (date + zone) < rounds) :
    cronNext zone rounds expr date = some (next - zone) := by
  obtain ⟨first, hfirst⟩ := h.exists_nextFrom (date + zone)
  have hle := hfirst.2 ⟨by have := hnext.1.1; omega, hnext.1.2⟩
  have hlow := hfirst.1.1
  have hlow' := hnext.1.1
  have hsearch := fun dot => doNext_eq dot h rounds (show zone ≤ date + zone by omega)
    hfirst (by omega)
  have hmktime := cronMktime_tmOf zone
  rcases eq_or_ne first (date + zone) with rfl | hne
  · have hagain := fun dot => doNext_eq dot h rounds
      (show zone ≤ date + zone + 1 by omega) hnext (by omega)
    simp only [cronNext, cronTime, hmktime, hsearch, ExceptT.run_pure, Option.pure_def,
      Option.bind_eq_bind, Option.bind_some, if_neg (show date + zone - zone ≠ -1 by omega),
      ne_eq, not_true_eq_false, if_false, addToField_second (show zone ≤ date + zone by omega),
      hagain]
  · have hsame : first = next :=
      le_antisymm hle (hnext.2 ⟨by omega, hfirst.1.2⟩)
    subst hsame
    simp only [cronNext, cronTime, hmktime, hsearch, ExceptT.run_pure, Option.pure_def,
      Option.bind_eq_bind, Option.bind_some, if_neg (show date + zone - zone ≠ -1 by omega),
      if_neg (show first - zone ≠ -1 by omega),
      if_pos (show first - zone ≠ date + zone - zone by omega)]

/-- For every date since 1970, `cron_next` ends, and its result is the first time of the expression
behind that date. -/
theorem cronNext_isLeast (zone : Int) {expr : CronExpr} (h : expr.Regular) {date : Int}
    (hdate : 0 ≤ date) : ∃ next, IsLeast {t ∈ expr.times zone | date < t} next ∧
      ∃ n, ∀ rounds ≥ n, cronNext zone rounds expr date = some next := by
  obtain ⟨next, hnext⟩ := h.exists_nextFrom (date + zone + 1)
  refine ⟨next - zone, ⟨⟨?_, ?_⟩, ?_⟩, (next - (date + zone)).toNat + 1, ?_⟩
  · simpa [CronExpr.times] using hnext.1.2
  · have := hnext.1.1
    omega
  · rintro t ⟨ht, hlater⟩
    have := hnext.2 ⟨show date + zone + 1 ≤ t + zone by omega, ht⟩
    omega
  · intro rounds hrounds
    exact cronNext_eq h hdate hnext rounds (by omega)

end

/-- Half past seven on the days from Monday to Friday. -/
def weekdayMorning : CronExpr where
  seconds := [1, 0, 0, 0, 0, 0, 0, 0]
  minutes := [0, 0, 0, 64, 0, 0, 0, 0]
  hours := [128, 0, 0]
  daysOfWeek := [62]
  daysOfMonth := [254, 255, 255, 255]
  months := [255, 15]

theorem weekdayMorning_regular : weekdayMorning.Regular where
  seconds := ⟨0, by decide, by decide⟩
  range := by
    have hsecond : ∀ k < 60, cronGetBit weekdayMorning.seconds k = true → k = 0 := by decide
    intro i j k hij hjk hk _ hbit
    have := hsecond k hk hbit
    omega
  minutes := ⟨30, by decide, by decide⟩
  hours := ⟨7, by decide, by decide⟩
  days := by
    have hmday : ∀ v < 32, 1 ≤ v → cronGetBit weekdayMorning.daysOfMonth v = true := by decide
    exact .inr ⟨fun v hlow hhigh => hmday v (by omega) hlow, 1, by decide, by decide⟩
  months := by decide

theorem cronNext_isLeast_weekday : ∃ next,
    IsLeast {t ∈ weekdayMorning.times 10800 | 1700000000 < t} next ∧
      ∃ n, ∀ rounds ≥ n, cronNext 10800 rounds weekdayMorning 1700000000 = some next :=
  cronNext_isLeast 10800 weekdayMorning_regular (by decide)

end DaliController.Schedule
