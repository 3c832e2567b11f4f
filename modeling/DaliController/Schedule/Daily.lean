import DaliController.Schedule.CronFields
import DaliController.Schedule.Zaman

/-! The jobs of `add_cron`.  Their expression is for one time of every day, and `cron_next` finds
the next such time. -/

namespace DaliController.Schedule

def single (r : FieldRange) : Field := ⟨[⟨r, none⟩], List.cons_ne_nil _ _⟩

/-- The expression of `add_cron`. -/
def dailyFields (dak saat : Nat) : CronFields where
  second := single (.one 0)
  minute := single (.one dak)
  hour := single (.one saat)
  dayOfMonth := single .all
  month := single .all
  dayOfWeek := single .all

theorem dailyFields_text (dak saat : UInt8) :
    (dailyFields dak.toNat saat.toNat).text = (cronExpr dak saat).toList := by
  simp [dailyFields, CronFields.text, Field.text, single, FieldItem.text, FieldRange.text, cronExpr,
    List.intercalate, number]

/-- What `cron_parse_expr` makes of it. -/
def dailyExpr (dak saat : UInt8) : CronExpr :=
  (cronParseExpr (cronExpr dak saat).toList cronExprZero).1

theorem single_valid {min max : Nat} {r : FieldRange} :
    (single r).Valid min max ↔ r.Valid min max := by
  simp [single, Field.Valid, FieldItem.Valid]

theorem single_contains {min max : Nat} {r : FieldRange} {n : Nat} :
    (single r).Contains min max n ↔ (r.bounds min max).1 ≤ n ∧ n ≤ (r.bounds min max).2 := by
  simp [single, Field.Contains, FieldItem.Contains, FieldItem.last, Nat.mod_one]

theorem dailyFields_valid {dak saat : Nat} (hdak : dak ≤ 59) (hsaat : saat ≤ 23) :
    (dailyFields dak saat).Valid := by
  constructor <;> simp only [dailyFields, single_valid, FieldRange.Valid, FieldRange.bounds] <;>
    omega

/-- A byte has at most three digits. -/
theorem length_number (b : UInt8) : (number b.toNat).length ≤ 3 :=
  (Nat.length_toDigits_le_iff (by decide) (by decide)).mpr (b.toNat_lt.trans (by decide))

theorem length_dailyFields (dak saat : UInt8) :
    (dailyFields dak.toNat saat.toNat).text.length < 256 := by
  have hdak := length_number dak
  have hsaat := length_number saat
  simp only [dailyFields, CronFields.text, Field.text, single, FieldItem.text, FieldRange.text,
    List.intercalate, List.map_cons, List.map_nil, List.intersperse, List.flatten_cons,
    List.flatten_nil, List.length_append, List.length_cons, List.length_nil]
  have hzero : (number 0).length = 1 := by decide
  omega

theorem dailyExpr_bits {dak saat : UInt8} (hdak : dak ≤ 59) (hsaat : saat ≤ 23) :
    (dailyFields dak.toNat saat.toNat).Bits (dailyExpr dak saat) := by
  have h := (cronParseExpr_text _ (length_dailyFields dak saat)).2 (dailyFields_valid hdak hsaat)
  rwa [dailyFields_text] at h

theorem dailyExpr_regular {dak saat : UInt8} (hdak : dak ≤ 59) (hsaat : saat ≤ 23) :
    (dailyExpr dak saat).Regular := by
  have hbits := dailyExpr_bits hdak hsaat
  have hdak' : dak.toNat ≤ 59 := UInt8.le_iff_toNat_le.mp hdak
  have hsaat' : saat.toNat ≤ 23 := UInt8.le_iff_toNat_le.mp hsaat
  have hsecond := fun n => (hbits.second n).trans single_contains
  have hminute := fun n => (hbits.minute n).trans single_contains
  have hhour := fun n => (hbits.hour n).trans single_contains
  have hmday := fun n => (hbits.dayOfMonth n).trans single_contains
  have hwday : ∀ n < 7, cronGetBit (dailyExpr dak saat).daysOfWeek n = true := fun n hn =>
    (hbits.dayOfWeek n).mpr ⟨by omega, .inl (single_contains.mpr
      (by simp only [FieldRange.bounds]; omega))⟩
  simp only [FieldRange.bounds] at hsecond hminute hhour hmday
  exact
    { seconds := ⟨0, by decide, (hsecond 0).mpr (by decide)⟩
      range := fun i j k hij hjk _ hi hk => by
        rw [hsecond] at hi hk ⊢
        omega
      minutes := ⟨dak.toNat, by omega, (hminute _).mpr ⟨le_refl _, le_refl _⟩⟩
      hours := ⟨saat.toNat, by omega, (hhour _).mpr ⟨le_refl _, le_refl _⟩⟩
      days := .inl ⟨⟨1, by decide, by decide, (hmday 1).mpr (by decide)⟩, hwday⟩
      months := fun m hm => (hbits.month m).mpr (single_contains.mpr
        (by simp only [FieldRange.bounds]; omega)) }

/-- A local time is one of the expression if its time of day is. -/
theorem dailyExpr_matches {dak saat : UInt8} (hdak : dak ≤ 59) (hsaat : saat ≤ 23) (t : Int) :
    (dailyExpr dak saat).Matches (tmOf t) ↔ t % 86400 = 3600 * saat.toNat + 60 * dak.toNat := by
  have hdak' : dak.toNat ≤ 59 := UInt8.le_iff_toNat_le.mp hdak
  have hsaat' : saat.toNat ≤ 23 := UInt8.le_iff_toNat_le.mp hsaat
  have hmday := Calendar.dayOf_bounds (t / 86400)
  rw [(dailyExpr_bits hdak hsaat).matches_iff]
  constructor
  · intro h
    have hsecond := single_contains.mp h.second
    have hminute := single_contains.mp h.minute
    have hhour := single_contains.mp h.hour
    simp only [FieldRange.bounds, tmOf] at hsecond hminute hhour
    omega
  · intro h
    constructor
    · exact single_contains.mpr (by simp only [FieldRange.bounds, tmOf]; omega)
    · exact single_contains.mpr (by simp only [FieldRange.bounds, tmOf]; omega)
    · exact single_contains.mpr (by simp only [FieldRange.bounds, tmOf]; omega)
    · exact single_contains.mpr (by simp only [FieldRange.bounds, tmOf]; omega)
    · exact single_contains.mpr (by simp only [FieldRange.bounds, tmOf]; omega)
    · exact .inl (single_contains.mpr
        (by simp only [FieldRange.bounds, tmOf, Calendar.weekdayOf]; omega))

/-- The first time behind `date` at which the clock shows the hour and the minute. -/
def nextDaily (zone : Int) (dak saat : UInt8) (date : Int) : Int :=
  date + 86400 - (date + zone - (3600 * saat.toNat + 60 * dak.toNat)) % 86400

theorem nextDaily_bounds (zone : Int) (dak saat : UInt8) (date : Int) :
    date < nextDaily zone dak saat date ∧ nextDaily zone dak saat date ≤ date + 86400 := by
  simp only [nextDaily]
  omega

theorem nextDaily_nextFrom (zone : Int) {dak saat : UInt8} (hdak : dak ≤ 59) (hsaat : saat ≤ 23)
    (date : Int) : (dailyExpr dak saat).NextFrom (date + zone + 1)
      (nextDaily zone dak saat date + zone) := by
  have hdak' : dak.toNat ≤ 59 := UInt8.le_iff_toNat_le.mp hdak
  have hsaat' : saat.toNat ≤ 23 := UInt8.le_iff_toNat_le.mp hsaat
  have hbounds := nextDaily_bounds zone dak saat date
  refine ⟨⟨by omega, (dailyExpr_matches hdak hsaat _).mpr ?_⟩, fun t ht => ?_⟩
  · simp only [nextDaily]
    omega
  · have htime := (dailyExpr_matches hdak hsaat t).mp ht.2
    have hlater := ht.1
    simp only [nextDaily]
    omega

/-- `cron_next` finds the next time of a daily job, which is at most a day away. -/
theorem cronNext_daily (zone : Int) {dak saat : UInt8} (hdak : dak ≤ 59) (hsaat : saat ≤ 23)
    {date : Int} (hdate : 0 ≤ date) {rounds : Nat} (hrounds : 86400 < rounds) :
    cronNext zone rounds (dailyExpr dak saat) date = some (nextDaily zone dak saat date) := by
  have hbounds := nextDaily_bounds zone dak saat date
  rw [cronNext_eq (dailyExpr_regular hdak hsaat) hdate (nextDaily_nextFrom zone hdak hsaat date)
    rounds (by omega), add_sub_cancel_right]

/-- `cron_next` returns for every time of a clock. -/
theorem nextTime_daily {rounds : Nat} (hrounds : 86400 < rounds) {dak saat : UInt8}
    (hdak : dak ≤ 59) (hsaat : saat ≤ 23) (clock : Clock) :
    nextTime rounds (cronExpr dak saat) clock =
      some (nextDaily clock.zone dak saat clock.now) :=
  cronNext_daily clock.zone hdak hsaat (Int.natCast_nonneg clock.now) hrounds

/-- Half past seven in the morning, three hours ahead. -/
theorem cronNext_daily_morning : nextDaily 10800 30 7 1700000000 = 1700022600 ∧
    cronNext 10800 86401 (dailyExpr 30 7) 1700000000 = some (nextDaily 10800 30 7 1700000000) :=
  ⟨by decide, cronNext_daily 10800 (by decide) (by decide) (by decide) (by decide)⟩

end DaliController.Schedule
