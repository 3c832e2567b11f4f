import DaliController.Schedule.ZamanFile

/-! The places of `jobs` that `init_cron` writes.  `add_cron` takes the next one from `cron_count`
without a look at the size of the array. -/

namespace DaliController.Schedule

/-- The times of a record that `init_cron` takes for set. -/
def Zaman.cronTimes (i : UInt8) (kk : Zaman) : List ZamanTime :=
  if 0 < kk.active then (kk.times i).filter ZamanTime.full else []

/-- The times that `init_cron` takes for set. -/
def cronTimes (zaman : UInt8 → Zaman) : List ZamanTime :=
  (List.range 32).flatMap fun i => (zaman (UInt8.ofNat i)).cronTimes (UInt8.ofNat i)

/-- Those up to the first one for which `cron_next` does not return. -/
def createdTimes (rounds : Nat) (clock : Nat → Clock) (zaman : UInt8 → Zaman) : List ZamanTime :=
  Table.upTo (fun k t => returns rounds clock k t.expr) 0 (cronTimes zaman)

/-- What `init_cron` has done when it returns, or when it has called a `cron_next` that does not. -/
def jobTable (rounds : Nat) (clock : Nat → Clock) (taken : Bool) (zaman : UInt8 → Zaman) :
    JobTable :=
  match initCron rounds clock taken zaman with
  | .ok t => t
  | .error t => t

/-! ### One job for each time -/

theorem recordJobs_cronTimes (i : UInt8) (kk : Zaman) :
    (recordJobs i kk).map CronJob.expr = (kk.cronTimes i).map ZamanTime.expr := by
  rw [recordJobs_map_expr, Zaman.cronTimes]
  split <;> rfl

theorem allJobs_cronTimes (zaman : UInt8 → Zaman) :
    (allJobs zaman).map CronJob.expr = (cronTimes zaman).map ZamanTime.expr := by
  rw [allJobs, cronTimes, List.map_flatMap, List.map_flatMap]
  simp only [recordJobs_cronTimes]

section

variable (rounds : Nat) (clock : Nat → Clock)

theorem created_cronTimes (zaman : UInt8 → Zaman) :
    (created rounds clock 0 (allJobs zaman)).map CronJob.expr =
      (createdTimes rounds clock zaman).map ZamanTime.expr := by
  have hjobs := Table.upTo_map (returns rounds clock) CronJob.expr 0 (allJobs zaman)
  have htimes := Table.upTo_map (returns rounds clock) ZamanTime.expr 0 (cronTimes zaman)
  rw [allJobs_cronTimes] at hjobs
  exact hjobs.trans htimes.symm

theorem jobTable_filled (taken : Bool) (zaman : UInt8 → Zaman) :
    Filled taken (created rounds clock 0 (allJobs zaman)) (jobTable rounds clock taken zaman) := by
  obtain ⟨t, ht, hinit⟩ := initCron_created rounds clock taken zaman
  unfold jobTable
  rw [hinit]
  by_cases hall : created rounds clock 0 (allJobs zaman) = allJobs zaman
  · rw [if_pos hall]
    exact ht
  · rw [if_neg hall]
    exact ht

/-- For any contents of `ZAMAN_FILE`, `init_cron` only writes to places of `jobs` if and only if the
first 32 records ask for at most 20 times before `cron_next` does not return for one. -/
theorem jobTable_inBounds_iff (taken : Bool) (zaman : UInt8 → Zaman) :
    (jobTable rounds clock taken zaman).InBounds ↔
      (createdTimes rounds clock zaman).length ≤ 20 := by
  have hlen := congrArg List.length (created_cronTimes rounds clock zaman)
  rw [List.length_map, List.length_map] at hlen
  rw [(jobTable_filled rounds clock taken zaman).inBounds_iff (length_created_le zaman), hlen]

/-- For times of a clock, `cron_next` returns. -/
theorem createdTimes_eq {rounds : Nat} (hrounds : 86400 < rounds) {zaman : UInt8 → Zaman}
    (hclock : ∀ t ∈ cronTimes zaman, t.saat ≤ 23 ∧ t.dakika ≤ 59) :
    createdTimes rounds clock zaman = cronTimes zaman := by
  rw [createdTimes, Table.upTo_eq_self_iff]
  rintro ⟨t, k⟩ hw
  obtain ⟨hsaat, hdakika⟩ := hclock t (List.fst_mem_of_mem_zipIdx hw)
  exact Option.isSome_of_eq_some (nextTime_daily hrounds hdakika hsaat (clock k))

end

/-- The groups 1 to 6 are switched on and off twice a day. -/
def dolu : List ZamanCommand :=
  (List.range 6).map fun i =>
    { sabah with adres := UInt8.ofNat (i + 1), on2s := 17, on2d := 45, off2s := 8, off2d := 50 }

/-- They have 24 jobs. -/
theorem jobTable_dolu :
    ¬(jobTable 86401 november false (readZaman (zamanFile zamanFileInit dolu))).InBounds := by
  have htimes : (cronTimes (readZaman (zamanFile zamanFileInit dolu))).length = 24 ∧
      ∀ t ∈ cronTimes (readZaman (zamanFile zamanFileInit dolu)), t.saat ≤ 23 ∧ t.dakika ≤ 59 := by
    decide +kernel
  have hlen := congrArg List.length (created_cronTimes 86401 november
    (readZaman (zamanFile zamanFileInit dolu)))
  rw [List.length_map, List.length_map,
    createdTimes_eq november (by decide) htimes.2, htimes.1] at hlen
  rw [(jobTable_filled 86401 november false _).inBounds_iff (length_created_le _), hlen]
  decide

end DaliController.Schedule
