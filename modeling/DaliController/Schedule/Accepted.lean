import DaliController.Schedule.JobTable

/-! The list of the scheduler behind `init_cron`.  `cron_job_load_expression` marks a job as loaded
whatever the parser says, so a time that no clock shows is scheduled as well, whenever `cron_next`
returns for it. -/

namespace DaliController.Schedule

/-- `cron_parse_expr` reported no error. -/
def Accepted (schedule : List Char) : Prop := (cronParseExpr schedule cronExprZero).2 = none

instance (schedule : List Char) : Decidable (Accepted schedule) :=
  inferInstanceAs (Decidable (_ = none))

/-- A time of day. -/
def ZamanTime.Valid (t : ZamanTime) : Prop := t.saat ≤ 23 ∧ t.dakika ≤ 59

instance (t : ZamanTime) : Decidable t.Valid := inferInstanceAs (Decidable (_ ∧ _))

/-- Every job of the list has an expression that was accepted, and a time that is not valid has no
job. -/
structure OnlyValid (zaman : UInt8 → Zaman) (first : List ScheduledJob) : Prop where
  accepted : ∀ job ∈ first, Accepted job.schedule
  unscheduled : ∀ t ∈ cronTimes zaman, ¬t.Valid → ∀ job ∈ first, job.schedule ≠ t.expr.toList

/-- An expression with a time of day is accepted, and no other one. -/
theorem accepted_cronExpr (dak saat : UInt8) :
    Accepted (cronExpr dak saat).toList ↔ saat ≤ 23 ∧ dak ≤ 59 := by
  have hparse := (cronParseExpr_text _ (length_dailyFields dak saat)).1
  rw [dailyFields_text] at hparse
  rw [Accepted, hparse, UInt8.le_iff_toNat_le, UInt8.le_iff_toNat_le]
  constructor
  · intro h
    have hminute := h.minute
    have hhour := h.hour
    simp only [dailyFields, single_valid, FieldRange.Valid, FieldRange.bounds] at hminute hhour
    exact ⟨Nat.le_of_lt_succ hhour.2.2, Nat.le_of_lt_succ hminute.2.2⟩
  · exact fun h => dailyFields_valid h.2 h.1

/-- What `init_cron` has put into the list: a job for each time for which it has created one, unless
the list cannot be changed. -/
theorem mem_jobTable_list (rounds : Nat) (clock : Nat → Clock) (taken : Bool)
    (zaman : UInt8 → Zaman) (schedule : List Char) :
    (∃ job ∈ (jobTable rounds clock taken zaman).list.first, job.schedule = schedule) ↔
      taken = false ∧ ∃ t ∈ createdTimes rounds clock zaman, t.expr.toList = schedule := by
  have hperm := (jobTable_filled rounds clock taken zaman).list
  have hcreated := congrArg (List.map String.toList) (created_cronTimes rounds clock zaman)
  rw [List.map_map, List.map_map] at hcreated
  rw [← List.mem_map, hperm.mem_iff]
  cases taken with
  | true => simp
  | false =>
    simp only [Bool.false_eq_true, if_false, true_and]
    rw [show (fun job : CronJob => job.expr.toList) = String.toList ∘ CronJob.expr from rfl,
      hcreated, List.mem_map]
    rfl

/-- For any contents of `ZAMAN_FILE`, the jobs that `init_cron` has put into the list are those of
accepted expressions if and only if every time that it has taken for set before `cron_next` does not
return for one is a time of day, or the list cannot be changed. -/
theorem initCronList_onlyValid_iff (rounds : Nat) (clock : Nat → Clock) (taken : Bool)
    (zaman : UInt8 → Zaman) :
    OnlyValid zaman (jobTable rounds clock taken zaman).list.first ↔
      (taken = false → ∀ t ∈ createdTimes rounds clock zaman, t.Valid) := by
  have hmem := mem_jobTable_list rounds clock taken zaman
  constructor
  · rintro h htaken t ht
    obtain ⟨job, hjob, hschedule⟩ := (hmem t.expr.toList).mpr ⟨htaken, t, ht, rfl⟩
    have haccepted := h.accepted job hjob
    rw [hschedule] at haccepted
    exact (accepted_cronExpr _ _).mp haccepted
  · intro h
    have hjob : ∀ job ∈ (jobTable rounds clock taken zaman).list.first,
        Accepted job.schedule := by
      intro job hjob
      obtain ⟨htaken, t, ht, hschedule⟩ := (hmem job.schedule).mp ⟨job, hjob, rfl⟩
      rw [← hschedule]
      exact (accepted_cronExpr _ _).mpr (h htaken t ht)
    refine ⟨hjob, fun t _ hvalid job hmem hschedule => ?_⟩
    have haccepted := hjob job hmem
    rw [hschedule] at haccepted
    exact hvalid ((accepted_cronExpr _ _).mp haccepted)

/-- Three hours ahead, in June, when the search for 25:30 gives up and `cron_next` returns -1. -/
def june (_ : Nat) : Clock := ⟨1717200000, 10800⟩

/-- Group 3 is to be switched on at 25:30. -/
theorem hour25_scheduled :
    ¬OnlyValid (readZaman (zamanFile zamanFileInit [{ sabah with on1s := 25 }]))
      (jobTable 86401 june false
        (readZaman (zamanFile zamanFileInit [{ sabah with on1s := 25 }]))).list.first := by
  intro h
  have hcreated : ⟨3, 25, 30⟩ ∈ createdTimes 86401 june
      (readZaman (zamanFile zamanFileInit [{ sabah with on1s := 25 }])) := by
    decide +kernel
  obtain ⟨job, hjob, hschedule⟩ :=
    (mem_jobTable_list 86401 june false _ _).mpr ⟨rfl, _, hcreated, rfl⟩
  have haccepted := h.accepted job hjob
  rw [hschedule] at haccepted
  exact absurd ((accepted_cronExpr _ _).mp haccepted).1 (by decide)

end DaliController.Schedule
