import DaliController.Schedule.Daily

/-! Which times `init_cron` schedules.  A time is lost if its hour or its minute is zero, or if its
record is not among the first 32, and all those behind a time for which `cron_next` does not
return. -/

namespace DaliController.Schedule

/-- One of the four times of a record of `ZAMAN_FILE`. -/
structure ZamanTime where
  record : UInt8
  saat : UInt8
  dakika : UInt8
  deriving DecidableEq, Repr

def Zaman.times (i : UInt8) (kk : Zaman) : List ZamanTime :=
  [⟨i, kk.on1saat, kk.on1dakika⟩, ⟨i, kk.on2saat, kk.on2dakika⟩, ⟨i, kk.off1saat, kk.off1dakika⟩,
    ⟨i, kk.off2saat, kk.off2dakika⟩]

/-- The pair (0, 0) is the unset one. -/
def ZamanTime.isSet (t : ZamanTime) : Bool := !(t.saat == 0 && t.dakika == 0)

def setTimes (zaman : UInt8 → Zaman) : List ZamanTime :=
  (List.range 256).flatMap fun i =>
    ((zaman (UInt8.ofNat i)).times (UInt8.ofNat i)).filter ZamanTime.isSet

def ZamanTime.expr (t : ZamanTime) : String := cronExpr t.dakika t.saat

/-- Each time that is set has one job with its expression, and there are no other jobs. -/
def Timetable.Complete (d : Timetable) : Prop :=
  (d.jobs.map CronJob.expr).Perm ((setTimes d.zaman).map ZamanTime.expr)

/-- `init_cron` looks at the time and takes it for set. -/
def ZamanTime.inReach (t : ZamanTime) : Bool := t.record < 32 && 0 < t.saat && 0 < t.dakika

/-- The times that are set are all in reach, `jobs` has room for them, and `cron_next` returns for
each of them when its job is created, the first one at the reading `n` of the clock. -/
def Schedulable (rounds : Nat) (clock : Nat → Clock) (n : Nat) (zaman : UInt8 → Zaman) : Prop :=
  (∀ t ∈ setTimes zaman, t.inReach = true) ∧ (setTimes zaman).length ≤ 20 ∧
    ∀ w ∈ (setTimes zaman).zipIdx, (nextTime rounds w.1.expr (clock (n + w.2))).isSome = true

instance (d : Timetable) : Decidable d.Complete := inferInstanceAs (Decidable (List.Perm _ _))

instance (rounds : Nat) (clock : Nat → Clock) (n : Nat) (zaman : UInt8 → Zaman) :
    Decidable (Schedulable rounds clock n zaman) :=
  inferInstanceAs (Decidable (_ ∧ _ ∧ _))

/-! ### The times of one record -/

def ZamanTime.full (t : ZamanTime) : Bool := 0 < t.saat && 0 < t.dakika

theorem isSet_of_full {t : ZamanTime} (h : t.full = true) : t.isSet = true := by
  simp only [ZamanTime.full, Bool.and_eq_true, decide_eq_true_eq] at h
  have hne : t.saat ≠ 0 := fun h0 => absurd (h0 ▸ h.1) (by decide)
  simp [ZamanTime.isSet, hne]

/-- `active` is set if and only if `init_cron` takes one of the times for set. -/
def Zaman.Marked (kk : Zaman) : Prop := ∀ i, 0 < kk.active ↔ ∃ t ∈ kk.times i, t.full = true

theorem record_marked (c : ZamanCommand) : c.record.Marked := by
  intro i
  have hactive : 0 < c.record.active ↔ (0 < c.on1s ∧ 0 < c.on1d) ∨ (0 < c.on2s ∧ 0 < c.on2d) ∨
      (0 < c.off1s ∧ 0 < c.off1d) ∨ (0 < c.off2s ∧ 0 < c.off2d) := by
    unfold ZamanCommand.record
    simp only
    split
    · rename_i h
      exact ⟨fun _ => h, fun _ => by decide⟩
    · rename_i h
      exact ⟨fun hpos => absurd hpos (by decide), fun hset => absurd hset h⟩
  rw [hactive]
  simp [Zaman.times, ZamanTime.full, ZamanCommand.record]

theorem jobWhen_expr (i saat dakika : UInt8) (jb : ZamanJob) :
    (jobWhen saat dakika jb).map CronJob.expr =
      (([⟨i, saat, dakika⟩] : List ZamanTime).filter ZamanTime.full).map ZamanTime.expr := by
  unfold jobWhen
  by_cases h : 0 < saat ∧ 0 < dakika
  · have hfull : ZamanTime.full ⟨i, saat, dakika⟩ = true := by simp [ZamanTime.full, h]
    rw [if_pos h, List.filter_cons_of_pos hfull]
    rfl
  · have hnot : ¬ZamanTime.full ⟨i, saat, dakika⟩ = true := by
      simpa [ZamanTime.full] using h
    rw [if_neg h, List.filter_cons_of_neg hnot]
    rfl

theorem recordJobs_map_expr (i : UInt8) (kk : Zaman) :
    (recordJobs i kk).map CronJob.expr =
      if 0 < kk.active then ((kk.times i).filter ZamanTime.full).map ZamanTime.expr else [] := by
  unfold recordJobs
  split
  · simp only [List.map_append, jobWhen_expr i]
    simp only [← List.map_append, ← List.filter_append]
    rfl
  · rfl

theorem recordJobs_expr {kk : Zaman} (hkk : kk.Marked) (i : UInt8) :
    (recordJobs i kk).map CronJob.expr =
      ((kk.times i).filter ZamanTime.full).map ZamanTime.expr := by
  rw [recordJobs_map_expr]
  by_cases hactive : 0 < kk.active
  · exact if_pos hactive
  · have hnone : (kk.times i).filter ZamanTime.full = [] :=
      List.filter_eq_nil_iff.mpr fun t ht hfull => hactive ((hkk i).mpr ⟨t, ht, hfull⟩)
    rw [if_neg hactive, hnone]
    rfl

theorem record_of_mem_times {i : UInt8} {kk : Zaman} {t : ZamanTime} (ht : t ∈ kk.times i) :
    t.record = i := by
  simp only [Zaman.times, List.mem_cons, List.not_mem_nil, or_false] at ht
  rcases ht with rfl | rfl | rfl | rfl <;> rfl

theorem filter_inReach_times {i : UInt8} (hi : i < 32) (kk : Zaman) :
    ((kk.times i).filter ZamanTime.isSet).filter ZamanTime.inReach =
      (kk.times i).filter ZamanTime.full := by
  rw [List.filter_filter]
  refine List.filter_congr fun t ht => ?_
  have hreach : t.inReach = t.full := by
    rw [ZamanTime.inReach, record_of_mem_times ht, decide_eq_true hi, Bool.true_and, ZamanTime.full]
  rw [hreach]
  by_cases hfull : t.full = true
  · rw [hfull, isSet_of_full hfull]
    rfl
  · rw [eq_false_of_ne_true hfull, Bool.false_and]

/-! ### The times of the file -/

theorem ofNat_lt_iff {i : Nat} (hi : i < 256) : UInt8.ofNat i < 32 ↔ i < 32 := by
  rw [UInt8.ofNat_lt_iff hi]
  rfl

/-- The jobs are those of the times in reach. -/
theorem allJobs_expr {zaman : UInt8 → Zaman} (hz : ∀ i, (zaman i).Marked) :
    (allJobs zaman).map CronJob.expr =
      ((setTimes zaman).filter ZamanTime.inReach).map ZamanTime.expr := by
  have hsplit : List.range 256 = List.range 32 ++ (List.range 224).map (32 + ·) :=
    @List.range_add 32 224
  have hrest : ((List.range 224).map (32 + ·)).flatMap (fun i =>
      (((zaman (UInt8.ofNat i)).times (UInt8.ofNat i)).filter ZamanTime.isSet).filter
        ZamanTime.inReach) = [] := by
    rw [List.flatMap_eq_nil_iff]
    intro i hi
    obtain ⟨j, hj, rfl⟩ := List.mem_map.mp hi
    rw [List.mem_range] at hj
    refine List.filter_eq_nil_iff.mpr fun t ht hreach => ?_
    have hlt : t.record < 32 := by
      simp only [ZamanTime.inReach, Bool.and_eq_true, decide_eq_true_eq] at hreach
      exact hreach.1.1
    rw [record_of_mem_times (List.mem_of_mem_filter ht), ofNat_lt_iff (by omega)] at hlt
    omega
  rw [setTimes, List.filter_flatMap, hsplit, List.flatMap_append, hrest, List.append_nil, allJobs,
    List.map_flatMap, List.map_flatMap]
  refine List.flatMap_congr fun i hi => ?_
  rw [List.mem_range] at hi
  rw [recordJobs_expr (hz _), filter_inReach_times ((ofNat_lt_iff (by omega)).mpr hi)]

section

variable {rounds : Nat} {clock : Nat → Clock}

theorem scheduled_complete_iff {zaman : UInt8 → Zaman} (hz : ∀ i, (zaman i).Marked) (n : Nat) :
    (∃ d, scheduled rounds clock n zaman = some d ∧ d.Complete) ↔
      Schedulable rounds clock n zaman := by
  have hjobs := allJobs_expr hz
  have hlen := congrArg List.length hjobs
  rw [List.length_map, List.length_map] at hlen
  have hcomplete : Timetable.Complete ⟨zaman, allJobs zaman, n + (allJobs zaman).length⟩ ↔
      ∀ t ∈ setTimes zaman, t.inReach = true := by
    unfold Timetable.Complete
    rw [hjobs]
    exact Table.filter_map_perm_iff _ _ _
  have hreturns (hall : ∀ t ∈ setTimes zaman, t.inReach = true) :
      created rounds (fun k => clock (n + k)) 0 (allJobs zaman) = allJobs zaman ↔
        ∀ w ∈ (setTimes zaman).zipIdx,
          (nextTime rounds w.1.expr (clock (n + w.2))).isSome = true := by
    rw [List.filter_eq_self.mpr hall] at hjobs
    rw [created, Table.upTo_eq_self_iff]
    have hmap := congrArg List.zipIdx hjobs
    rw [List.zipIdx_map, List.zipIdx_map] at hmap
    constructor
    · intro h w hw
      obtain ⟨v, hv, hvw⟩ := List.mem_map.mp (hmap ▸ List.mem_map_of_mem hw)
      simp only [Prod.map, id, Prod.mk.injEq] at hvw
      have hsome := h v hv
      rw [returns, hvw.1, hvw.2] at hsome
      exact hsome
    · intro h v hv
      obtain ⟨w, hw, hvw⟩ := List.mem_map.mp (hmap ▸ List.mem_map_of_mem hv)
      simp only [Prod.map, id, Prod.mk.injEq] at hvw
      have hsome := h w hw
      rw [hvw.1, hvw.2] at hsome
      exact hsome
  rw [scheduled_eq]
  constructor
  · rintro ⟨d, hsome, hperm⟩
    split at hsome
    · rename_i h
      cases hsome
      have hall := hcomplete.mp hperm
      have hreturned := (hreturns hall).mp h.1
      rw [List.filter_eq_self.mpr hall] at hlen
      exact ⟨hall, hlen ▸ h.2, hreturned⟩
    · cases hsome
  · rintro ⟨hall, hroom, hreturned⟩
    have hcreated := (hreturns hall).mpr hreturned
    rw [List.filter_eq_self.mpr hall] at hlen
    exact ⟨_, if_pos ⟨hcreated, hlen.symm ▸ hroom⟩, hcomplete.mpr hall⟩

/-! ### Runs of `set_zaman` -/

/-- The reading of the clock at which `init_cron` began for the last time. -/
def Timetable.begun (d : Timetable) : Nat := d.readings - d.jobs.length

/-- The reading of the clock with which `init_cron` begins behind a command, if it is called. -/
def Timetable.begins (d : Timetable) (c : ZamanCommand) : Nat :=
  match slot c.gurup c.adres with
  | some _ => d.readings
  | none => d.begun

/-- What every sequence of `set_zaman` commands keeps. -/
structure Tended (rounds : Nat) (clock : Nat → Clock) (d : Timetable) : Prop where
  marked : ∀ i, (d.zaman i).Marked
  jobs : scheduled rounds clock d.begun d.zaman = some d

theorem written_marked {zaman : UInt8 → Zaman} (hz : ∀ i, (zaman i).Marked) (c : ZamanCommand)
    (i : UInt8) : (written zaman c i).Marked := by
  cases hslot : slot c.gurup c.adres with
  | some j =>
    simp only [written, hslot]
    by_cases hij : i = j
    · rw [hij, Function.update_self]
      exact record_marked c
    · rw [Function.update_of_ne hij]
      exact hz i
  | none =>
    simp only [written, hslot]
    exact hz i

/-- A command without a record leaves what `init_cron` has scheduled before. -/
theorem setZaman_eq {d : Timetable} (hd : Tended rounds clock d) (c : ZamanCommand) :
    setZaman rounds clock d c = scheduled rounds clock (d.begins c) (written d.zaman c) := by
  unfold setZaman Timetable.begins
  cases hslot : slot c.gurup c.adres with
  | some i => rfl
  | none =>
    have hsame : written d.zaman c = d.zaman := by rw [written, hslot]
    rw [hsame]
    exact hd.jobs.symm

theorem scheduled_tended {zaman : UInt8 → Zaman} (hz : ∀ i, (zaman i).Marked) {n : Nat}
    {d : Timetable} (h : scheduled rounds clock n zaman = some d) : Tended rounds clock d := by
  have hsome := h
  rw [scheduled_eq] at hsome
  split at hsome
  · cases hsome
    refine ⟨hz, ?_⟩
    rw [Timetable.begun, Nat.add_sub_cancel]
    exact h
  · cases hsome

theorem setZaman_tended (d : Timetable) (c : ZamanCommand) (d' : Timetable)
    (hd : Tended rounds clock d) (h : setZaman rounds clock d c = some d') :
    Tended rounds clock d' := by
  rw [setZaman_eq hd] at h
  exact scheduled_tended (written_marked hd.marked c) h

theorem scheduled_empty : scheduled rounds clock 0 (fun _ => {}) = some timetableInit := by
  have hnone : allJobs (fun _ => {}) = [] := by decide +kernel
  rw [scheduled_eq, hnone, if_pos ⟨rfl, Nat.zero_le 20⟩]
  rfl

theorem timetableInit_tended : Tended rounds clock timetableInit where
  marked i j := by simp [timetableInit, Zaman.times, ZamanTime.full]
  jobs := scheduled_empty

/-- After any sequence of `set_zaman` commands, the next one leaves exactly one job for each time
that is set if and only if all of these have an hour and a minute that are not zero and are in the
first 32 records, there are at most 20 of them, and `cron_next` returns for each of them. -/
theorem setZaman_complete_iff (rounds : Nat) (clock : Nat → Clock) (cs : List ZamanCommand)
    (c : ZamanCommand) {d : Timetable}
    (hrun : Runs.run (setZaman rounds clock) timetableInit cs = some d) :
    (∃ d', setZaman rounds clock d c = some d' ∧ d'.Complete) ↔
      Schedulable rounds clock (d.begins c) (written d.zaman c) := by
  have hd := Runs.run_invariant setZaman_tended timetableInit_tended hrun
  rw [← scheduled_complete_iff (written_marked hd.marked c), setZaman_eq hd]

end

/-- Group 3 is switched on at 7:30 and off at 22:15. -/
def sabah : ZamanCommand :=
  { adres := 3, gurup := 1, on1s := 7, on1d := 30, off1s := 22, off1d := 15, pow1 := 200 }

/-- Three hours ahead, in November. -/
def november (_ : Nat) : Clock := ⟨1700000000, 10800⟩

theorem sabah_complete :
    ∃ d', setZaman 86401 november timetableInit sabah = some d' ∧ d'.Complete :=
  (setZaman_complete_iff 86401 november [] sabah rfl).mpr (by decide +kernel)

/-- Switching on at 7:00 is lost. -/
theorem full_hour_lost :
    ¬∃ d', setZaman 86401 november timetableInit { sabah with on1d := 0 } = some d' ∧
      d'.Complete := by
  have hjobs : (setZaman 86401 november timetableInit { sabah with on1d := 0 }).map (fun d' =>
      (d'.jobs.length, (setTimes d'.zaman).length)) = some (1, 2) := by
    decide +kernel
  rintro ⟨d', hd', hcomplete⟩
  rw [hd'] at hjobs
  have hlen := hcomplete.length_eq
  rw [List.length_map, List.length_map] at hlen
  simp only [Option.map_some, Option.some.injEq, Prod.mk.injEq] at hjobs
  omega

end DaliController.Schedule
