import DaliController.Lib.Runs
import DaliController.Lib.Table
import DaliController.Schedule.CronNext
import Mathlib.Algebra.Order.BigOperators.Group.List
import Mathlib.Algebra.Order.Group.Nat

/-! Timed switching.  `set_zaman` writes a record with four times to `ZAMAN_FILE`, and `init_cron`
creates a job for each time of the first 32 records that is set.  Both take a time for unset when
its hour or its minute is zero.  A job is put into the list of the scheduler for its next time, and
nothing more happens if the search for that time does not come to an end. -/

namespace DaliController.Schedule

/-! ### Records and jobs -/

/-- `zaman_t`. -/
structure Zaman where
  active : UInt8 := 0
  on1saat : UInt8 := 0
  on1dakika : UInt8 := 0
  on2saat : UInt8 := 0
  on2dakika : UInt8 := 0
  off1saat : UInt8 := 0
  off1dakika : UInt8 := 0
  off2saat : UInt8 := 0
  off2dakika : UInt8 := 0
  power1 : UInt8 := 0
  power2 : UInt8 := 0
  gurup : UInt8 := 0
  deriving DecidableEq, Repr

/-- `zaman_job_t`. -/
structure ZamanJob where
  type : UInt8
  command : UInt8
  addr : UInt8
  power : UInt8
  deriving DecidableEq, Repr

structure CronJob where
  expr : String
  data : ZamanJob
  deriving DecidableEq, Repr

def cronExpr (dak saat : UInt8) : String :=
  "0 " ++ toString dak.toNat ++ " " ++ toString saat.toNat ++ " * * *"

def createZjob (adr cm : UInt8) : ZamanJob :=
  if adr < 16 then ⟨1, cm, adr, 0⟩ else ⟨2, cm, adr - 16, 0⟩

/-! ### The list of the scheduler -/

/-- What is read of the clock: the time, and by how many seconds the local time is ahead. -/
structure Clock where
  now : Nat
  zone : Int
  deriving DecidableEq, Repr

/-- `cron_next` for the text of an expression, with as many calls of `do_next` inside each other. -/
def nextTime (rounds : Nat) (expr : String) (clock : Clock) : Option Int :=
  cronNext clock.zone rounds (cronParseExpr expr.toList cronExprZero).1 clock.now

/-- `cron_job`: `load` is whether it points to `expression`, and `schedule` is the text that was
parsed. -/
structure ScheduledJob where
  data : ZamanJob
  id : Int
  load : Bool
  expression : CronExpr
  nextExecution : Int
  schedule : List Char
  deriving DecidableEq, Repr

/-- `linked_link_state`.  When `taken` is set, a task that was deleted has the mutex. -/
structure JobList where
  first : List ScheduledJob
  nextId : Int
  taken : Bool
  deriving DecidableEq, Repr

/-- `_cron_job_list_insert`. -/
def insertJob (new : ScheduledJob) : List ScheduledJob → List ScheduledJob
  | [] => [new]
  | job :: next =>
    if new.nextExecution < job.nextExecution then new :: job :: next
    else job :: insertJob new next

def cronJobListInsert (l : JobList) (job : ScheduledJob) : JobList :=
  if l.taken then l
  else if job.id = -1 then
    { l with first := insertJob { job with id := l.nextId } l.first, nextId := l.nextId + 1 }
  else { l with first := insertJob job l.first }

/-- `cron_job_load_expression`.  Nobody looks at the error. -/
def cronJobLoadExpression (job : ScheduledJob) (schedule : List Char) : ScheduledJob :=
  let (expression, _) := cronParseExpr schedule cronExprZero
  { job with expression, schedule, load := true }

def cronJobHasLoaded (job : ScheduledJob) : Bool := job.load

/-- What `init_cron` fills: `cron_count`, what was written to `jobs`, and the list of the
scheduler. -/
structure JobTable where
  cronCount : UInt8
  writes : List (UInt8 × CronJob)
  list : JobList
  deriving DecidableEq, Repr

section

variable (rounds : Nat)

/-- `cron_job_schedule`, without a result if `cron_next` does not return. -/
def cronJobSchedule (l : JobList) (clock : Clock) (job : ScheduledJob) : Option JobList :=
  if !cronJobHasLoaded job then some l
  else (cronNext clock.zone rounds job.expression clock.now).map fun next =>
    cronJobListInsert l { job with nextExecution := next }

def jobCreate (l : JobList) (clock : Clock) (schedule : List Char) (data : ZamanJob) :
    Option JobList :=
  let job : ScheduledJob :=
    { data
      id := -1
      load := false
      expression := cronExprZero
      nextExecution := 0
      schedule := [] }
  cronJobSchedule rounds l clock (cronJobLoadExpression job schedule)

/-! ### `init_cron` -/

variable (clock : Nat → Clock)

/-- `jobs[cron_count++]=cron_job_create(..)`, with the clock at each creation.  An error is the
state in which `cron_next` does not return. -/
def JobTable.put (t : JobTable) (job : CronJob) : Except JobTable JobTable :=
  match jobCreate rounds t.list (clock t.writes.length) job.expr.toList job.data with
  | some list => .ok ⟨t.cronCount + 1, t.writes ++ [(t.cronCount, job)], list⟩
  | none => .error t

def addCron (t : JobTable) (saat dak : UInt8) (data : ZamanJob) : Except JobTable JobTable :=
  t.put rounds clock ⟨cronExpr dak saat, data⟩

/-- One of the four conditions of `init_cron`. -/
def addWhen (t : JobTable) (saat dakika : UInt8) (jb : ZamanJob) : Except JobTable JobTable :=
  if 0 < saat ∧ 0 < dakika then addCron rounds clock t saat dakika jb else .ok t

/-- The body of the loop of `init_cron`. -/
def initRecord (t : JobTable) (i : UInt8) (kk : Zaman) : Except JobTable JobTable :=
  if 0 < kk.active then do
    let km : UInt8 := if kk.gurup = 0 then 3 else 1
    let add := addWhen rounds clock
    let t ← add t kk.on1saat kk.on1dakika { createZjob i km with power := kk.power1 }
    let t ← add t kk.on2saat kk.on2dakika { createZjob i km with power := kk.power2 }
    let t ← add t kk.off1saat kk.off1dakika { createZjob i 2 with power := 0 }
    add t kk.off2saat kk.off2dakika { createZjob i 2 with power := 0 }
  else .ok t

/-- `init_cron` on the records of `ZAMAN_FILE`, when the list has been cleared. -/
def initCron (taken : Bool) (zaman : UInt8 → Zaman) : Except JobTable JobTable :=
  (List.range 32).foldlM
    (fun t i => initRecord rounds clock t (UInt8.ofNat i) (zaman (UInt8.ofNat i)))
    ⟨0, [], [], 0, taken⟩

end

/-- Every write is to one of the 20 places of `jobs`. -/
def JobTable.InBounds (t : JobTable) : Prop := ∀ w ∈ t.writes, w.1 < 20

instance (t : JobTable) : Decidable t.InBounds := inferInstanceAs (Decidable (∀ w ∈ t.writes, _))

/-! ### `set_zaman` -/

/-- The fields of `set_zaman`.  A field that is missing is zero. -/
structure ZamanCommand where
  adres : UInt8 := 0
  gurup : UInt8 := 0
  on1s : UInt8 := 0
  on1d : UInt8 := 0
  on2s : UInt8 := 0
  on2d : UInt8 := 0
  off1s : UInt8 := 0
  off1d : UInt8 := 0
  off2s : UInt8 := 0
  off2d : UInt8 := 0
  pow1 : UInt8 := 0
  pow2 : UInt8 := 0
  deriving DecidableEq, Repr

/-- The record that `set_zaman` writes. -/
def ZamanCommand.record (c : ZamanCommand) : Zaman where
  active := if (0 < c.on1s ∧ 0 < c.on1d) ∨ (0 < c.on2s ∧ 0 < c.on2d) ∨
    (0 < c.off1s ∧ 0 < c.off1d) ∨ (0 < c.off2s ∧ 0 < c.off2d) then 1 else 0
  on1saat := c.on1s
  on1dakika := c.on1d
  on2saat := c.on2s
  on2dakika := c.on2d
  off1saat := c.off1s
  off1dakika := c.off1d
  off2saat := c.off2s
  off2dakika := c.off2d
  power1 := if c.pow1 < 10 then 150 else c.pow1
  power2 := if c.pow2 < 10 then 150 else c.pow2
  gurup := c.gurup

/-- The record number, a `uint8_t`. -/
def slot (gurup adres : UInt8) : Option UInt8 :=
  if gurup = 1 then some adres else if gurup = 0 then some (adres + 16) else none

/-- `ZAMAN_FILE`, the jobs in the order in which they were created, and how often the clock was
read for a job. -/
structure Timetable where
  zaman : UInt8 → Zaman
  jobs : List CronJob
  readings : Nat

/-- `ZAMAN_FILE` after `set_zaman`. -/
def written (zaman : UInt8 → Zaman) (c : ZamanCommand) : UInt8 → Zaman :=
  match slot c.gurup c.adres with
  | some i => Function.update zaman i c.record
  | none => zaman

/-- What `init_cron` leaves, without a result when it does not return or writes outside `jobs`. -/
def scheduled (rounds : Nat) (clock : Nat → Clock) (readings : Nat) (zaman : UInt8 → Zaman) :
    Option Timetable :=
  match initCron rounds (fun k => clock (readings + k)) false zaman with
  | .ok t =>
    if t.InBounds then some ⟨zaman, t.writes.map Prod.snd, readings + t.writes.length⟩ else none
  | .error _ => none

/-- `set_zaman`. -/
def setZaman (rounds : Nat) (clock : Nat → Clock) (d : Timetable) (c : ZamanCommand) :
    Option Timetable :=
  match slot c.gurup c.adres with
  | some _ => scheduled rounds clock d.readings (written d.zaman c)
  | none => some d

/-- An empty `ZAMAN_FILE`. -/
def timetableInit : Timetable := ⟨fun _ => {}, [], 0⟩

/-! ### The jobs that `init_cron` creates -/

def jobWhen (saat dakika : UInt8) (jb : ZamanJob) : List CronJob :=
  if 0 < saat ∧ 0 < dakika then [⟨cronExpr dakika saat, jb⟩] else []

def recordJobs (i : UInt8) (kk : Zaman) : List CronJob :=
  if 0 < kk.active then
    let km : UInt8 := if kk.gurup = 0 then 3 else 1
    jobWhen kk.on1saat kk.on1dakika { createZjob i km with power := kk.power1 } ++
    jobWhen kk.on2saat kk.on2dakika { createZjob i km with power := kk.power2 } ++
    jobWhen kk.off1saat kk.off1dakika { createZjob i 2 with power := 0 } ++
    jobWhen kk.off2saat kk.off2dakika { createZjob i 2 with power := 0 }
  else []

/-- The jobs that the records ask for. -/
def allJobs (zaman : UInt8 → Zaman) : List CronJob :=
  (List.range 32).flatMap fun i => recordJobs (UInt8.ofNat i) (zaman (UInt8.ofNat i))

section

variable (rounds : Nat) (clock : Nat → Clock)

theorem addWhen_eq (t : JobTable) (saat dakika : UInt8) (jb : ZamanJob) :
    addWhen rounds clock t saat dakika jb =
      (jobWhen saat dakika jb).foldlM (JobTable.put rounds clock) t := by
  unfold addWhen jobWhen
  split
  · exact (bind_pure _).symm
  · rfl

theorem initRecord_eq (t : JobTable) (i : UInt8) (kk : Zaman) :
    initRecord rounds clock t i kk =
      (recordJobs i kk).foldlM (JobTable.put rounds clock) t := by
  unfold initRecord recordJobs
  split
  · simp only [addWhen_eq, List.foldlM_append, bind_assoc]
  · rfl

/-- `init_cron` creates the jobs one after another. -/
theorem initCron_eq (taken : Bool) (zaman : UInt8 → Zaman) :
    initCron rounds clock taken zaman =
      (allJobs zaman).foldlM (JobTable.put rounds clock) ⟨0, [], [], 0, taken⟩ := by
  unfold initCron allJobs
  simp only [initRecord_eq]
  exact Table.foldlM_flatMap _ _ _ _

/-! ### What it leaves -/

/-- `cron_next` returns for the `k`th job. -/
def returns (k : Nat) (expr : String) : Bool := (nextTime rounds expr (clock k)).isSome

/-- The jobs that are created: those up to the first one for which `cron_next` does not return. -/
def created (k : Nat) (jobs : List CronJob) : List CronJob :=
  Table.upTo (fun i job => returns rounds clock i job.expr) k jobs

/-- The jobs were created and written one after another, and each of them is in the list unless the
mutex is taken. -/
structure Filled (taken : Bool) (jobs : List CronJob) (t : JobTable) : Prop where
  cronCount : t.cronCount = UInt8.ofNat jobs.length
  writes : t.writes = jobs.zipIdx.map fun w => (UInt8.ofNat w.2, w.1)
  mutex : t.list.taken = taken
  list : (t.list.first.map ScheduledJob.schedule).Perm
    (if taken then [] else jobs.map fun job => job.expr.toList)

theorem insertJob_perm (new : ScheduledJob) (first : List ScheduledJob) :
    (insertJob new first).Perm (new :: first) := by
  induction first with
  | nil => exact .refl _
  | cons job next ih =>
    rw [insertJob]
    split
    · exact .refl _
    · exact (ih.cons job).trans (.swap new job next)

theorem cronJobListInsert_perm (l : JobList) (job : ScheduledJob) (hid : job.id = -1) :
    (cronJobListInsert l job).taken = l.taken ∧
      ((cronJobListInsert l job).first.map ScheduledJob.schedule).Perm
        (if l.taken then l.first.map ScheduledJob.schedule
        else job.schedule :: l.first.map ScheduledJob.schedule) := by
  unfold cronJobListInsert
  cases htaken : l.taken with
  | true => simp [htaken]
  | false =>
    have hperm := (insertJob_perm { job with id := l.nextId } l.first).map ScheduledJob.schedule
    simpa [hid, htaken] using hperm

variable {rounds clock}

variable (rounds clock) in
theorem Filled.put {taken : Bool} {jobs : List CronJob} {t : JobTable} (h : Filled taken jobs t)
    (job : CronJob) : if returns rounds clock jobs.length job.expr then
        ∃ t', t.put rounds clock job = .ok t' ∧ Filled taken (jobs ++ [job]) t'
      else t.put rounds clock job = .error t := by
  have hlen : t.writes.length = jobs.length := by simp [h.writes]
  unfold JobTable.put jobCreate cronJobSchedule returns nextTime
  simp only [cronJobHasLoaded, cronJobLoadExpression, Bool.not_true, Bool.false_eq_true, if_false,
    hlen]
  cases cronNext (clock jobs.length).zone rounds (cronParseExpr job.expr.toList cronExprZero).1
      (clock jobs.length).now with
  | none => rfl
  | some next =>
    refine ⟨_, rfl, ?_⟩
    obtain ⟨htaken, hperm⟩ := cronJobListInsert_perm t.list
      ⟨job.data, -1, true, (cronParseExpr job.expr.toList cronExprZero).1, next,
        job.expr.toList⟩ rfl
    rw [h.mutex] at htaken hperm
    refine ⟨?_, ?_, htaken, hperm.trans ?_⟩
    · simp [h.cronCount]
    · simp [h.writes, h.cronCount, List.zipIdx_append]
    · have hlist := h.list
      cases taken with
      | true => exact hlist
      | false =>
        rw [List.map_append]
        exact (hlist.cons _).trans (List.perm_append_singleton _ _).symm

variable (rounds clock) in
theorem Filled.foldlM_put {taken : Bool} {made : List CronJob} {t : JobTable}
    (h : Filled taken made t) (jobs : List CronJob) :
    ∃ t', Filled taken (made ++ created rounds clock made.length jobs) t' ∧
      jobs.foldlM (JobTable.put rounds clock) t =
        if created rounds clock made.length jobs = jobs then .ok t' else .error t' := by
  induction jobs generalizing made t with
  | nil => exact ⟨t, by rwa [created, Table.upTo, List.append_nil], rfl⟩
  | cons job jobs ih =>
    have hput := h.put rounds clock job
    rw [created, Table.upTo, ← created, List.foldlM_cons]
    split at hput
    · rename_i hreturns
      obtain ⟨u, hu, hfilled⟩ := hput
      obtain ⟨t', ht', hrest⟩ := ih hfilled
      rw [List.length_append, List.length_singleton] at ht' hrest
      rw [if_pos hreturns, hu]
      refine ⟨t', by rwa [List.append_assoc] at ht', ?_⟩
      simp only [List.cons.injEq, true_and]
      exact hrest
    · rename_i hreturns
      rw [if_neg hreturns, hput]
      exact ⟨t, by rwa [List.append_nil], rfl⟩

variable (rounds clock) in
/-- `init_cron` creates the jobs up to the first one for which `cron_next` does not return, and
returns if there is none. -/
theorem initCron_created (taken : Bool) (zaman : UInt8 → Zaman) :
    ∃ t, Filled taken (created rounds clock 0 (allJobs zaman)) t ∧
      initCron rounds clock taken zaman =
        if created rounds clock 0 (allJobs zaman) = allJobs zaman then .ok t else .error t := by
  have hstart : Filled taken [] ⟨0, [], [], 0, taken⟩ := ⟨rfl, rfl, rfl, by cases taken <;> rfl⟩
  obtain ⟨t, ht, hfold⟩ := hstart.foldlM_put rounds clock (allJobs zaman)
  exact ⟨t, ht, (initCron_eq rounds clock taken zaman).trans hfold⟩

/-! ### How many jobs there are -/

theorem length_jobWhen_le (saat dakika : UInt8) (jb : ZamanJob) :
    (jobWhen saat dakika jb).length ≤ 1 := by
  unfold jobWhen
  split <;> simp

/-- 32 records of four times do not make `cron_count` wrap. -/
theorem length_allJobs_le (zaman : UInt8 → Zaman) : (allJobs zaman).length ≤ 128 := by
  have hrecord (i : UInt8) (kk : Zaman) : (recordJobs i kk).length ≤ 4 := by
    unfold recordJobs
    split
    · simp only [List.length_append]
      have hone := length_jobWhen_le
      exact Nat.add_le_add (Nat.add_le_add (Nat.add_le_add (hone _ _ _) (hone _ _ _))
        (hone _ _ _)) (hone _ _ _)
    · exact Nat.zero_le 4
  rw [allJobs, List.length_flatMap]
  refine (List.sum_le_card_nsmul _ 4 ?_).trans (by simp)
  intro n hn
  obtain ⟨i, -, rfl⟩ := List.mem_map.mp hn
  exact hrecord _ _

theorem length_created_le (zaman : UInt8 → Zaman) :
    (created rounds clock 0 (allJobs zaman)).length ≤ 128 :=
  (Table.upTo_sublist _ _ _).length_le.trans (length_allJobs_le zaman)

/-- As long as `cron_count` does not wrap, the writes are in bounds if there are at most 20. -/
theorem Filled.inBounds_iff {taken : Bool} {jobs : List CronJob} {t : JobTable}
    (h : Filled taken jobs t) (hlen : jobs.length ≤ 128) : t.InBounds ↔ jobs.length ≤ 20 := by
  unfold JobTable.InBounds
  rw [h.writes]
  constructor
  · intro hall
    by_contra hmany
    have hwrite := hall (UInt8.ofNat 20, jobs[20]) <| List.mem_map.mpr
      ⟨(jobs[20], 20), List.mk_mem_zipIdx_iff_getElem?.mpr (List.getElem?_eq_getElem _), rfl⟩
    have hout : ¬UInt8.ofNat 20 < 20 := by decide
    exact hout hwrite
  · intro hfew w hw
    obtain ⟨⟨job, i⟩, hmem, rfl⟩ := List.mem_map.mp hw
    have hi : i < jobs.length := (List.mem_zipIdx' hmem).1
    rw [UInt8.ofNat_lt_iff (show i < 256 by omega)]
    exact Nat.lt_of_lt_of_le hi hfew

theorem Filled.map_writes {taken : Bool} {jobs : List CronJob} {t : JobTable}
    (h : Filled taken jobs t) : t.writes.map Prod.snd = jobs := by
  rw [h.writes, List.map_map]
  exact List.zipIdx_map_fst 0 _

/-- `init_cron` returns with all jobs in their places if `cron_next` returns for each of them, and
there are at most 20. -/
theorem scheduled_eq (n : Nat) (zaman : UInt8 → Zaman) : scheduled rounds clock n zaman =
    if created rounds (fun k => clock (n + k)) 0 (allJobs zaman) = allJobs zaman ∧
      (allJobs zaman).length ≤ 20 then
      some ⟨zaman, allJobs zaman, n + (allJobs zaman).length⟩
    else none := by
  obtain ⟨t, ht, hinit⟩ := initCron_created rounds (fun k => clock (n + k)) false zaman
  unfold scheduled
  rw [hinit]
  by_cases hall : created rounds (fun k => clock (n + k)) 0 (allJobs zaman) = allJobs zaman
  · rw [hall] at ht
    have hwrites := ht.map_writes
    have hlen : t.writes.length = (allJobs zaman).length := by
      rw [← hwrites, List.length_map]
    rw [if_pos hall]
    simp only [ht.inBounds_iff (length_allJobs_le zaman), hall, true_and, hwrites, hlen]
  · simp only [if_neg hall, hall, false_and, if_false]

end

end DaliController.Schedule
