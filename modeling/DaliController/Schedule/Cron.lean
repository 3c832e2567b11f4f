import DaliController.Lib.Returns
import DaliController.Schedule.Zaman
import Mathlib.Data.List.Perm.Basic
import Mathlib.Logic.Function.Basic

/-! The tasks of the scheduler.  `cron_schedule_task` launches a task for the first job when its
time has come, takes the job out of the list and puts it back for its next time.  `init_cron` may
delete it anywhere on that way, also while it has the mutex of the list, and then destroys the jobs
of the list one by one.  A task that calls a `cron_next` that does not return goes no further. -/

namespace DaliController.Schedule

/-! ### The code -/

/-- `cron_job`: its schedule and data, its `id`, and whether it was freed. -/
structure Job where
  load : CronJob
  id : Int
  nextExecution : Int
  freed : Bool
  deriving DecidableEq, Repr

/-- Where `cron_schedule_task` is, with its `job`. -/
inductive SchedulePoint
  | looking
  | sleeping
  | launched (job : Nat)
  /-- In `cron_job_list_remove`, with the mutex. -/
  | removing (job : Nat)
  | unlinked (job : Nat)
  /-- Between `cron_job_list_remove` and `cron_job_list_insert`. -/
  | removed (job : Nat)
  /-- In `cron_job_list_insert`, with the mutex. -/
  | inserting (job : Nat)
  | linked (job : Nat)
  deriving DecidableEq, Repr

inductive LaunchStage
  | created
  | calling
  | ended
  deriving DecidableEq, Repr

/-- A task `cron_schedule_job_launcher`. -/
structure Launcher where
  job : Nat
  stage : LaunchStage
  deriving DecidableEq, Repr

/-- Where `init_cron` is, with the jobs that it has made and those that it has still to make. -/
inductive InitPoint
  | idle
  | clearing (todo : List CronJob)
  | creating (made : List Nat) (todo : List CronJob)
  deriving DecidableEq, Repr

/-- The jobs are numbered as they are allocated.  `task` is the task behind `state.handle`, and
`jobs` the array that `init_cron` filled last. -/
structure Cron where
  heap : Nat → Job
  allocated : Nat
  first : List Nat
  nextId : Nat
  semaphore : Bool
  running : Bool
  task : Option SchedulePoint
  launchers : List Launcher
  init : InitPoint
  jobs : List Nat

def cronInit : Cron where
  heap _ := ⟨⟨"", ⟨0, 0, 0, 0⟩⟩, -1, 0, false⟩
  allocated := 0
  first := []
  nextId := 0
  semaphore := false
  running := false
  task := none
  launchers := []
  init := .idle
  jobs := []

/-- `_cron_job_list_insert`. -/
def listInsert (nextExecution : Nat → Int) (new : Nat) : List Nat → List Nat
  | [] => [new]
  | j :: next =>
    if nextExecution new < nextExecution j then new :: j :: next
    else j :: listInsert nextExecution new next

/-- The loop of `cron_job_list_remove`, which does not look at the last of several nodes.  Without
a result it reads a node that is not there. -/
def listRemove (idOf : Nat → Int) (id : Int) : List Nat → Option (List Nat)
  | [] => none
  | [j] => if idOf j = id then some [] else none
  | j :: j' :: next =>
    if idOf j = id then some (j' :: next)
    else if next.isEmpty then some [j, j']
    else (listRemove idOf id (j' :: next)).map (j :: ·)

def Cron.setJob (s : Cron) (j : Nat) (job : Job) : Cron :=
  { s with heap := Function.update s.heap j job }

/-- The list with job `j` in it, and the `id` that a new job gets. -/
def Cron.insert (s : Cron) (j : Nat) : Cron :=
  { s with first := listInsert (fun i => (s.heap i).nextExecution) j s.first }

def Cron.number (s : Cron) (j : Nat) : Cron :=
  if (s.heap j).id = -1 then
    { s.setJob j { s.heap j with id := s.nextId } with nextId := s.nextId + 1 }
  else s

/-- `cron_stop`. -/
def cronStop (s : Cron) : Cron := if s.running then { s with running := false, task := none } else s

/-- `init_cron` is called, for the contents of `ZAMAN_FILE`, and deletes the scheduler task. -/
def Cron.begin (s : Cron) (zaman : UInt8 → Zaman) : Cron :=
  { cronStop s with init := .clearing (allJobs zaman) }

/-- `cron_start`. -/
def cronStart (s : Cron) (ok : Bool) : Cron :=
  if s.running ∨ s.task.isSome then s
  else { s with running := true, task := if ok then some .looking else none }

/-- `cron_job_destroy`.  While a task that was deleted has the mutex, the node stays. -/
def cronJobDestroy (s : Cron) (j : Nat) : Option Cron := do
  let first ←
    if (s.heap j).id < 0 ∨ s.semaphore then some s.first
    else listRemove (fun i => (s.heap i).id) (s.heap j).id s.first
  some { s.setJob j { s.heap j with freed := true } with first }

section

variable (cronNext : String → Clock → Option Int)

/-- A new job and its number, with its next time. -/
def Cron.create (s : Cron) (load : CronJob) (next : Int) : Nat × Cron :=
  let j := s.allocated
  let s := { s.setJob j ⟨load, -1, next, false⟩ with allocated := j + 1 }
  (j, if s.semaphore then s else (s.insert j).number j)

/-- `cron_job_create`, without a result if `cron_next` does not return. -/
def cronJobCreate (s : Cron) (load : CronJob) (clock : Clock) : Option (Nat × Cron) :=
  (cronNext load.expr clock).map (s.create load)

/-- The job that was launched gets its next time, and the mutex is tried for. -/
def Cron.rearm (s : Cron) (j : Nat) (next : Int) : Cron :=
  let s := s.setJob j { s.heap j with nextExecution := next }
  if s.semaphore then { s with task := some .looking }
  else { s with semaphore := true, task := some (.inserting j) }

/-- A step of `cron_schedule_task`. -/
def scheduleStep (s : Cron) (clock : Clock) (ok : Bool) : SchedulePoint → Option Cron
  | .looking =>
    match s.first with
    | [] => none
    | j :: _ =>
      let s := { s with running := true }
      if (s.heap j).nextExecution ≤ (clock.now : Int) then some { s with
        launchers := if ok then s.launchers ++ [⟨j, .created⟩] else s.launchers
        task := some (.launched j) }
      else some { s with task := some .sleeping }
  | .sleeping => some { s with task := some .looking }
  | .launched j =>
    if s.semaphore then some { s with task := some (.removed j) }
    else some { s with semaphore := true, task := some (.removing j) }
  | .removing j =>
    (listRemove (fun i => (s.heap i).id) (s.heap j).id s.first).map fun first =>
      { s with first, task := some (.unlinked j) }
  | .unlinked j => some { s with semaphore := false, task := some (.removed j) }
  | .removed j => (cronNext (s.heap j).load.expr clock).map (s.rearm j)
  | .inserting j => some { s.insert j with task := some (.linked j) }
  | .linked j => some { ({ s with semaphore := false }).number j with task := some .looking }

/-- A step of `init_cron` behind `cron_stop`. -/
def initStep (s : Cron) (clock : Clock) (ok : Bool) : InitPoint → Option Cron
  | .idle => none
  | .clearing todo =>
    match s.first with
    | [] => some { s with nextId := 0, init := .creating [] todo }
    | j :: _ => cronJobDestroy s j
  | .creating made (load :: todo) =>
    -- the array `jobs` has 20 places
    if made.length < 20 then
      (cronJobCreate cronNext s load clock).map fun r =>
        { r.2 with init := .creating (made ++ [r.1]) todo }
    else none
  | .creating made [] =>
    let s := { s with init := .idle, jobs := made }
    some (if made ≠ [] then cronStart s ok else s)

/-- `begin` is the call of `init_cron`, and `init` a step of it. -/
inductive CronEvent
  | begin (zaman : UInt8 → Zaman)
  | init (clock : Clock) (ok : Bool)
  | schedule (clock : Clock) (ok : Bool)
  | launcher (i : Nat)

def cronStep (s : Cron) : CronEvent → Option Cron
  | .begin zaman =>
    match s.init with
    | .idle => some (s.begin zaman)
    | _ => none
  | .init clock ok => initStep cronNext s clock ok s.init
  | .schedule clock ok => s.task.bind (scheduleStep cronNext s clock ok)
  | .launcher i =>
    match s.launchers[i]? with
    | some ⟨j, .created⟩ => some { s with launchers := s.launchers.set i ⟨j, .calling⟩ }
    | some ⟨j, .calling⟩ => some { s with launchers := s.launchers.set i ⟨j, .ended⟩ }
    | _ => none

end

/-! ### What is to hold -/

/-- No launched task is to run `cron_callback`, or runs it, on a job that was destroyed. -/
def Cron.Unharmed (s : Cron) : Prop :=
  ∀ l ∈ s.launchers, l.stage ≠ .ended → (s.heap l.job).freed = false

/-- A run of `init_cron`, while the other tasks go on. -/
def initCronRun : Runs.Operation Cron CronEvent where
  own
    | .init _ _ => true
    | _ => false
  during
    | .begin _ => false
    | _ => true
  returned s := s.init = .idle
  during_of_own e he := by
    cases e with
    | init clock ok => rfl
    | begin zaman => cases he
    | schedule clock ok => cases he
    | launcher i => cases he

/-- `init_cron` is called in `s`: it returns, the list then holds the jobs that it has created, and
no launched task is harmed, whatever the tasks do meanwhile. -/
structure Rescheduled (cronNext : String → Clock → Option Int) (s : Cron) (zaman : UInt8 → Zaman) :
    Prop where
  returns : ∃ n, initCronRun.Returns (cronStep cronNext) (s.begin zaman) n
  list : ∀ es t clock ok t', initCronRun.Between es →
    Runs.run (cronStep cronNext) (s.begin zaman) es = some t → t.init ≠ .idle →
    cronStep cronNext t (.init clock ok) = some t' → t'.init = .idle →
    t'.first.Perm t'.jobs ∧ t'.jobs.map (fun j => (t'.heap j).load) = allJobs zaman
  unharmed : ∀ es t, initCronRun.Between es →
    Runs.run (cronStep cronNext) (s.begin zaman) es = some t → t.Unharmed

/-- When `init_cron` is called, the scheduler task is not inside the list (or the list is empty and
is to stay so), every task that was launched for a job of the list has ended, and there is room for
the jobs. -/
def Calm (s : Cron) : CronEvent → Prop
  | .begin zaman => (s.semaphore = true → s.first = [] ∧ allJobs zaman = []) ∧
      (∀ l ∈ s.launchers, l.job ∈ s.first → l.stage = .ended) ∧ (allJobs zaman).length ≤ 20
  | _ => True

instance (s : Cron) : ∀ e, Decidable (Calm s e)
  | .begin _ => inferInstanceAs (Decidable (_ ∧ _ ∧ _))
  | .init _ _ | .schedule _ _ | .launcher _ => inferInstanceAs (Decidable True)

end DaliController.Schedule
