import DaliController.Schedule.Launches
import DaliController.Schedule.Targets

/-! Timed switching as a whole.  Clients set times, the power fails at any moment, `time_sync` may
set the time zone, and `init_cron`, the scheduler and the tasks that it launches go on step by step.
Whenever `init_cron` is not at work, there is one job for each entry that the clients have set last,
and it is launched for the times of the entry. -/

namespace DaliController.Schedule

open Runs

/-- `ZAMAN_FILE` and what is in memory. -/
structure Switching where
  zaman : UInt8 → Zaman
  cron : Cron

def switchingInit : Switching := ⟨fun _ => {}, cronInit⟩

/-- A client sets times, `main` starts, or a task goes on, with the clock and the zone of the
moment. -/
inductive SwitchEvent
  | setZaman (c : ZamanCommand)
  | start
  | task (e : CronEvent)

/-- The calls of `init_cron` are those of `set_zaman` and `main`.  What was in memory before `main`
is lost. -/
def switchStep (cronNext : String → Clock → Option Int) (s : Switching) :
    SwitchEvent → Option Switching
  | .setZaman c =>
    match slot c.gurup c.adres with
    | some _ =>
      (cronStep cronNext s.cron (.begin (written s.zaman c))).map fun cron =>
        ⟨written s.zaman c, cron⟩
    | none => some s
  | .start => some ⟨s.zaman, cronInit.begin s.zaman⟩
  | .task (.begin _) => none
  | .task e => (cronStep cronNext s.cron e).map fun cron => { s with cron }

/-- The commands of the clients. -/
def SwitchEvent.command : SwitchEvent → Option ZamanCommand
  | .setZaman c => some c
  | .start | .task _ => none

def commands (es : List SwitchEvent) : List ZamanCommand := es.filterMap SwitchEvent.command

def SwitchEvent.clock : SwitchEvent → Option Clock
  | .task e => e.clock
  | .setZaman _ | .start => none

/-- The commands are for times of a clock, and the local time is one of the zones. -/
structure SwitchEvent.Valid (zones : Set Int) (e : SwitchEvent) : Prop where
  command : ∀ c ∈ e.command, c.Plain ∧ c.OnClock
  zone : ∀ clock ∈ e.clock, clock.zone ∈ zones

/-- `set_zaman` comes at the right moment. -/
def SwitchCalm (s : Switching) : SwitchEvent → Prop
  | .setZaman c => Calm s.cron (.begin (written s.zaman c))
  | .start | .task _ => True

instance (s : Switching) : ∀ e, Decidable (SwitchCalm s e)
  | .setZaman c => inferInstanceAs (Decidable (Calm s.cron (.begin (written s.zaman c))))
  | .start | .task _ => inferInstanceAs (Decidable True)

/-- The clock shows the hour and the minute of the entry, in one of the zones. -/
def Entry.At (zones : Set Int) (e : Entry) (x : Int) : Prop :=
  ∃ zone ∈ zones, DailyAt zone e.dakika e.saat x

/-- Each entry has one job.  The job waits for a time of the entry, and does what the entry is for,
unless the target is group 16. -/
structure InEffect (zones : Set Int) (packageAddress : Address → UInt8) (cs : List ZamanCommand)
    (s : Cron) : Prop where
  jobs : List.Forall₂ (fun e j => e.At zones (s.due j) ∧
    (e.Performed packageAddress (cronCallback (s.heap j).load.data) ↔ e.target ≠ .group 16))
    (entries cs) s.jobs
  list : (s.first ++ s.out).Perm s.jobs
  nodup : s.jobs.Nodup

section

variable {cronNext : String → Clock → Option Int} {zones : Set Int}

/-! ### What the tasks leave of the jobs -/

/-- The job waits for a time that `cron_next` has given for it, in one of the zones. -/
def Cron.Waits (cronNext : String → Clock → Option Int) (zones : Set Int) (s : Cron) (j : Nat) :
    Prop :=
  ∃ clock : Clock, clock.zone ∈ zones ∧ cronNext (s.heap j).load.expr clock = some (s.due j)

/-- The job that is launched in a step. -/
def Cron.launched (s : Cron) (e : CronEvent) : List Nat :=
  (scheduleLabel s e).toList.flatMap Timers.Event.fires

/-- A step of the scheduler leaves the jobs as they are, but for their times, and launches jobs of
the list, if there is memory for the task. -/
structure SchedulerKeeps (cronNext : String → Clock → Option Int) (zones : Set Int) (s s' : Cron)
    (ok : Bool) (launched : List Nat) : Prop where
  jobs : s'.jobs = s.jobs
  load : ∀ i, (s'.heap i).load = (s.heap i).load
  due : ∀ i, s'.due i = s.due i ∨ s'.Waits cronNext zones i
  first : ∀ j ∈ launched, j ∈ s.first
  launchers : s'.launchers =
    s.launchers ++ if ok then launched.map fun j => ⟨j, .created⟩ else []

theorem SchedulerKeeps.waits {s s' : Cron} {ok : Bool} {launched : List Nat}
    (h : SchedulerKeeps cronNext zones s s' ok launched) {j : Nat} (hj : s.Waits cronNext zones j) :
    s'.Waits cronNext zones j := by
  rcases h.due j with hsame | hnew
  · obtain ⟨clock, hzone, hclock⟩ := hj
    refine ⟨clock, hzone, ?_⟩
    rw [hsame, h.load j]
    exact hclock
  · exact hnew

theorem SchedulerKeeps.mem_launchers {s s' : Cron} {ok : Bool} {launched : List Nat}
    (h : SchedulerKeeps cronNext zones s s' ok launched) {l : Launcher} (hl : l ∈ s'.launchers) :
    l ∈ s.launchers ∨ l.job ∈ s.first := by
  rw [h.launchers, List.mem_append] at hl
  refine hl.imp_right fun hl => ?_
  cases ok with
  | false => cases hl
  | true =>
    obtain ⟨j, hj, rfl⟩ := List.mem_map.mp hl
    exact h.first j hj

/-- A step that launches nothing, and touches no job. -/
theorem SchedulerKeeps.same {s s' : Cron} {ok : Bool} {launched : List Nat}
    (hnone : launched = []) (hjobs : s'.jobs = s.jobs) (hheap : s'.heap = s.heap)
    (hlaunchers : s'.launchers = s.launchers) :
    SchedulerKeeps cronNext zones s s' ok launched := by
  subst hnone
  refine ⟨hjobs, fun i => by rw [hheap], fun i => .inl ?_, nofun, ?_⟩
  · rw [Cron.due, hheap, Cron.due]
  · rw [hlaunchers, List.map_nil, ite_self, List.append_nil]

/-- The job that is put back waits for its next time. -/
theorem schedulerKeeps_rearm {s : Cron} {j : Nat} {x : Int} {clock : Clock} {ok : Bool}
    {launched : List Nat} (hnone : launched = []) (hzone : clock.zone ∈ zones)
    (hx : cronNext (s.heap j).load.expr clock = some x) :
    SchedulerKeeps cronNext zones s (s.rearm j x) ok launched := by
  subst hnone
  have hheap : (s.rearm j x).heap = (s.setJob j { s.heap j with nextExecution := x }).heap ∧
      (s.rearm j x).jobs = s.jobs ∧ (s.rearm j x).launchers = s.launchers := by
    unfold Cron.rearm
    simp only
    split
    · exact ⟨rfl, rfl, rfl⟩
    · exact ⟨rfl, rfl, rfl⟩
  obtain ⟨hheap, hjobs, hlaunchers⟩ := hheap
  have hload (i : Nat) : ((s.rearm j x).heap i).load = (s.heap i).load := by
    rw [hheap]
    exact expr_setJob _ (by rfl) i
  refine ⟨hjobs, hload, fun i => ?_, nofun, ?_⟩
  · rcases eq_or_ne i j with rfl | hne
    · refine .inr ⟨clock, hzone, ?_⟩
      rw [hload, hx, Cron.due, hheap]
      simp [Cron.setJob]
    · refine .inl ?_
      rw [Cron.due, hheap]
      exact due_setJob_of_ne hne _
  · rw [hlaunchers, List.map_nil, ite_self, List.append_nil]

theorem schedulerKeeps_number {s s' : Cron} {j : Nat} {ok : Bool} {launched : List Nat}
    (h : SchedulerKeeps cronNext zones s s' ok launched) :
    SchedulerKeeps cronNext zones s (s'.number j) ok launched := by
  unfold Cron.number
  split
  · have hload (i : Nat) : ((s'.setJob j { s'.heap j with id := s'.nextId }).heap i).load =
        (s'.heap i).load := expr_setJob _ (by rfl) i
    have hdue (i : Nat) : (s'.setJob j { s'.heap j with id := s'.nextId }).due i = s'.due i :=
      due_setJob _ (by rfl) i
    refine ⟨h.jobs, fun i => (hload i).trans (h.load i), fun i => ?_, h.first, h.launchers⟩
    refine (h.due i).imp (fun hsame => (hdue i).trans hsame) ?_
    rintro ⟨clock, hzone, hclock⟩
    refine ⟨clock, hzone, ?_⟩
    rw [hload i]
    exact hclock.trans (congrArg some (hdue i).symm)
  · exact h

theorem schedulerKeeps {s s' : Cron} {p : SchedulePoint} (hp : s.task = some p) {clock : Clock}
    {ok : Bool} (hzone : clock.zone ∈ zones)
    (hstep : scheduleStep cronNext s clock ok p = some s') :
    SchedulerKeeps cronNext zones s s' ok (s.launched (.schedule clock ok)) := by
  cases p with
  | looking =>
    rw [scheduleStep] at hstep
    split at hstep
    · cases hstep
    · rename_i j next hfirst
      simp only at hstep
      split at hstep
      · rename_i hdue
        have hlaunched : s.launched (.schedule clock ok) = [j] := by
          simp only [Cron.launched, scheduleLabel, hp, hfirst]
          rw [if_pos (show s.due j ≤ clock.now from hdue)]
          rfl
        cases hstep
        rw [hlaunched]
        refine ⟨rfl, fun _ => rfl, fun _ => .inl rfl, fun i hi => ?_, ?_⟩
        · rw [List.mem_singleton.mp hi, hfirst]
          exact List.mem_cons_self
        · cases ok with
          | false => exact (List.append_nil _).symm
          | true => rfl
      · rename_i hdue
        cases hstep
        refine .same ?_ rfl rfl rfl
        simp only [Cron.launched, scheduleLabel, hp, hfirst]
        rw [if_neg (show ¬s.due j ≤ clock.now from hdue)]
        rfl
  | sleeping | unlinked j | inserting j =>
    cases hstep
    refine .same ?_ rfl rfl rfl
    simp only [Cron.launched, scheduleLabel, hp]
    rfl
  | launched j =>
    have hnone : s.launched (.schedule clock ok) = [] := by
      simp only [Cron.launched, scheduleLabel, hp]
      rfl
    rw [scheduleStep] at hstep
    split at hstep
    · cases hstep
      exact .same hnone rfl rfl rfl
    · cases hstep
      exact .same hnone rfl rfl rfl
  | removing j =>
    obtain ⟨first, -, rfl⟩ := Option.map_eq_some_iff.mp hstep
    refine .same ?_ rfl rfl rfl
    simp only [Cron.launched, scheduleLabel, hp]
    rfl
  | removed j =>
    have hnone : s.launched (.schedule clock ok) = [] := by
      simp only [Cron.launched, scheduleLabel, hp]
      rfl
    obtain ⟨x, hx, rfl⟩ := Option.map_eq_some_iff.mp hstep
    exact schedulerKeeps_rearm hnone hzone hx
  | linked j =>
    have hnone : s.launched (.schedule clock ok) = [] := by
      simp only [Cron.launched, scheduleLabel, hp]
      rfl
    cases hstep
    have hfree : SchedulerKeeps cronNext zones s { s with semaphore := false } ok
        (s.launched (.schedule clock ok)) := .same hnone rfl rfl rfl
    obtain ⟨hjobs, hload, hdue, hfirst, hlaunchers⟩ := schedulerKeeps_number (j := j) hfree
    exact ⟨hjobs, hload, hdue, hfirst, hlaunchers⟩

/-- A launched task goes on, with its job. -/
theorem launcher_goes {s s' : Cron} {i : Nat}
    (hstep : cronStep cronNext s (.launcher i) = some s') :
    ∃ l stage, s.launchers[i]? = some l ∧ l.stage ≠ .ended ∧
      s' = { s with launchers := s.launchers.set i ⟨l.job, stage⟩ } := by
  cases hl : s.launchers[i]? with
  | none =>
    rw [cronStep, hl] at hstep
    cases hstep
  | some l =>
    obtain ⟨j, stage⟩ := l
    rw [cronStep, hl] at hstep
    cases stage with
    | created =>
      cases hstep
      exact ⟨⟨j, .created⟩, .calling, rfl, LaunchStage.noConfusion, rfl⟩
    | calling =>
      cases hstep
      exact ⟨⟨j, .calling⟩, .ended, rfl, LaunchStage.noConfusion, rfl⟩
    | ended => cases hstep

/-- The jobs that `init_cron` has made so far. -/
def InitPoint.made : InitPoint → List Nat
  | .idle | .clearing _ => []
  | .creating made _ => made

/-- A step of `init_cron` leaves the jobs of the launched tasks as they are, makes jobs that wait
for their times, and keeps those that it has made at the end. -/
structure InitKeeps (cronNext : String → Clock → Option Int) (zones : Set Int) (s s' : Cron) :
    Prop where
  launchers : s'.launchers = s.launchers
  load : ∀ i < s.allocated, (s'.heap i).load = (s.heap i).load
  made : (∀ j ∈ s.init.made, j < s.allocated ∧ s.Waits cronNext zones j) →
    ∀ j ∈ s'.init.made, s'.Waits cronNext zones j
  jobs : s'.init = .idle → s'.heap = s.heap ∧ s.init = .creating s'.jobs []

theorem initKeeps {s s' : Cron} (hs : Sound s) {clock : Clock} {ok : Bool}
    (hzone : clock.zone ∈ zones)
    (hstep : cronStep cronNext s (.init clock ok) = some s') : InitKeeps cronNext zones s s' := by
  cases initStep_cases hstep with
  | @destroy todo j next s' hinit hfirst hdestroy =>
    rw [(hs.stopped (by rw [hinit]; exact InitPoint.noConfusion)).destroy_eq hfirst] at hdestroy
    cases hdestroy
    constructor
    case launchers => rfl
    case load => exact fun i _ => expr_setJob (s := s) { s.heap j with freed := true } (by rfl) i
    case made =>
      intro _ i hi
      have hnone : i ∈ s.init.made := hi
      rw [hinit] at hnone
      cases hnone
    case jobs =>
      intro hidle
      have hidle : s.init = .idle := hidle
      rw [hinit] at hidle
      cases hidle
  | cleared hinit hfirst => exact ⟨rfl, fun _ _ => rfl, fun _ => nofun, nofun⟩
  | @create made load todo x hinit hroom hx =>
    have hfree : s.semaphore = false := by
      refine (hs.stopped (by rw [hinit]; exact nofun)).semaphore_free (.inr ?_)
      rw [hinit]
      exact List.cons_ne_nil load todo
    obtain ⟨first, -, hcreate⟩ := create_eq hfree load x
    rw [hcreate]
    have hold (i : Nat) (hi : i < s.allocated) (job : Job) :
        Function.update s.heap s.allocated job i = s.heap i :=
      Function.update_of_ne (Nat.ne_of_lt hi) _ _
    constructor
    case launchers => rfl
    case load => exact fun i hi => congrArg Job.load (hold i hi _)
    case made =>
      intro hmade i hi
      rcases List.mem_append.mp hi with hi | hi
      · rw [hinit] at hmade
        obtain ⟨hlt, r, hr, hclock⟩ := hmade i hi
        refine ⟨r, hr, ?_⟩
        show cronNext (Function.update s.heap s.allocated _ i).load.expr r =
          some (Function.update s.heap s.allocated _ i).nextExecution
        rw [hold i hlt]
        exact hclock
      · refine ⟨clock, hzone, ?_⟩
        rw [List.mem_singleton.mp hi]
        show cronNext (Function.update s.heap s.allocated _ s.allocated).load.expr clock =
          some (Function.update s.heap s.allocated _ s.allocated).nextExecution
        rw [Function.update_self]
        exact hx
    case jobs => exact nofun
  | @finish made hinit =>
    obtain ⟨running, task, hfinish⟩ := finish_eq s made ok
    rw [hfinish]
    exact ⟨rfl, fun _ _ => rfl, fun _ => nofun, fun _ => ⟨rfl, hinit⟩⟩

/-! ### Whole runs -/

/-- What holds after the commands `cs`. -/
structure Tracked (cronNext : String → Clock → Option Int) (zones : Set Int)
    (cs : List ZamanCommand) (s : Switching) : Prop where
  valid : ∀ c ∈ cs, c.Plain ∧ c.OnClock
  kept : Kept cs s.zaman
  room : (allJobs s.zaman).length ≤ 20
  sound : Sound s.cron
  loaded : s.cron.Loaded (allJobs s.zaman)
  made : ∀ j ∈ s.cron.init.made, s.cron.Waits cronNext zones j
  jobs : s.cron.init = .idle → s.cron.jobs.map (fun j => (s.cron.heap j).load) = allJobs s.zaman ∧
    ∀ j ∈ s.cron.jobs, s.cron.Waits cronNext zones j
  launchers : ∀ l ∈ s.cron.launchers, l.stage ≠ .ended →
    ∃ ps, ps <+: cs ∧ ∃ e ∈ entries ps, (s.cron.heap l.job).load = e.job

theorem Tracked.plain {cs : List ZamanCommand} {s : Switching} (h : Tracked cronNext zones cs s) :
    ∀ c ∈ cs, c.Plain :=
  fun c hc => (h.valid c hc).1

/-- The jobs of the list are those of the entries. -/
theorem Tracked.mem_first {cs : List ZamanCommand} {s : Switching} (h : Tracked cronNext zones cs s)
    (hidle : s.cron.init = .idle) {j : Nat} (hj : j ∈ s.cron.first) :
    j ∈ s.cron.jobs ∧ ∃ e ∈ entries cs, (s.cron.heap j).load = e.job := by
  have hperm := h.sound.init
  unfold Cron.InitSound at hperm
  rw [hidle] at hperm
  have hmem : j ∈ s.cron.jobs := hperm.mem_iff.mp (List.mem_append_left _ hj)
  refine ⟨hmem, ?_⟩
  have hload : (s.cron.heap j).load ∈ allJobs s.zaman := by
    rw [← (h.jobs hidle).1]
    exact List.mem_map_of_mem hmem
  rw [allJobs_kept h.kept h.plain] at hload
  obtain ⟨e, he, hjob⟩ := List.mem_map.mp hload
  exact ⟨e, he, hjob.symm⟩

theorem tracked_begin {cs : List ZamanCommand} {zaman : UInt8 → Zaman} {s : Cron}
    (hvalid : ∀ c ∈ cs, c.Plain ∧ c.OnClock) (hkept : Kept cs zaman)
    (hs : Sound s) (hC : Calm s (.begin zaman))
    (hlaunchers : ∀ l ∈ s.launchers, l.stage ≠ .ended →
      ∃ ps, ps <+: cs ∧ ∃ e ∈ entries ps, (s.heap l.job).load = e.job) :
    Tracked cronNext zones cs ⟨zaman, s.begin zaman⟩ := by
  have hsound : Sound (s.begin zaman) := hs.begin hC
  obtain ⟨running, hbegin⟩ := begin_eq hs zaman
  rw [hbegin] at hsound ⊢
  exact ⟨hvalid, hkept, hC.2.2, hsound, (loaded_clearing rfl).mpr rfl, nofun, nofun, hlaunchers⟩

theorem tracked_schedule {cs : List ZamanCommand} {s : Switching} (h : Tracked cronNext zones cs s)
    {cron : Cron} {clock : Clock} {ok : Bool} (hzone : clock.zone ∈ zones)
    (hstep : cronStep cronNext s.cron (.schedule clock ok) = some cron) :
    Tracked cronNext zones cs { s with cron } := by
  have hsound : Sound cron := cronStep_sound s.cron (.schedule clock ok) cron h.sound trivial hstep
  obtain ⟨p, hp, hstep⟩ := Option.bind_eq_some_iff.mp hstep
  have hidle : s.cron.init = .idle := (h.sound.task (by rw [hp]; exact nofun)).2
  have hidle' : cron.init = .idle := (scheduleStep_init hstep).trans hidle
  have hkeeps := schedulerKeeps hp hzone hstep
  obtain ⟨hload, hwaits⟩ := h.jobs hidle
  refine ⟨h.valid, h.kept, h.room, hsound, loaded_idle hidle' _, ?_, fun _ => ⟨?_, ?_⟩, ?_⟩
  · intro j hj
    have hnone : j ∈ cron.init.made := hj
    rw [hidle'] at hnone
    cases hnone
  · show cron.jobs.map (fun j => (cron.heap j).load) = allJobs s.zaman
    rw [hkeeps.jobs, ← hload]
    exact List.map_congr_left fun j _ => hkeeps.load j
  · show ∀ j ∈ cron.jobs, cron.Waits cronNext zones j
    rw [hkeeps.jobs]
    exact fun j hj => hkeeps.waits (hwaits j hj)
  · intro l hl hstage
    show ∃ ps, ps <+: cs ∧ ∃ e ∈ entries ps, (cron.heap l.job).load = e.job
    rw [hkeeps.load l.job]
    rcases hkeeps.mem_launchers hl with hl | hl
    · exact h.launchers l hl hstage
    · exact ⟨cs, List.prefix_refl cs, (h.mem_first hidle hl).2⟩

theorem tracked_launcher {cs : List ZamanCommand} {s : Switching} (h : Tracked cronNext zones cs s)
    {cron : Cron} {i : Nat} (hstep : cronStep cronNext s.cron (.launcher i) = some cron) :
    Tracked cronNext zones cs { s with cron } := by
  have hsound : Sound cron := sound_launcher h.sound hstep
  obtain ⟨l, stage, hl, hnot, rfl⟩ := launcher_goes hstep
  refine ⟨h.valid, h.kept, h.room, hsound, h.loaded, h.made, h.jobs, fun l' hl' hstage => ?_⟩
  rcases List.mem_or_eq_of_mem_set hl' with hl' | rfl
  · exact h.launchers l' hl' hstage
  · exact h.launchers l (List.mem_of_getElem? hl) hnot

theorem tracked_init {cs : List ZamanCommand} {s : Switching} (h : Tracked cronNext zones cs s)
    {cron : Cron} {clock : Clock} {ok : Bool} (hzone : clock.zone ∈ zones)
    (hstep : cronStep cronNext s.cron (.init clock ok) = some cron) :
    Tracked cronNext zones cs { s with cron } := by
  have hkeeps := initKeeps h.sound hzone hstep
  have hloaded := loaded_init h.sound h.loaded hstep
  have hbelow : ∀ j ∈ s.cron.init.made, j < s.cron.allocated ∧ s.cron.Waits cronNext zones j := by
    intro j hj
    refine ⟨?_, h.made j hj⟩
    cases hinit : s.cron.init with
    | idle =>
      rw [hinit] at hj
      cases hj
    | clearing todo =>
      rw [hinit] at hj
      cases hj
    | creating made todo =>
      rw [hinit] at hj
      exact ((loaded_creating hinit).mp h.loaded).2 j hj
  refine ⟨h.valid, h.kept, h.room, (sound_init h.sound hstep).1, hloaded, hkeeps.made hbelow,
    fun hidle => ?_, fun l hl hstage => ?_⟩
  · obtain ⟨hheap, hinit⟩ := hkeeps.jobs hidle
    obtain ⟨hall, -⟩ := (loaded_creating hinit).mp h.loaded
    rw [List.append_nil] at hall
    refine ⟨?_, fun j hj => ?_⟩
    · show cron.jobs.map (fun j => (cron.heap j).load) = allJobs s.zaman
      rw [hheap]
      exact hall
    · have hmade : j ∈ s.cron.init.made := by
        rw [hinit]
        exact hj
      obtain ⟨r, hr, hclock⟩ := h.made j hmade
      refine ⟨r, hr, ?_⟩
      show cronNext (cron.heap j).load.expr r = some (cron.heap j).nextExecution
      rw [hheap]
      exact hclock
  · have hl : l ∈ s.cron.launchers := hkeeps.launchers ▸ hl
    show ∃ ps, ps <+: cs ∧ ∃ e ∈ entries ps, (cron.heap l.job).load = e.job
    rw [hkeeps.load l.job (h.sound.launchers l hl hstage).1]
    exact h.launchers l hl hstage

theorem tracked_step {cs : List ZamanCommand} {s s' : Switching} {e : SwitchEvent}
    (h : Tracked cronNext zones cs s) (hvalid : e.Valid zones) (hC : SwitchCalm s e)
    (hstep : switchStep cronNext s e = some s') :
    Tracked cronNext zones (cs ++ e.command.toList) s' := by
  cases e with
  | setZaman c =>
    obtain ⟨hplain, hclock⟩ := hvalid.command c rfl
    obtain ⟨t, -, htarget⟩ := hplain.target
    rw [switchStep, slot_of_target htarget] at hstep
    obtain ⟨cron, hcron, rfl⟩ := Option.map_eq_some_iff.mp hstep
    rw [cronStep] at hcron
    cases hidle : s.cron.init with
    | idle =>
      rw [hidle] at hcron
      cases hcron
      refine tracked_begin ?_ (written_kept h.kept hplain) h.sound hC fun l hl hstage => ?_
      · intro c' hc'
        rcases List.mem_append.mp hc' with hc' | hc'
        · exact h.valid c' hc'
        · rw [List.mem_singleton.mp hc']
          exact ⟨hplain, hclock⟩
      · obtain ⟨ps, hps, hentry⟩ := h.launchers l hl hstage
        exact ⟨ps, hps.trans (List.prefix_append cs _), hentry⟩
    | clearing todo =>
      rw [hidle] at hcron
      cases hcron
    | creating made todo =>
      rw [hidle] at hcron
      cases hcron
  | start =>
    cases hstep
    rw [SwitchEvent.command, Option.toList_none, List.append_nil]
    have hnone : ∀ l, l ∉ cronInit.launchers := fun _ => List.not_mem_nil
    refine tracked_begin h.valid h.kept cronInit_sound ⟨fun htaken => ?_, fun l hl => ?_, h.room⟩
      fun l hl => absurd hl (hnone l)
    · cases htaken
    · exact absurd hl (hnone l)
  | task e =>
    rw [SwitchEvent.command, Option.toList_none, List.append_nil]
    cases e with
    | begin zaman => cases hstep
    | init clock ok =>
      obtain ⟨cron, hcron, rfl⟩ := Option.map_eq_some_iff.mp hstep
      exact tracked_init h (hvalid.zone clock rfl) hcron
    | schedule clock ok =>
      obtain ⟨cron, hcron, rfl⟩ := Option.map_eq_some_iff.mp hstep
      exact tracked_schedule h (hvalid.zone clock rfl) hcron
    | launcher i =>
      obtain ⟨cron, hcron, rfl⟩ := Option.map_eq_some_iff.mp hstep
      exact tracked_launcher h hcron

theorem tracked_run {cs : List ZamanCommand} {s s' : Switching} {es : List SwitchEvent}
    (h : Tracked cronNext zones cs s) (hvalid : ∀ e ∈ es, e.Valid zones)
    (hC : Meets (switchStep cronNext) SwitchCalm s es)
    (hrun : run (switchStep cronNext) s es = some s') :
    Tracked cronNext zones (cs ++ commands es) s' := by
  induction es generalizing cs s with
  | nil =>
    cases hrun
    rw [commands, List.filterMap_nil, List.append_nil]
    exact h
  | cons e es ih =>
    obtain ⟨t, ht, hrest⟩ := run_cons_eq_some hrun
    have hstep := tracked_step h (hvalid e List.mem_cons_self) hC.1 ht
    have hcommands : commands (e :: es) = e.command.toList ++ commands es := by
      cases hcommand : e.command <;> simp [commands, hcommand]
    rw [hcommands, ← List.append_assoc]
    exact ih hstep (fun e he => hvalid e (List.mem_cons_of_mem _ he)) (hC.2 t ht) hrest

theorem switchingInit_tracked : Tracked cronNext zones [] switchingInit where
  valid := nofun
  kept := ⟨fun t _ => rfl, fun i _ => rfl⟩
  room := by decide +kernel
  sound := cronInit_sound
  loaded := loaded_idle rfl _
  made := nofun
  jobs _ := ⟨by decide +kernel, nofun⟩
  launchers := nofun

end

/-! ### The jobs of the entries -/

section

variable (packageAddress : Address → UInt8) {rounds : Nat} {zones : Set Int}
  {cs : List ZamanCommand}

theorem Tracked.onClock {s : Switching} (h : Tracked (nextTime rounds) zones cs s) {e : Entry}
    (he : e ∈ entries cs) : e.saat ≤ 23 ∧ e.dakika ≤ 59 :=
  onClock_of_mem_entries (fun c hc => (h.valid c hc).2) he

/-- A job waits for a time of its entry. -/
theorem Tracked.at {s : Switching} (h : Tracked (nextTime rounds) zones cs s)
    (hrounds : 86400 < rounds) {e : Entry} (he : e ∈ entries cs) {j : Nat}
    (hload : (s.cron.heap j).load = e.job) (hj : s.cron.Waits (nextTime rounds) zones j) :
    e.At zones (s.cron.due j) := by
  obtain ⟨hsaat, hdakika⟩ := h.onClock he
  obtain ⟨clock, hzone, hclock⟩ := hj
  have hexpr : e.job.expr = cronExpr e.dakika e.saat := rfl
  rw [hload, hexpr, nextTime_daily hrounds hdakika hsaat] at hclock
  refine ⟨clock.zone, hzone, ?_⟩
  rw [← Option.some.inj hclock]
  exact nextDaily_daily clock.zone hdakika hsaat clock.now

/-- Each job is the one of an entry. -/
theorem Tracked.forall₂ {s : Switching} (h : Tracked (nextTime rounds) zones cs s)
    (hidle : s.cron.init = .idle) : List.Forall₂ (fun e j => e ∈ entries cs ∧ j ∈ s.cron.jobs ∧
      (s.cron.heap j).load = e.job) (entries cs) s.cron.jobs := by
  have hload := (h.jobs hidle).1
  rw [allJobs_kept h.kept h.plain] at hload
  have hall : List.Forall₂ (fun j e => (s.cron.heap j).load = e.job) s.cron.jobs (entries cs) := by
    rw [← List.forall₂_map_left_iff (R := fun load e => load = Entry.job e),
      ← List.forall₂_map_right_iff (R := fun load job => load = job), hload, List.forall₂_same]
    exact fun _ _ => rfl
  have hjobs : List.Forall₂ (fun j e => j ∈ s.cron.jobs ∧ (s.cron.heap j).load = e.job) s.cron.jobs
      (entries cs) := (List.forall₂_and_left _ _).mpr ⟨fun _ hj => hj, hall⟩
  exact (List.forall₂_and_left _ _).mpr ⟨fun _ he => he, hjobs.flip⟩

theorem Tracked.inEffect {s : Switching} (h : Tracked (nextTime rounds) zones cs s)
    (hrounds : 86400 < rounds) (hidle : s.cron.init = .idle) :
    InEffect zones packageAddress cs s.cron := by
  have hperm := h.sound.init
  unfold Cron.InitSound at hperm
  rw [hidle] at hperm
  refine ⟨(h.forall₂ hidle).imp ?_, hperm, hperm.nodup_iff.mp h.sound.nodup⟩
  rintro e j ⟨he, hj, hload⟩
  refine ⟨h.at hrounds he hload ((h.jobs hidle).2 j hj), ?_⟩
  rw [hload]
  exact job_performed_iff packageAddress (mem_entries.mp he).1

/-- Whatever the clients set, whenever the power fails or the time zone changes and however the
tasks take turns, as long as `set_zaman` comes at the right moments: when `init_cron` is not at
work, each entry has its job, and a launched task always does what is for an entry that was set
then. -/
theorem switching_inEffect (hrounds : 86400 < rounds) {es : List SwitchEvent} {s : Switching}
    (hvalid : ∀ e ∈ es, e.Valid zones)
    (hC : Meets (switchStep (nextTime rounds)) SwitchCalm switchingInit es)
    (hrun : run (switchStep (nextTime rounds)) switchingInit es = some s) :
    (s.cron.init = .idle → InEffect zones packageAddress (commands es) s.cron) ∧
      ∀ l ∈ s.cron.launchers, l.stage ≠ .ended → (s.cron.heap l.job).freed = false ∧
        ∃ ps, ps <+: commands es ∧ ∃ e ∈ entries ps,
          (e.Performed packageAddress (cronCallback (s.cron.heap l.job).load.data) ↔
            e.target ≠ .group 16) := by
  have htracked := tracked_run switchingInit_tracked hvalid hC hrun
  rw [List.nil_append] at htracked
  refine ⟨htracked.inEffect packageAddress hrounds, fun l hl hstage => ?_⟩
  obtain ⟨ps, hps, e, he, hload⟩ := htracked.launchers l hl hstage
  refine ⟨(htracked.sound.launchers l hl hstage).2, ps, hps, e, he, ?_⟩
  rw [hload]
  exact job_performed_iff packageAddress (mem_entries.mp he).1

end

/-- The controller starts without a time zone, gets one, and the times of `sabah` are set. -/
def sabahRun : List SwitchEvent :=
  .start :: List.replicate 2 (.task (.init ⟨1700000000, 0⟩ true)) ++ .setZaman sabah ::
    List.replicate 4 (.task (.init (november 0) true))

theorem sabahRun_valid : ∀ e ∈ sabahRun, e.Valid {0, 10800} := by
  have hplain : sabah.Plain := ⟨⟨.group 3, by decide, rfl⟩, .inr (by decide), .inl (by decide),
    .inr (by decide), .inl (by decide)⟩
  have hclock : sabah.OnClock := ⟨by decide, by decide, by decide, by decide⟩
  have hset : SwitchEvent.Valid {0, 10800} (.setZaman sabah) :=
    ⟨fun c hc => by cases hc; exact ⟨hplain, hclock⟩, fun c hc => by cases hc⟩
  have hstart : SwitchEvent.Valid {0, 10800} .start :=
    ⟨fun c hc => (by cases hc), fun c hc => by cases hc⟩
  have hinit (clock : Clock) (hzone : clock.zone ∈ ({0, 10800} : Set Int)) :
      SwitchEvent.Valid {0, 10800} (.task (.init clock true)) :=
    ⟨fun c hc => (by cases hc), fun c hc => by cases hc; exact hzone⟩
  simp [sabahRun, hset, hstart, hinit, november]

theorem sabahRun_run : (run (switchStep (nextTime 86401)) switchingInit sabahRun).map (fun s =>
    (s.cron.init, s.cron.fired)) = some (.idle, none) ∧
      Meets (switchStep (nextTime 86401)) SwitchCalm switchingInit sabahRun := by
  decide +kernel

theorem switching_inEffect_sabah : ∃ s,
    run (switchStep (nextTime 86401)) switchingInit sabahRun = some s ∧ s.cron.init = .idle ∧
      InEffect {0, 10800} addressByte [sabah] s.cron := by
  obtain ⟨hrun, hC⟩ := sabahRun_run
  obtain ⟨s, hrun, hends⟩ := Option.map_eq_some_iff.mp hrun
  have hidle : s.cron.init = .idle := congrArg Prod.fst hends
  exact ⟨s, hrun, hidle,
    (switching_inEffect addressByte (by decide) sabahRun_valid hC hrun).1 hidle⟩

/-! ### The launches -/

/-- `init_cron` is not called, and there is memory for the tasks that are launched. -/
def CronEvent.Launching : CronEvent → Prop
  | .schedule _ ok => ok = true
  | .launcher _ => True
  | .begin _ | .init _ _ => False

theorem CronEvent.Launching.scheduling {e : CronEvent} (h : e.Launching) : e.Scheduling := by
  cases e with
  | schedule clock ok => trivial
  | launcher i => trivial
  | begin zaman => cases h
  | init clock ok => cases h

section

variable {cronNext : String → Clock → Option Int}

/-- There is a task for each launch. -/
theorem launchers_step (s : Cron) (e : CronEvent) (s' : Cron) (he : e.Launching)
    (hstep : cronStep cronNext s e = some s') : s'.launchers.map Launcher.job =
      s.launchers.map Launcher.job ++ s.launched e := by
  cases e with
  | begin zaman => cases he
  | init clock ok => cases he
  | schedule clock ok =>
    obtain rfl : ok = true := he
    obtain ⟨p, hp, hstep⟩ := Option.bind_eq_some_iff.mp hstep
    rw [(schedulerKeeps hp (Set.mem_univ clock.zone) hstep).launchers, if_pos rfl,
      List.map_append, List.map_map]
    exact congrArg _ (List.map_id _)
  | launcher i =>
    obtain ⟨l, stage, hl, -, rfl⟩ := launcher_goes hstep
    show (s.launchers.set i ⟨l.job, stage⟩).map Launcher.job = s.launchers.map Launcher.job ++ []
    have hjob : (s.launchers.map Launcher.job)[i]? = some l.job := by
      rw [List.getElem?_map, hl]
      rfl
    obtain ⟨hi, hget⟩ := List.getElem?_eq_some_iff.mp hjob
    rw [List.append_nil, List.map_set, ← hget, List.set_getElem_self]

/-- While only the scheduler and its tasks go on, the jobs stay, and what is launched is one of
them. -/
theorem scheduling_step {js : List Nat} (s : Cron) (e : CronEvent) (s' : Cron)
    (h : Sound s ∧ s.init = .idle ∧ s.jobs = js) (he : e.Scheduling)
    (hstep : cronStep cronNext s e = some s') :
    (Sound s' ∧ s'.init = .idle ∧ s'.jobs = js) ∧
      ∀ a ∈ scheduleLabel s e, ∀ j ∈ a.fires, j ∈ js := by
  obtain ⟨hs, hidle, rfl⟩ := h
  cases e with
  | begin zaman => cases he
  | init clock ok => cases he
  | schedule clock ok =>
    obtain ⟨p, hp, hstep⟩ := Option.bind_eq_some_iff.mp hstep
    have hkeeps := schedulerKeeps hp (Set.mem_univ clock.zone) hstep
    refine ⟨⟨sound_schedule hs hp hstep, (scheduleStep_init hstep).trans hidle, hkeeps.jobs⟩, ?_⟩
    intro a ha j hj
    have hperm := hs.init
    unfold Cron.InitSound at hperm
    rw [hidle] at hperm
    refine hperm.mem_iff.mp (List.mem_append_left _ (hkeeps.first j ?_))
    exact List.mem_flatMap.mpr ⟨a, Option.mem_toList.mpr ha, hj⟩
  | launcher i =>
    refine ⟨⟨sound_launcher hs hstep, ?_⟩, nofun⟩
    obtain ⟨l, stage, -, -, rfl⟩ := launcher_goes hstep
    exact ⟨hidle, rfl⟩

end

section

variable {rounds : Nat} {zone : Int}

/-- Between launches, each job that was launched has had its turn. -/
theorem turns_timers {s t : Cron} {fs : List CronEvent} (hscheduling : ∀ e ∈ fs, e.Scheduling)
    (hzone : ∀ e ∈ fs, e.InZone zone) (hrun : run (cronStep (nextTime rounds)) s fs = some t)
    (hfired : s.fired = none) (hfired' : t.fired = none) :
    (s.turns rounds zone fs).map Timers.Turn.timer =
      (trace (cronStep (nextTime rounds)) scheduleLabel s fs).flatMap Timers.Event.fires := by
  obtain ⟨a, hrun', hfollowed⟩ := run_trace scheduleLabel
    (R := FollowedBy fun j => (s.heap j).load.expr)
    (V := fun e => e.Scheduling ∧ e.InZone zone) (a := ⟨s.due, none⟩)
    (followedBy_step (nextOf_timed rounds zone s)) ⟨fun _ => rfl, hfired.symm, fun _ => rfl⟩
    (fun e he => ⟨hscheduling e he, hzone e he⟩) hrun
  have hturns := Timers.turns_fires hrun'
  rw [hfollowed.fired, hfired', Option.map_none, Option.toList_none, List.nil_append,
    List.append_nil] at hturns
  exact hturns.symm

/-- After any run as above, while nobody sets times, the power does not fail and the time zone
stays: the tasks that the scheduler creates are for the entries that are set, each for a time of its
entry, and one for each such time unless it passes during a launch. -/
theorem entries_launched (hrounds : 86400 < rounds) {zones : Set Int} {es : List SwitchEvent}
    {s : Switching} (hvalid : ∀ e ∈ es, e.Valid zones)
    (hC : Meets (switchStep (nextTime rounds)) SwitchCalm switchingInit es)
    (hrun : run (switchStep (nextTime rounds)) switchingInit es = some s)
    (hidle : s.cron.init = .idle) (hfired : s.cron.fired = none) {fs : List CronEvent} {t : Cron}
    (now : Nat) (hlaunching : ∀ e ∈ fs, e.Launching) (hzone : ∀ e ∈ fs, e.InZone zone)
    (hticking : Ticking now fs) (hrun' : run (cronStep (nextTime rounds)) s.cron fs = some t)
    (hfired' : t.fired = none) :
    List.Forall₂ (fun e j => DailyLaunches rounds zone e.dakika e.saat s.cron t fs j ∧
        ∀ u ∈ s.cron.turns rounds zone fs, u.timer = j →
          u.due = s.cron.due j ∧ e.At zones u.due ∨ DailyAt zone e.dakika e.saat u.due)
      (entries (commands es)) s.cron.jobs ∧
      t.launchers.map Launcher.job =
        s.cron.launchers.map Launcher.job ++
          (s.cron.turns rounds zone fs).map Timers.Turn.timer ∧
      ∀ u ∈ s.cron.turns rounds zone fs, u.timer ∈ s.cron.jobs := by
  have htracked := tracked_run switchingInit_tracked hvalid hC hrun
  rw [List.nil_append] at htracked
  have hscheduling : ∀ e ∈ fs, e.Scheduling := fun e he => (hlaunching e he).scheduling
  have htimers := turns_timers hscheduling hzone hrun' hfired hfired'
  refine ⟨(htracked.forall₂ hidle).imp ?_, ?_, ?_⟩
  · rintro e j ⟨he, hj, hload⟩
    obtain ⟨hsaat, hdakika⟩ := htracked.onClock he
    have hexpr : (s.cron.heap j).load.expr = cronExpr e.dakika e.saat := by
      rw [hload]
      rfl
    have hlaunches := dailyLaunches_of_run hrounds hscheduling hzone hticking hrun' hfired hdakika
      hsaat hexpr
    refine ⟨hlaunches, fun u hu huj => ?_⟩
    rcases hlaunches.times u hu huj with hfirst | hdaily
    · refine .inl ⟨hfirst, ?_⟩
      rw [hfirst]
      exact htracked.at hrounds he hload ((htracked.jobs hidle).2 j hj)
    · exact .inr hdaily
  · rw [htimers]
    exact run_collects launchers_step hlaunching hrun'
  · intro u hu
    have hlaunched := forall_mem_trace scheduling_step ⟨htracked.sound, hidle, rfl⟩ hscheduling
      hrun'
    have hmem : u.timer ∈ (s.cron.turns rounds zone fs).map Timers.Turn.timer :=
      List.mem_map_of_mem hu
    rw [htimers] at hmem
    obtain ⟨a, ha, hfires⟩ := List.mem_flatMap.mp hmem
    exact hlaunched a ha u.timer hfires

end

/-- Group 3 is switched on at half past seven. -/
theorem entries_launched_sabah : ∃ s t,
    run (switchStep (nextTime 86401)) switchingInit sabahRun = some s ∧
      run (cronStep (nextTime 86401)) s.cron morningRun = some t ∧
      t.launchers.map Launcher.job = s.cron.launchers.map Launcher.job ++
        (s.cron.turns 86401 10800 morningRun).map Timers.Turn.timer ∧
      List.Forall₂ (fun e j =>
        DailyLaunches 86401 10800 e.dakika e.saat s.cron t morningRun j ∧
          ∀ u ∈ s.cron.turns 86401 10800 morningRun, u.timer = j →
            u.due = s.cron.due j ∧ e.At {0, 10800} u.due ∨
              DailyAt 10800 e.dakika e.saat u.due)
        (entries [sabah]) s.cron.jobs := by
  obtain ⟨hrun, hC⟩ := sabahRun_run
  have hgoes : ((run (switchStep (nextTime 86401)) switchingInit sabahRun).bind fun s =>
      (run (cronStep (nextTime 86401)) s.cron morningRun).map fun t =>
        (s.cron.init, s.cron.fired, t.fired)) = some (.idle, none, none) := by
    decide +kernel
  obtain ⟨s, hrun, hgoes⟩ := Option.bind_eq_some_iff.mp hgoes
  obtain ⟨t, hrun', hends⟩ := Option.map_eq_some_iff.mp hgoes
  simp only [Prod.mk.injEq] at hends
  obtain ⟨hidle, hfired, hfired'⟩ := hends
  have hlaunching : ∀ e ∈ morningRun, e.Launching := by simp [morningRun, CronEvent.Launching]
  have hzone : ∀ e ∈ morningRun, e.InZone 10800 := by
    simp [morningRun, CronEvent.InZone, CronEvent.clock]
  have hticking : Ticking 1700022540 morningRun := by unfold Ticking; decide
  obtain ⟨hentries, hlaunchers, -⟩ := entries_launched (by decide) sabahRun_valid hC hrun hidle
    hfired 1700022540 hlaunching hzone hticking hrun' hfired'
  exact ⟨s, t, hrun, hrun', hlaunchers, hentries⟩

end DaliController.Schedule
