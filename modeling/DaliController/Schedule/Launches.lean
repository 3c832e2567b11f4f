import DaliController.Lib.Timers
import DaliController.Schedule.Daily
import DaliController.Schedule.Reschedule

/-! When the scheduler launches what.  The list is sorted by the next times of the jobs, so the job
at its front is the first one whose time comes.  A daily job is launched once for each of its times,
unless the scheduler is late for so long that one of them passes meanwhile. -/

namespace DaliController.Schedule

open Runs

/-! ### The order of the list -/

def Cron.due (s : Cron) (j : Nat) : Int := (s.heap j).nextExecution

def Cron.Sorted (s : Cron) : Prop := s.first.Pairwise fun i j => s.due i ≤ s.due j

theorem listInsert_sorted {nextExecution : Nat → Int} (new : Nat) {first : List Nat}
    (h : first.Pairwise fun i j => nextExecution i ≤ nextExecution j) :
    (listInsert nextExecution new first).Pairwise fun i j => nextExecution i ≤ nextExecution j := by
  induction first with
  | nil => exact List.pairwise_singleton _ _
  | cons j next ih =>
    obtain ⟨hj, hnext⟩ := List.pairwise_cons.mp h
    rw [listInsert]
    split
    · rename_i hlt
      refine List.pairwise_cons.mpr ⟨fun i hi => ?_, h⟩
      rcases List.mem_cons.mp hi with rfl | hi
      · exact hlt.le
      · exact hlt.le.trans (hj i hi)
    · rename_i hge
      refine List.pairwise_cons.mpr ⟨fun i hi => ?_, ih hnext⟩
      rcases List.mem_cons.mp ((listInsert_perm nextExecution new next).mem_iff.mp hi) with rfl | hi
      · exact not_lt.mp hge
      · exact hj i hi

/-- Jobs may leave the list, and what else is stored in them plays no part. -/
theorem Cron.Sorted.of_sublist {s s' : Cron} (h : s.Sorted) (hfirst : s'.first.Sublist s.first)
    (hdue : ∀ i ∈ s'.first, s'.due i = s.due i) : s'.Sorted := by
  refine (h.sublist hfirst).imp_of_mem fun hi hj hle => ?_
  rwa [hdue _ hi, hdue _ hj]

theorem Cron.Sorted.insert {s : Cron} (h : s.Sorted) (j : Nat) : (s.insert j).Sorted :=
  listInsert_sorted j h

theorem due_setJob_of_ne {s : Cron} {i j : Nat} (hne : i ≠ j) (job : Job) :
    (s.setJob j job).due i = s.due i := by
  simp [Cron.due, Cron.setJob, hne]

theorem due_setJob {s : Cron} {j : Nat} (job : Job) (hdue : job.nextExecution = s.due j)
    (i : Nat) : (s.setJob j job).due i = s.due i := by
  rcases eq_or_ne i j with rfl | hne
  · simpa [Cron.due, Cron.setJob] using hdue
  · exact due_setJob_of_ne hne job

theorem Cron.Sorted.number {s : Cron} (h : s.Sorted) (j : Nat) : (s.number j).Sorted := by
  unfold Cron.number
  split
  · refine h.of_sublist (.refl _) fun i _ => ?_
    show (s.setJob j { s.heap j with id := s.nextId }).due i = s.due i
    exact due_setJob _ (by rfl) i
  · exact h

section

variable {cronNext : String → Clock → Option Int}

/-- A step that changes neither the list nor the times. -/
theorem Cron.Sorted.same {s s' : Cron} (h : s.Sorted) (hfirst : s'.first = s.first)
    (hheap : s'.heap = s.heap) : s'.Sorted :=
  h.of_sublist (hfirst ▸ .refl _) fun i _ => by rw [Cron.due, Cron.due, hheap]

theorem sorted_schedule {s s' : Cron} (hs : Sound s) (h : s.Sorted) {p : SchedulePoint}
    (hp : s.task = some p) {clock : Clock} {ok : Bool}
    (hstep : scheduleStep cronNext s clock ok p = some s') : s'.Sorted := by
  cases p with
  | looking =>
    rw [scheduleStep] at hstep
    split at hstep
    · cases hstep
    · simp only at hstep
      split at hstep
      · cases hstep
        exact h.same rfl rfl
      · cases hstep
        exact h.same rfl rfl
  | sleeping =>
    cases hstep
    exact h.same rfl rfl
  | launched j =>
    rw [scheduleStep] at hstep
    split at hstep
    · cases hstep
      exact h.same rfl rfl
    · cases hstep
      exact h.same rfl rfl
  | removing j =>
    obtain ⟨next, hfirst⟩ : ∃ next, s.first = j :: next :=
      List.head?_eq_some_iff.mp (hs.front _ hp j rfl)
    rw [scheduleStep, hfirst, listRemove_head (fun i => (s.heap i).id) j next] at hstep
    cases hstep
    refine h.of_sublist ?_ fun _ _ => rfl
    rw [hfirst]
    exact List.sublist_cons_self j next
  | unlinked j =>
    cases hstep
    exact h.same rfl rfl
  | removed j =>
    -- the job whose time changes is not in the list
    have hout : s.out = [j] := out_of_task hp
    have hj : j ∉ s.first := by
      have hnodup := hs.nodup
      rw [hout] at hnodup
      exact fun hmem => (List.nodup_append.mp hnodup).2.2 j hmem j (List.mem_singleton_self j) rfl
    obtain ⟨next, -, rfl⟩ := Option.map_eq_some_iff.mp hstep
    have hsorted : (s.setJob j { s.heap j with nextExecution := next }).Sorted :=
      h.of_sublist (.refl _) fun i hi => due_setJob_of_ne (ne_of_mem_of_not_mem hi hj) _
    unfold Cron.rearm
    simp only
    split
    · exact hsorted.same rfl rfl
    · exact hsorted.same rfl rfl
  | inserting j =>
    cases hstep
    exact (h.insert j).same rfl rfl
  | linked j =>
    cases hstep
    have hfree : ({ s with semaphore := false } : Cron).Sorted := h.same rfl rfl
    exact (hfree.number j).same rfl rfl

theorem sorted_init {s s' : Cron} (hs : Sound s) (h : s.Sorted) {clock : Clock} {ok : Bool}
    (hstep : cronStep cronNext s (.init clock ok) = some s') : s'.Sorted := by
  cases initStep_cases hstep with
  | @destroy todo j next s' hinit hfirst hdestroy =>
    rw [(hs.stopped (by rw [hinit]; exact InitPoint.noConfusion)).destroy_eq hfirst] at hdestroy
    cases hdestroy
    refine h.of_sublist ?_ fun i _ => due_setJob (s := s) { s.heap j with freed := true } rfl i
    rw [hfirst]
    exact List.sublist_cons_self j next
  | cleared hinit hfirst => exact h.same rfl rfl
  | @create made load todo next hinit hroom hnext =>
    have hnew : s.allocated ∉ s.first := fun hmem =>
      absurd (hs.live _ (List.mem_append_left _ hmem)).1 (Nat.lt_irrefl _)
    have hsorted : ({ s.setJob s.allocated ⟨load, -1, next, false⟩ with
        allocated := s.allocated + 1 } : Cron).Sorted :=
      h.of_sublist (.refl _) fun i hi => due_setJob_of_ne (ne_of_mem_of_not_mem hi hnew) _
    have hcreated : (s.create load next).2.Sorted := by
      unfold Cron.create
      dsimp only
      split
      · exact hsorted
      · exact (hsorted.insert _).number _
    exact hcreated.same rfl rfl
  | @finish made hinit =>
    obtain ⟨running, task, hfinish⟩ := finish_eq s made ok
    rw [hfinish]
    exact h.same rfl rfl

theorem cronStep_sorted (s : Cron) (e : CronEvent) (s' : Cron) (h : Sound s ∧ s.Sorted)
    (hC : Calm s e) (hstep : cronStep cronNext s e = some s') : Sound s' ∧ s'.Sorted := by
  obtain ⟨hs, hsorted⟩ := h
  refine ⟨cronStep_sound s e s' hs hC hstep, ?_⟩
  cases e with
  | begin zaman =>
    rw [cronStep] at hstep
    split at hstep
    · cases hstep
      obtain ⟨running, hbegin⟩ := begin_eq hs zaman
      rw [hbegin]
      exact hsorted.same rfl rfl
    · cases hstep
  | init clock ok => exact sorted_init hs hsorted hstep
  | schedule clock ok =>
    obtain ⟨p, hp, hstep⟩ := Option.bind_eq_some_iff.mp hstep
    exact sorted_schedule hs hsorted hp hstep
  | launcher i =>
    rw [cronStep] at hstep
    split at hstep
    · cases hstep
      exact hsorted.same rfl rfl
    · cases hstep
      exact hsorted.same rfl rfl
    · cases hstep

/-- In every run in which `init_cron` is only called at the right moment: when the scheduler looks
at the list, it launches the job whose time comes first if that time has come, and nothing if no
job's time has come. -/
theorem launches_earliest {es : List CronEvent} {s s' : Cron} {clock : Clock}
    (hC : Meets (cronStep cronNext) Calm cronInit es)
    (hrun : run (cronStep cronNext) cronInit es = some s) (hlook : s.task = some .looking)
    (hstep : cronStep cronNext s (.schedule clock true) = some s') :
    (s'.launchers = s.launchers ∧ ∀ i ∈ s.first, clock.now < s.due i) ∨
      ∃ j ∈ s.first, s'.launchers = s.launchers ++ [⟨j, .created⟩] ∧ s.due j ≤ clock.now ∧
        ∀ i ∈ s.first, s.due j ≤ s.due i := by
  obtain ⟨-, hsorted⟩ := run_invariant_of_meets cronStep_sorted
    ⟨cronInit_sound, List.Pairwise.nil⟩ hC hrun
  rw [cronStep, hlook, Option.bind_some, scheduleStep] at hstep
  split at hstep
  · cases hstep
  · rename_i j next hfirst
    have hleast : ∀ i ∈ s.first, s.due j ≤ s.due i := by
      intro i hi
      rw [Cron.Sorted, hfirst] at hsorted
      rw [hfirst] at hi
      rcases List.mem_cons.mp hi with rfl | hi
      · exact le_refl _
      · exact List.rel_of_pairwise_cons hsorted hi
    simp only at hstep
    split at hstep
    · rename_i hdue
      cases hstep
      exact .inr ⟨j, hfirst ▸ List.mem_cons_self, rfl, hdue, hleast⟩
    · rename_i hdue
      cases hstep
      exact .inl ⟨rfl, fun i hi => (not_le.mp hdue).trans_le (hleast i hi)⟩

end

/-- A file with two times. -/
def twoTimes : UInt8 → Zaman :=
  Function.update oneTime 2
    { active := 1, off1saat := 7, off1dakika := 15, power1 := 150, gurup := 1 }

def startedTwo : List CronEvent :=
  .begin twoTimes :: List.replicate 4 (.init (november 0) true)

/-- At half past eight both times have come, and the job for a quarter past seven is launched. -/
theorem launches_earliest_two : ∃ s s',
    run (cronStep (nextTime 86401)) cronInit startedTwo = some s ∧ s.first = [1, 0] ∧
      cronStep (nextTime 86401) s (.schedule halfPastEight true) = some s' ∧
      ∃ j ∈ s.first, s'.launchers = s.launchers ++ [⟨j, .created⟩] ∧
        s.due j ≤ halfPastEight.now ∧ ∀ i ∈ s.first, s.due j ≤ s.due i := by
  have hC : Meets (cronStep (nextTime 86401)) Calm cronInit startedTwo := by decide +kernel
  have hgoes : ((run (cronStep (nextTime 86401)) cronInit startedTwo).bind fun s =>
      (cronStep (nextTime 86401) s (.schedule halfPastEight true)).map fun s' =>
        (s.first, s.task, s.launchers, s'.launchers)) =
      some ([1, 0], some .looking, [], [⟨1, .created⟩]) := by
    decide +kernel
  obtain ⟨s, hrun, hgoes⟩ := Option.bind_eq_some_iff.mp hgoes
  obtain ⟨s', hstep, hends⟩ := Option.map_eq_some_iff.mp hgoes
  simp only [Prod.mk.injEq] at hends
  obtain ⟨hfirst, hlook, hbefore, hafter⟩ := hends
  refine ⟨s, s', hrun, hfirst, hstep,
    (launches_earliest hC hrun hlook hstep).resolve_left fun hnone => ?_⟩
  have hsame := hnone.1
  rw [hbefore, hafter] at hsame
  cases hsame

/-! ### The jobs as timers -/

/-- The job that the scheduler has launched and not yet put back for its next time. -/
def SchedulePoint.fired : SchedulePoint → Option Nat
  | .launched j | .removing j | .unlinked j | .removed j => some j
  | .looking | .sleeping | .inserting _ | .linked _ => none

def Cron.fired (s : Cron) : Option Nat := s.task.bind SchedulePoint.fired

/-- A step of the scheduler as one of the timers. -/
def scheduleLabel (s : Cron) : CronEvent → Option (Timers.Event Nat Int)
  | .schedule clock _ =>
    match s.task with
    | some .looking =>
      match s.first with
      | j :: _ => if s.due j ≤ clock.now then some (.fire j clock.now) else none
      | [] => none
    | some (.removed _) => some (.rearm clock.now)
    | _ => none
  | _ => none

def CronEvent.clock : CronEvent → Option Clock
  | .schedule clock _ | .init clock _ => some clock
  | .begin _ | .launcher _ => none

/-- The local time is so many seconds ahead. -/
def CronEvent.InZone (zone : Int) (e : CronEvent) : Prop := ∀ clock ∈ e.clock, clock.zone = zone

/-- `init_cron` is not called. -/
def CronEvent.Scheduling : CronEvent → Prop
  | .schedule _ _ | .launcher _ => True
  | .begin _ | .init _ _ => False

structure FollowedBy (exprs : Nat → String) (s : Cron) (a : Timers.State Nat Int) : Prop where
  due : ∀ j, a.due j = s.due j
  fired : a.fired.map Prod.fst = s.fired
  exprs : ∀ j, (s.heap j).load.expr = exprs j

section

variable {cronNext : String → Clock → Option Int} {exprs : Nat → String}
  {next : Nat → Int → Int}

theorem expr_setJob {s : Cron} {j : Nat} (job : Job) (hload : job.load = (s.heap j).load)
    (i : Nat) : ((s.setJob j job).heap i).load = (s.heap i).load := by
  rcases eq_or_ne i j with rfl | hne
  · simpa [Cron.setJob] using hload
  · simp [Cron.setJob, hne]

/-- A step that leaves the times and expressions as they are, and goes on with the same job. -/
theorem FollowedBy.same {s s' : Cron} {a : Timers.State Nat Int} (h : FollowedBy exprs s a)
    (hdue : ∀ i, s'.due i = s.due i) (hload : ∀ i, (s'.heap i).load = (s.heap i).load)
    (hfired : s'.fired = s.fired) : FollowedBy exprs s' a :=
  ⟨fun i => (h.due i).trans (hdue i).symm, h.fired.trans hfired.symm,
    fun i => (hload i) ▸ h.exprs i⟩

theorem followedBy_number {s : Cron} {a : Timers.State Nat Int} (h : FollowedBy exprs s a)
    (j : Nat) : FollowedBy exprs (s.number j) a := by
  unfold Cron.number
  split
  · refine h.same (fun i => ?_) (fun i => ?_) rfl
    · show (s.setJob j { s.heap j with id := s.nextId }).due i = s.due i
      exact due_setJob _ (by rfl) i
    · exact expr_setJob (s := s) { s.heap j with id := s.nextId } rfl i
  · exact h

/-- A step that is none of the timers. -/
theorem FollowedBy.silent {s s' : Cron} {a : Timers.State Nat Int} (h : FollowedBy exprs s a)
    {clock : Clock} {ok : Bool} (hlabel : scheduleLabel s (.schedule clock ok) = none)
    (hdue : ∀ i, s'.due i = s.due i) (hload : ∀ i, (s'.heap i).load = (s.heap i).load)
    (hfired : s'.fired = s.fired) :
    ∃ a', run (Timers.step next) a
      (scheduleLabel s (.schedule clock ok)).toList = some a' ∧ FollowedBy exprs s' a' :=
  ⟨a, by rw [hlabel]; rfl, h.same hdue hload hfired⟩

/-- The job is put back for its next time. -/
theorem followedBy_rearm {s : Cron} {a : Timers.State Nat Int} (h : FollowedBy exprs s a)
    {j : Nat} {clock : Clock} {ok : Bool} (hp : s.task = some (.removed j)) :
    ∃ a', run (Timers.step next) a (scheduleLabel s (.schedule clock ok)).toList = some a' ∧
      FollowedBy exprs (s.rearm j (next j clock.now)) a' := by
  obtain ⟨⟨i, at'⟩, hat, hi⟩ : ∃ p, a.fired = some p ∧ p.1 = j := by
    refine Option.map_eq_some_iff.mp (h.fired.trans ?_)
    rw [Cron.fired, hp]
    rfl
  obtain rfl : i = j := hi
  have hlabel : scheduleLabel s (.schedule clock ok) = some (.rearm clock.now) := by
    simp only [scheduleLabel, hp]
  have hheap : (s.rearm i (next i clock.now)).heap =
      (s.setJob i { s.heap i with nextExecution := next i clock.now }).heap := by
    unfold Cron.rearm
    simp only
    split <;> rfl
  refine ⟨⟨Function.update a.due i (next i clock.now), none⟩, ?_, fun k => ?_, ?_, fun k => ?_⟩
  · rw [hlabel, Option.toList_some, run_cons, Timers.step, hat]
    rfl
  · rw [Cron.due, hheap]
    rcases eq_or_ne k i with rfl | hne
    · simp [Cron.setJob]
    · simpa [Cron.setJob, Cron.due, hne] using h.due k
  · unfold Cron.rearm
    simp only
    split <;> rfl
  · rw [hheap, ← h.exprs k]
    exact congrArg CronJob.expr (expr_setJob _ (by rfl) k)

/-- A step of the scheduler is one of the timers, or none. -/
theorem followedBy_schedule {s s' : Cron} {a : Timers.State Nat Int} (h : FollowedBy exprs s a)
    {p : SchedulePoint} (hp : s.task = some p) {clock : Clock} {ok : Bool}
    (hnext : ∀ j x, cronNext (exprs j) clock = some x → next j clock.now = x)
    (hstep : scheduleStep cronNext s clock ok p = some s') :
    ∃ a', run (Timers.step next) a
      (scheduleLabel s (.schedule clock ok)).toList = some a' ∧ FollowedBy exprs s' a' := by
  have hfired : s.fired = p.fired := by rw [Cron.fired, hp, Option.bind_some]
  cases p with
  | looking =>
    have hnone : a.fired = none := by
      rw [← Option.map_eq_none_iff, h.fired, hfired]
      rfl
    rw [scheduleStep] at hstep
    split at hstep
    · cases hstep
    · rename_i j next hfirst
      simp only at hstep
      split at hstep
      · rename_i hdue
        cases hstep
        have hlabel : scheduleLabel s (.schedule clock ok) = some (.fire j clock.now) := by
          simp only [scheduleLabel, hp, hfirst]
          exact if_pos hdue
        have hcond : a.fired.isNone ∧ a.due j ≤ clock.now :=
          ⟨by rw [hnone]; rfl, (h.due j).trans_le hdue⟩
        refine ⟨{ a with fired := some (j, (clock.now : Int)) }, ?_, h.due, rfl, h.exprs⟩
        rw [hlabel, Option.toList_some, run_cons, Timers.step, if_pos hcond]
        rfl
      · rename_i hdue
        cases hstep
        refine h.silent ?_ (fun _ => rfl) (fun _ => rfl) (by rw [hfired]; rfl)
        simp only [scheduleLabel, hp, hfirst]
        exact if_neg hdue
  | sleeping =>
    cases hstep
    exact h.silent (by simp only [scheduleLabel, hp]) (fun _ => rfl) (fun _ => rfl)
      (by rw [hfired]; rfl)
  | launched j =>
    have hlabel : scheduleLabel s (.schedule clock ok) = none := by simp only [scheduleLabel, hp]
    rw [scheduleStep] at hstep
    split at hstep
    · cases hstep
      exact h.silent hlabel (fun _ => rfl) (fun _ => rfl) (by rw [hfired]; rfl)
    · cases hstep
      exact h.silent hlabel (fun _ => rfl) (fun _ => rfl) (by rw [hfired]; rfl)
  | removing j =>
    obtain ⟨first, -, rfl⟩ := Option.map_eq_some_iff.mp hstep
    exact h.silent (by simp only [scheduleLabel, hp]) (fun _ => rfl) (fun _ => rfl)
      (by rw [hfired]; rfl)
  | unlinked j =>
    cases hstep
    exact h.silent (by simp only [scheduleLabel, hp]) (fun _ => rfl) (fun _ => rfl)
      (by rw [hfired]; rfl)
  | removed j =>
    obtain ⟨x, hx, rfl⟩ := Option.map_eq_some_iff.mp hstep
    rw [h.exprs j] at hx
    rw [← hnext j x hx]
    exact followedBy_rearm h hp
  | inserting j =>
    cases hstep
    exact h.silent (by simp only [scheduleLabel, hp]) (fun _ => rfl) (fun _ => rfl)
      (by rw [hfired]; rfl)
  | linked j =>
    cases hstep
    have hfree : FollowedBy exprs ({ s with semaphore := false } : Cron) a :=
      h.same (fun _ => rfl) (fun _ => rfl) rfl
    have hnumber := followedBy_number hfree j
    refine ⟨a, ?_, hnumber.due, ?_, hnumber.exprs⟩
    · simp only [scheduleLabel, hp]
      rfl
    · rw [h.fired, hfired]
      rfl

/-- The next times of the jobs in a zone. -/
def Timed (cronNext : String → Clock → Option Int) (exprs : Nat → String) (zone : Int)
    (next : Nat → Int → Int) : Prop :=
  ∀ j clock x, clock.zone = zone → cronNext (exprs j) clock = some x → next j clock.now = x

theorem followedBy_step {zone : Int} (hnext : Timed cronNext exprs zone next) (s : Cron)
    (a : Timers.State Nat Int) (e : CronEvent) (s' : Cron) (h : FollowedBy exprs s a)
    (he : e.Scheduling ∧ e.InZone zone) (hstep : cronStep cronNext s e = some s') :
    ∃ a', run (Timers.step next) a (scheduleLabel s e).toList = some a' ∧
      FollowedBy exprs s' a' := by
  cases e with
  | begin zaman => cases he.1
  | init clock ok => cases he.1
  | schedule clock ok =>
    obtain ⟨p, hp, hstep⟩ := Option.bind_eq_some_iff.mp hstep
    exact followedBy_schedule h hp (fun j x => hnext j clock x (he.2 clock rfl)) hstep
  | launcher i =>
    refine ⟨a, rfl, ?_⟩
    rw [cronStep] at hstep
    split at hstep
    · cases hstep
      exact h.same (fun _ => rfl) (fun _ => rfl) rfl
    · cases hstep
      exact h.same (fun _ => rfl) (fun _ => rfl) rfl
    · cases hstep

end

/-! ### Daily jobs -/

/-- A time at which the clock shows the hour and the minute. -/
def DailyAt (zone : Int) (dak saat : UInt8) (x : Int) : Prop :=
  (x + zone) % 86400 = 3600 * saat.toNat + 60 * dak.toNat

theorem nextDaily_daily (zone : Int) {dak saat : UInt8} (hdak : dak ≤ 59) (hsaat : saat ≤ 23)
    (date : Int) : DailyAt zone dak saat (nextDaily zone dak saat date) := by
  have hdak' : dak.toNat ≤ 59 := UInt8.le_iff_toNat_le.mp hdak
  have hsaat' : saat.toNat ≤ 23 := UInt8.le_iff_toNat_le.mp hsaat
  simp only [DailyAt, nextDaily]
  omega

/-- There is no such time before it. -/
theorem nextDaily_le {zone : Int} {dak saat : UInt8} {x : Int} (hx : DailyAt zone dak saat x)
    {date : Int} (hdate : date < x) : nextDaily zone dak saat date ≤ x := by
  simp only [DailyAt, nextDaily] at *
  omega

def CronEvent.time : CronEvent → Option Int
  | .schedule clock _ => some clock.now
  | _ => none

/-- The clock does not go back. -/
def Ticking (now : Nat) (es : List CronEvent) : Prop :=
  ((now : Int) :: es.filterMap CronEvent.time).Pairwise (· ≤ ·)

theorem time_label (s : Cron) (e : CronEvent) :
    ((scheduleLabel s e).toList.map Timers.Event.time).Sublist e.time.toList := by
  cases e with
  | schedule clock ok =>
    rw [scheduleLabel]
    split
    · split
      · split
        · exact .refl _
        · exact List.nil_sublist _
      · exact List.nil_sublist _
    · exact .refl _
    · exact List.nil_sublist _
  | _ => exact List.nil_sublist _

theorem Ticking.ticks {now : Nat} {es : List CronEvent} (h : Ticking now es)
    (cronNext : String → Clock → Option Int) (s : Cron) :
    Timers.Ticks (now : Int) (trace (cronStep cronNext) scheduleLabel s es) := by
  refine h.sublist (List.Sublist.cons_cons (now : Int) ?_)
  clear h
  induction es generalizing s with
  | nil => exact .refl _
  | cons e es ih =>
    have htail : (((cronStep cronNext s e).elim []
        fun s' => trace (cronStep cronNext) scheduleLabel s' es).map Timers.Event.time).Sublist
          (es.filterMap CronEvent.time) := by
      cases cronStep cronNext s e with
      | none => exact List.nil_sublist _
      | some s' => exact ih s'
    have hfilter : (e :: es).filterMap CronEvent.time =
        e.time.toList ++ es.filterMap CronEvent.time := by
      cases h : e.time <;> simp [h]
    rw [trace, List.map_append, hfilter]
    exact (time_label s e).append htail

/-- The next time of a job in a zone. -/
def nextOf (rounds : Nat) (zone : Int) (s : Cron) (j : Nat) (now : Int) : Int :=
  (nextTime rounds (s.heap j).load.expr ⟨now.toNat, zone⟩).getD (-1)

theorem nextOf_timed (rounds : Nat) (zone : Int) (s : Cron) :
    Timed (nextTime rounds) (fun j => (s.heap j).load.expr) zone (nextOf rounds zone s) := by
  rintro j ⟨now, zone'⟩ x hzone hx
  obtain rfl : zone' = zone := hzone
  rw [nextOf, Int.toNat_natCast, hx]
  rfl

theorem nextOf_daily {rounds : Nat} (hrounds : 86400 < rounds) (zone : Int) {s : Cron} {j : Nat}
    {dak saat : UInt8} (hdak : dak ≤ 59) (hsaat : saat ≤ 23)
    (hexpr : (s.heap j).load.expr = cronExpr dak saat) {now : Int} (hnow : 0 ≤ now) :
    nextOf rounds zone s j now = nextDaily zone dak saat now := by
  rw [nextOf, hexpr, nextTime_daily hrounds hdak hsaat, Int.toNat_of_nonneg hnow]
  rfl

/-- The launches in a run in one zone, from a state in which none is under way, up to when the job
was put back into the list. -/
def Cron.turns (rounds : Nat) (zone : Int) (s : Cron) (es : List CronEvent) :
    List (Timers.Turn Nat Int) :=
  Timers.turns (nextOf rounds zone s) ⟨s.due, none⟩
    (trace (cronStep (nextTime rounds)) scheduleLabel s es)

/-- How the daily job `j` is launched in a run from `s` to `s'`. -/
structure DailyLaunches (rounds : Nat) (zone : Int) (dak saat : UInt8) (s s' : Cron)
    (es : List CronEvent) (j : Nat) : Prop where
  /-- For its times only, but for the time that it was waiting for at first. -/
  times : ∀ t ∈ s.turns rounds zone es, t.timer = j → t.due = s.due j ∨ DailyAt zone dak saat t.due
  /-- Never too early. -/
  timely : ∀ t ∈ s.turns rounds zone es, t.timer = j → t.due ≤ t.fired ∧ t.fired ≤ t.rearmed
  /-- Never twice for a time. -/
  apart : (s.turns rounds zone es).Pairwise fun t t' =>
    t.timer = j → t'.timer = j → t.rearmed < t'.due
  /-- A time passes only between the one that a launch is for and the return into the list. -/
  covered : ∀ x, DailyAt zone dak saat x → s.due j ≤ x → x < s'.due j →
    ∃ t ∈ s.turns rounds zone es, t.timer = j ∧ t.due ≤ x ∧ x ≤ t.rearmed
  /-- A job that is always back in time is launched for each of its times. -/
  once : ∀ x, DailyAt zone dak saat x → s.due j ≤ x → x < s'.due j →
    (∀ t ∈ s.turns rounds zone es, t.timer = j → t.due < x → t.rearmed < x) →
    ∃ t, (s.turns rounds zone es).filter (fun t => t.timer = j ∧ t.due = x) = [t]

theorem dailyLaunches_of_run {rounds : Nat} (hrounds : 86400 < rounds) {zone : Int}
    {s s' : Cron} {es : List CronEvent} {now j : Nat} {dak saat : UInt8}
    (hscheduling : ∀ e ∈ es, e.Scheduling) (hzone : ∀ e ∈ es, e.InZone zone)
    (hticking : Ticking now es) (hrun : run (cronStep (nextTime rounds)) s es = some s')
    (hidle : s.fired = none) (hdak : dak ≤ 59) (hsaat : saat ≤ 23)
    (hexpr : (s.heap j).load.expr = cronExpr dak saat) :
    DailyLaunches rounds zone dak saat s s' es j := by
  have hnext {r : Int} (hr : (now : Int) ≤ r) :
      nextOf rounds zone s j r = nextDaily zone dak saat r :=
    nextOf_daily hrounds zone hdak hsaat hexpr (by omega)
  have hticks := hticking.ticks (nextTime rounds) s
  obtain ⟨a, hrun', hfollowed⟩ := run_trace scheduleLabel
    (R := FollowedBy fun j => (s.heap j).load.expr)
    (V := fun e => e.Scheduling ∧ e.InZone zone) (a := ⟨s.due, none⟩)
    (followedBy_step (nextOf_timed rounds zone s)) ⟨fun _ => rfl, hidle.symm, fun _ => rfl⟩
    (fun e he => ⟨hscheduling e he, hzone e he⟩) hrun
  have htimely : Timers.Timely (now : Int) (⟨s.due, none⟩ : Timers.State Nat Int) :=
    fun p hp => by cases hp
  have hlater : ∀ r, (now : Int) ≤ r → r < nextOf rounds zone s j r := by
    intro r hr
    rw [hnext hr]
    exact (nextDaily_bounds zone dak saat r).1
  have hfirst {x : Int} (hx : DailyAt zone dak saat x) :
      ∀ r, (now : Int) ≤ r → r < x → nextOf rounds zone s j r ≤ x := by
    intro r hr hrx
    rw [hnext hr]
    exact nextDaily_le hx hrx
  constructor
  case times =>
    intro t ht hti
    refine (Timers.turns_due hticks hrun' j t ht hti).imp_right ?_
    rintro ⟨r, hr, hdue⟩
    rw [hdue, hnext hr]
    exact nextDaily_daily zone hdak hsaat r
  case timely => exact fun t ht _ => Timers.turns_timely htimely hticks hrun' t ht
  case apart => exact Timers.turns_apart _ j hlater htimely hticks hrun'
  case covered =>
    intro x hx hlow hhigh
    rw [← hfollowed.due j] at hhigh
    exact Timers.turns_cover _ j (hfirst hx) hticks hrun' hlow hhigh
  case once =>
    intro x hx hlow hhigh hsoon
    rw [← hfollowed.due j] at hhigh
    exact Timers.turns_once _ j hlater (hfirst hx) htimely hticks hrun' hlow hhigh hsoon

/-- One job for half past seven, and a run in which it is launched. -/
def morningJob : Cron :=
  { cronInit with
    heap := fun _ => ⟨⟨cronExpr 30 7, ⟨1, 1, 3, 150⟩⟩, 0, 1700022600, false⟩
    allocated := 1
    first := [0]
    nextId := 1
    running := true
    task := some .looking
    jobs := [0] }

def morningRun : List CronEvent :=
  .schedule ⟨1700022540, 10800⟩ true ::
    List.replicate 2 (.schedule ⟨1700022600, 10800⟩ true) ++ .launcher 0 ::
    List.replicate 3 (.schedule ⟨1700022600, 10800⟩ true) ++
    List.replicate 2 (.schedule ⟨1700022601, 10800⟩ true)

end DaliController.Schedule
