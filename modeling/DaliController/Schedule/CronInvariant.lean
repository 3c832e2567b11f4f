import DaliController.Schedule.Cron

/-! What the scheduler, the tasks it launches and `init_cron` keep, if `init_cron` is only called
while the scheduler is outside of the list, and the tasks launched for jobs of the list have
ended. -/

namespace DaliController.Schedule

open Runs

variable {cronNext : String → Clock → Option Int}

/-! ### The list -/

theorem listInsert_perm (nextExecution : Nat → Int) (new : Nat) (first : List Nat) :
    (listInsert nextExecution new first).Perm (new :: first) := by
  induction first with
  | nil => exact .refl _
  | cons j next ih =>
    rw [listInsert]
    split
    · exact .refl _
    · exact (ih.cons j).trans (.swap new j next)

/-- The first node is found at once. -/
theorem listRemove_head (idOf : Nat → Int) (j : Nat) (next : List Nat) :
    listRemove idOf (idOf j) (j :: next) = some next := by
  cases next with
  | nil => exact if_pos rfl
  | cons j' next => exact if_pos rfl

theorem number_of_nonneg {s : Cron} {j : Nat} (h : 0 ≤ (s.heap j).id) : s.number j = s :=
  if_neg (by omega)

/-! ### Invariant -/

/-- The job that the scheduler has taken out of the list. -/
def SchedulePoint.out : SchedulePoint → List Nat
  | .unlinked j | .removed j | .inserting j => [j]
  | .looking | .sleeping | .launched _ | .removing _ | .linked _ => []

/-- The job that is to be removed. -/
def SchedulePoint.front : SchedulePoint → Option Nat
  | .launched j | .removing j => some j
  | _ => none

/-- The scheduler has the mutex. -/
def SchedulePoint.inList : SchedulePoint → Bool
  | .removing _ | .unlinked _ | .inserting _ | .linked _ => true
  | .looking | .sleeping | .launched _ | .removed _ => false

/-- The job that the scheduler puts back. -/
def SchedulePoint.back : SchedulePoint → Option Nat
  | .linked j => some j
  | _ => none

def Cron.out (s : Cron) : List Nat := s.task.elim [] SchedulePoint.out

def InitPoint.todo : InitPoint → List CronJob
  | .idle => []
  | .clearing todo | .creating _ todo => todo

/-- What each stage of `init_cron` has reached. -/
def Cron.InitSound (s : Cron) : Prop :=
  match s.init with
  | .idle => (s.first ++ s.out).Perm s.jobs
  | .clearing todo => (∀ l ∈ s.launchers, l.job ∈ s.first → l.stage = .ended) ∧ todo.length ≤ 20
  | .creating made todo => s.first.Perm made ∧ made.length + todo.length ≤ 20

/-- The jobs of the list, and the one that the scheduler has taken out, are there, and so are those
of the tasks that it has launched.  A mutex that is taken is the scheduler's, or the list is to stay
empty. -/
structure Sound (s : Cron) : Prop where
  live : ∀ j ∈ s.first ++ s.out, j < s.allocated ∧ (s.heap j).freed = false ∧ 0 ≤ (s.heap j).id
  nodup : (s.first ++ s.out).Nodup
  front : ∀ p ∈ s.task, ∀ j ∈ p.front, s.first.head? = some j
  back : ∀ p ∈ s.task, ∀ j ∈ p.back, j ∈ s.first
  task : s.task ≠ none → s.running = true ∧ s.init = .idle
  semaphore : s.semaphore = true →
    (∃ p ∈ s.task, p.inList = true) ∨ s.task = none ∧ s.first = [] ∧ s.init.todo = []
  launchers : ∀ l ∈ s.launchers, l.stage ≠ .ended →
    l.job < s.allocated ∧ (s.heap l.job).freed = false
  init : s.InitSound

theorem initSound_clearing {s : Cron} {todo : List CronJob} (h : s.init = .clearing todo) :
    s.InitSound ↔
      (∀ l ∈ s.launchers, l.job ∈ s.first → l.stage = .ended) ∧ todo.length ≤ 20 := by
  unfold Cron.InitSound
  rw [h]

theorem initSound_creating {s : Cron} {made : List Nat} {todo : List CronJob}
    (h : s.init = .creating made todo) :
    s.InitSound ↔ s.first.Perm made ∧ made.length + todo.length ≤ 20 := by
  unfold Cron.InitSound
  rw [h]

theorem Sound.unharmed {s : Cron} (h : Sound s) : s.Unharmed :=
  fun l hl hstage => (h.launchers l hl hstage).2

theorem out_of_task {s : Cron} {p : SchedulePoint} (h : s.task = some p) : s.out = p.out := by
  rw [Cron.out, h]
  rfl

theorem out_of_none {s : Cron} (h : s.task = none) : s.out = [] := by
  rw [Cron.out, h]
  rfl

theorem Sound.task_none {s : Cron} (h : Sound s) (hinit : s.init ≠ .idle) : s.task = none := by
  by_contra htask
  exact hinit (h.task htask).2

/-! ### The scheduler -/

/-- The scheduler goes on: the jobs stay the same, in the list or out of it. -/
theorem Sound.move {s s' : Cron} (h : Sound s) {p p' : SchedulePoint} (hp : s.task = some p)
    (hp' : s'.task = some p') (hlist : (s'.first ++ p'.out).Perm (s.first ++ p.out))
    (hheap : ∀ j, (s'.heap j).freed = (s.heap j).freed ∧ (s'.heap j).id = (s.heap j).id)
    (hsame : s'.allocated = s.allocated ∧ s'.init = s.init ∧ s'.jobs = s.jobs)
    (hrunning : s'.running = true)
    (hlaunchers : ∀ l ∈ s'.launchers, l ∈ s.launchers ∨ l.job ∈ s.first)
    (hfront : ∀ j ∈ p'.front, s'.first.head? = some j) (hback : ∀ j ∈ p'.back, j ∈ s'.first)
    (hsemaphore : s'.semaphore = true → p'.inList = true) : Sound s' := by
  obtain ⟨hallocated, hinit, hjobs⟩ := hsame
  have hidle : s.init = .idle := (h.task (by rw [hp]; exact nofun)).2
  have hout : s'.first ++ s'.out = s'.first ++ p'.out := by rw [out_of_task hp']
  have hperm : (s'.first ++ s'.out).Perm (s.first ++ s.out) := by
    rw [hout, out_of_task hp]
    exact hlist
  constructor
  case live =>
    intro j hj
    rw [hallocated, (hheap j).1, (hheap j).2]
    exact h.live j (hperm.mem_iff.mp hj)
  case nodup => exact hperm.nodup_iff.mpr h.nodup
  case front =>
    intro q hq
    obtain rfl : p' = q := Option.some.inj (hp'.symm.trans hq)
    exact hfront
  case back =>
    intro q hq
    obtain rfl : p' = q := Option.some.inj (hp'.symm.trans hq)
    exact hback
  case task => exact fun _ => ⟨hrunning, hinit.trans hidle⟩
  case semaphore => exact fun hs => .inl ⟨p', hp', hsemaphore hs⟩
  case launchers =>
    intro l hl hstage
    rw [hallocated, (hheap l.job).1]
    rcases hlaunchers l hl with hl | hl
    · exact h.launchers l hl hstage
    · obtain ⟨hlt, hfreed, -⟩ := h.live l.job (List.mem_append_left _ hl)
      exact ⟨hlt, hfreed⟩
  case init =>
    have hs := h.init
    unfold Cron.InitSound at hs ⊢
    rw [hidle] at hs
    rw [hinit, hidle, hjobs]
    exact hperm.trans hs

/-- Outside of the list, the scheduler finds the mutex free. -/
theorem Sound.semaphore_free {s : Cron} (h : Sound s) {p : SchedulePoint} (hp : s.task = some p)
    (hout : p.inList = false) : s.semaphore = false := by
  cases hs : s.semaphore with
  | false => rfl
  | true =>
    rcases h.semaphore hs with ⟨q, hq, hin⟩ | ⟨hnone, -⟩
    · obtain rfl : p = q := Option.some.inj (hp.symm.trans hq)
      rw [hout] at hin
      cases hin
    · rw [hp] at hnone
      cases hnone

theorem heap_setJob {s : Cron} {j : Nat} {job : Job} (hfreed : job.freed = (s.heap j).freed)
    (hid : job.id = (s.heap j).id) (i : Nat) :
    ((s.setJob j job).heap i).freed = (s.heap i).freed ∧
      ((s.setJob j job).heap i).id = (s.heap i).id := by
  unfold Cron.setJob
  rcases eq_or_ne i j with rfl | hne
  · simp [hfreed, hid]
  · simp [hne]

/-- The first job is launched, if its time has come. -/
theorem sound_look {s s' : Cron} (h : Sound s) (hp : s.task = some .looking) {clock : Clock}
    {ok : Bool} (hstep : scheduleStep cronNext s clock ok .looking = some s') : Sound s' := by
  have hfree : s.semaphore ≠ true := Bool.eq_false_iff.mp (h.semaphore_free hp rfl)
  have hsame (i : Nat) : (s.heap i).freed = (s.heap i).freed ∧ (s.heap i).id = (s.heap i).id :=
    ⟨rfl, rfl⟩
  rw [scheduleStep] at hstep
  split at hstep
  · cases hstep
  · rename_i j next hfirst
    simp only at hstep
    split at hstep
    · cases hstep
      refine h.move hp rfl (.refl _) hsame ⟨rfl, rfl, rfl⟩ rfl ?_ ?_ nofun fun hs => absurd hs hfree
      · intro l hl
        cases ok with
        | false => exact .inl hl
        | true =>
          rcases List.mem_append.mp hl with hl | hl
          · exact .inl hl
          · rw [List.mem_singleton.mp hl, hfirst]
            exact .inr List.mem_cons_self
      · intro i hi
        cases hi
        exact congrArg List.head? hfirst
    · cases hstep
      exact h.move hp rfl (.refl _) hsame ⟨rfl, rfl, rfl⟩ rfl (fun l hl => .inl hl) nofun nofun
        fun hs => absurd hs hfree

theorem sound_schedule {s s' : Cron} (h : Sound s) {p : SchedulePoint} (hp : s.task = some p)
    {clock : Clock} {ok : Bool} (hstep : scheduleStep cronNext s clock ok p = some s') :
    Sound s' := by
  have hrunning : s.running = true := (h.task (by rw [hp]; exact nofun)).1
  have hsame (i : Nat) : (s.heap i).freed = (s.heap i).freed ∧ (s.heap i).id = (s.heap i).id :=
    ⟨rfl, rfl⟩
  have hkept : ∀ l ∈ s.launchers, l ∈ s.launchers ∨ l.job ∈ s.first := fun l hl => .inl hl
  cases p with
  | looking => exact sound_look h hp hstep
  | sleeping =>
    have hfree : s.semaphore = false := h.semaphore_free hp rfl
    cases hstep
    refine h.move hp rfl (.refl _) hsame ⟨rfl, rfl, rfl⟩ hrunning hkept nofun nofun ?_
    exact fun hs => absurd hs (Bool.eq_false_iff.mp hfree)
  | launched j =>
    have hfree : s.semaphore = false := h.semaphore_free hp rfl
    rw [scheduleStep, hfree] at hstep
    cases hstep
    exact h.move hp rfl (.refl _) hsame ⟨rfl, rfl, rfl⟩ hrunning hkept
      (fun i hi => h.front (.launched j) hp i hi) nofun fun _ => rfl
  | removing j =>
    obtain ⟨next, hfirst⟩ : ∃ next, s.first = j :: next :=
      List.head?_eq_some_iff.mp (h.front _ hp j rfl)
    rw [scheduleStep, hfirst, listRemove_head (fun i => (s.heap i).id) j next] at hstep
    cases hstep
    refine h.move hp rfl ?_ hsame ⟨rfl, rfl, rfl⟩ hrunning hkept nofun nofun fun _ => rfl
    rw [hfirst]
    show (next ++ [j]).Perm (j :: next ++ [])
    rw [List.append_nil]
    exact List.perm_append_singleton j next
  | unlinked j =>
    cases hstep
    exact h.move hp rfl (.refl _) hsame ⟨rfl, rfl, rfl⟩ hrunning hkept nofun nofun nofun
  | removed j =>
    have hfree : s.semaphore = false := h.semaphore_free hp rfl
    obtain ⟨next, -, rfl⟩ := Option.map_eq_some_iff.mp hstep
    unfold Cron.rearm
    simp only
    rw [show (s.setJob j _).semaphore = s.semaphore from rfl, hfree]
    exact h.move hp rfl (.refl _) (heap_setJob rfl rfl) ⟨rfl, rfl, rfl⟩ hrunning hkept nofun nofun
      fun _ => rfl
  | inserting j =>
    cases hstep
    have hperm := listInsert_perm (fun i => (s.heap i).nextExecution) j s.first
    refine h.move hp rfl ?_ hsame ⟨rfl, rfl, rfl⟩ hrunning hkept nofun ?_ fun _ => rfl
    · show (s.insert j).first ++ [] |>.Perm _
      rw [List.append_nil]
      exact hperm.trans (List.perm_append_singleton j s.first).symm
    · intro i hi
      cases hi
      exact hperm.mem_iff.mpr List.mem_cons_self
  | linked j =>
    have hmem : j ∈ s.first := h.back _ hp j rfl
    have hid := (h.live j (List.mem_append_left _ hmem)).2.2
    have hnumber : ({ s with semaphore := false } : Cron).number j =
        { s with semaphore := false } := number_of_nonneg hid
    rw [scheduleStep, hnumber] at hstep
    cases hstep
    exact h.move hp rfl (.refl _) hsame ⟨rfl, rfl, rfl⟩ hrunning hkept nofun nofun nofun

/-! ### The launched tasks -/

/-- A launched task that has not ended goes on. -/
theorem Sound.launch {s : Cron} (h : Sound s) {i : Nat} {l : Launcher}
    (hl : s.launchers[i]? = some l) (hstage : l.stage ≠ .ended) (stage : LaunchStage) :
    Sound { s with launchers := s.launchers.set i ⟨l.job, stage⟩ } := by
  have hmem : l ∈ s.launchers := List.mem_of_getElem? hl
  have hold : ∀ l' ∈ s.launchers.set i ⟨l.job, stage⟩, l'.stage ≠ .ended →
      ∃ l₀ ∈ s.launchers, l₀.job = l'.job ∧ l₀.stage ≠ .ended := by
    intro l' hl' hstage'
    rcases List.mem_or_eq_of_mem_set hl' with hl' | rfl
    · exact ⟨l', hl', rfl, hstage'⟩
    · exact ⟨l, hmem, rfl, hstage⟩
  refine { h with launchers := ?_, init := ?_ }
  · intro l' hl' hstage'
    obtain ⟨l₀, hl₀, hjob, hstage₀⟩ := hold l' hl' hstage'
    rw [← hjob]
    exact h.launchers l₀ hl₀ hstage₀
  · have hs := h.init
    unfold Cron.InitSound at hs ⊢
    cases hinit : s.init with
    | idle =>
      rw [hinit] at hs
      exact hs
    | creating made todo =>
      rw [hinit] at hs
      exact hs
    | clearing todo =>
      rw [hinit] at hs
      refine ⟨fun l' hl' hjob => ?_, hs.2⟩
      by_contra hstage'
      obtain ⟨l₀, hl₀, hsame, hstage₀⟩ := hold l' hl' hstage'
      exact hstage₀ (hs.1 l₀ hl₀ (hsame ▸ hjob))

theorem sound_launcher {s s' : Cron} (h : Sound s) {i : Nat}
    (hstep : cronStep cronNext s (.launcher i) = some s') : Sound s' := by
  rw [cronStep] at hstep
  split at hstep
  · rename_i j hl
    cases hstep
    exact h.launch hl nofun .calling
  · rename_i j hl
    cases hstep
    exact h.launch hl nofun .ended
  · cases hstep

/-! ### `init_cron` -/

/-- Without a scheduler, all jobs are in the list. -/
theorem sound_of_none {s : Cron} (hnone : s.task = none)
    (hlive : ∀ j ∈ s.first, j < s.allocated ∧ (s.heap j).freed = false ∧ 0 ≤ (s.heap j).id)
    (hnodup : s.first.Nodup)
    (hsemaphore : s.semaphore = true → s.first = [] ∧ s.init.todo = [])
    (hlaunchers : ∀ l ∈ s.launchers, l.stage ≠ .ended →
      l.job < s.allocated ∧ (s.heap l.job).freed = false)
    (hinit : s.InitSound) : Sound s := by
  have hlist : s.first ++ s.out = s.first := by rw [out_of_none hnone, List.append_nil]
  constructor
  case live =>
    rw [hlist]
    exact hlive
  case nodup =>
    rw [hlist]
    exact hnodup
  case front =>
    rw [hnone]
    exact nofun
  case back =>
    rw [hnone]
    exact nofun
  case task => exact fun htask => absurd hnone htask
  case semaphore => exact fun hs => .inr ⟨hnone, hsemaphore hs⟩
  case launchers => exact hlaunchers
  case init => exact hinit

/-- While `init_cron` runs, there is no scheduler. -/
structure Stopped (s : Cron) : Prop where
  task : s.task = none
  live : ∀ j ∈ s.first, j < s.allocated ∧ (s.heap j).freed = false ∧ 0 ≤ (s.heap j).id
  nodup : s.first.Nodup
  semaphore : s.semaphore = true → s.first = [] ∧ s.init.todo = []

theorem Sound.stopped {s : Cron} (h : Sound s) (hinit : s.init ≠ .idle) : Stopped s := by
  have hnone : s.task = none := h.task_none hinit
  have hlist : s.first ++ s.out = s.first := by rw [out_of_none hnone, List.append_nil]
  refine ⟨hnone, hlist ▸ h.live, hlist ▸ h.nodup, fun hs => ?_⟩
  rcases h.semaphore hs with ⟨p, hp, -⟩ | ⟨-, hempty⟩
  · rw [hnone] at hp
    cases hp
  · exact hempty

/-- `cron_stop` only ends the scheduler. -/
theorem begin_eq {s : Cron} (h : Sound s) (zaman : UInt8 → Zaman) : ∃ running,
    s.begin zaman = { s with running, task := none, init := .clearing (allJobs zaman) } := by
  cases hrunning : s.running with
  | true =>
    refine ⟨false, ?_⟩
    rw [Cron.begin, cronStop, if_pos hrunning]
  | false =>
    have htask : s.task = none := by
      by_contra htask
      have hr := (h.task htask).1
      rw [hrunning] at hr
      cases hr
    refine ⟨s.running, ?_⟩
    rw [Cron.begin, cronStop, if_neg (by rw [hrunning]; exact Bool.false_ne_true), ← htask]

theorem Sound.begin {s : Cron} (h : Sound s) {zaman : UInt8 → Zaman}
    (hC : Calm s (.begin zaman)) : Sound (s.begin zaman) := by
  obtain ⟨running, hbegin⟩ := begin_eq h zaman
  obtain ⟨hsemaphore, hended, hlength⟩ := hC
  have hfirst : s.first.Sublist (s.first ++ s.out) := List.sublist_append_left _ _
  rw [hbegin]
  refine sound_of_none rfl ?_ (hfirst.nodup h.nodup) hsemaphore h.launchers ⟨hended, hlength⟩
  exact fun j hj => h.live j (hfirst.subset hj)

/-- The first job of the list is destroyed, and its node goes with it. -/
theorem cronJobDestroy_first {s : Cron} {j : Nat} {next : List Nat} (hfirst : s.first = j :: next)
    (hid : 0 ≤ (s.heap j).id) (hfree : s.semaphore = false) :
    cronJobDestroy s j =
      some { s.setJob j { s.heap j with freed := true } with first := next } := by
  have hremove : ¬((s.heap j).id < 0 ∨ s.semaphore = true) := by
    rw [hfree]
    simp [Int.not_lt.mpr hid]
  unfold cronJobDestroy
  rw [if_neg hremove, hfirst, listRemove_head (fun i => (s.heap i).id) j next]
  rfl

/-- A mutex that is taken leaves nothing to do. -/
theorem Stopped.semaphore_free {s : Cron} (h : Stopped s)
    (hsome : s.first ≠ [] ∨ s.init.todo ≠ []) : s.semaphore = false := by
  cases htaken : s.semaphore with
  | false => rfl
  | true =>
    obtain ⟨hfirst, htodo⟩ := h.semaphore htaken
    rcases hsome with hne | hne
    · exact absurd hfirst hne
    · exact absurd htodo hne

theorem Stopped.destroy_eq {s : Cron} (h : Stopped s) {j : Nat} {next : List Nat}
    (hfirst : s.first = j :: next) : cronJobDestroy s j =
      some { s.setJob j { s.heap j with freed := true } with first := next } := by
  have hfree : s.semaphore = false := h.semaphore_free (.inl (by rw [hfirst]; exact nofun))
  refine cronJobDestroy_first hfirst (h.live j ?_).2.2 hfree
  rw [hfirst]
  exact List.mem_cons_self

/-- A job is destroyed that no task is to run any more. -/
theorem Sound.destroy {s : Cron} (h : Sound s) {todo : List CronJob} {j : Nat} {next : List Nat}
    (hinit : s.init = .clearing todo) (hfirst : s.first = j :: next) :
    Sound { s.setJob j { s.heap j with freed := true } with first := next } := by
  obtain ⟨hnone, hlive, hnodup, hsemaphore⟩ := h.stopped (by rw [hinit]; exact nofun)
  obtain ⟨hended, hlength⟩ := (initSound_clearing hinit).mp h.init
  rw [hfirst] at hlive hnodup hended hsemaphore
  have hnew (i : Nat) (hi : i ≠ j) :
      Function.update s.heap j { s.heap j with freed := true } i = s.heap i :=
    Function.update_of_ne hi _ _
  refine sound_of_none hnone ?_ (List.nodup_cons.mp hnodup).2 ?_ ?_ ?_
  · intro i hi
    have hne : i ≠ j := fun he => (List.nodup_cons.mp hnodup).1 (he ▸ hi)
    show i < s.allocated ∧ (Function.update s.heap j _ i).freed = false ∧
      0 ≤ (Function.update s.heap j _ i).id
    rw [hnew i hne]
    exact hlive i (List.mem_cons_of_mem j hi)
  · intro htaken
    exact absurd (hsemaphore htaken).1 (List.cons_ne_nil j next)
  · intro l hl hstage
    have hne : l.job ≠ j := by
      intro he
      apply hstage
      apply hended l hl
      rw [he]
      exact List.mem_cons_self
    show l.job < s.allocated ∧ (Function.update s.heap j _ l.job).freed = false
    rw [hnew l.job hne]
    exact h.launchers l hl hstage
  · have hclearing : ({ s.setJob j { s.heap j with freed := true } with first := next } :
        Cron).init = .clearing todo := hinit
    refine (initSound_clearing hclearing).mpr ⟨fun l hl hjob => ?_, hlength⟩
    exact hended l hl (List.mem_cons_of_mem j hjob)

/-- The list is empty, and its numbers begin again. -/
theorem Sound.cleared {s : Cron} (h : Sound s) {todo : List CronJob}
    (hinit : s.init = .clearing todo) (hfirst : s.first = []) :
    Sound { s with nextId := 0, init := .creating [] todo } := by
  obtain ⟨hnone, hlive, hnodup, hsemaphore⟩ := h.stopped (by rw [hinit]; exact nofun)
  rw [hinit] at hsemaphore
  refine sound_of_none hnone hlive hnodup hsemaphore h.launchers ?_
  show s.first.Perm [] ∧ 0 + todo.length ≤ 20
  rw [hfirst, Nat.zero_add]
  exact ⟨.refl _, ((initSound_clearing hinit).mp h.init).2⟩

/-- A new job has its own number and its place in the list. -/
theorem create_eq {s : Cron} (hfree : s.semaphore = false) (load : CronJob) (next : Int) :
    ∃ first, first.Perm (s.allocated :: s.first) ∧
      s.create load next = (s.allocated,
        { s.setJob s.allocated ⟨load, s.nextId, next, false⟩ with
          allocated := s.allocated + 1
          first
          nextId := s.nextId + 1 }) := by
  refine ⟨_, listInsert_perm (fun i => ((s.setJob s.allocated
    ⟨load, -1, next, false⟩).heap i).nextExecution) s.allocated s.first, ?_⟩
  have htaken : ¬s.semaphore = true := by
    rw [hfree]
    exact Bool.false_ne_true
  unfold Cron.create
  simp only
  rw [if_neg (show ¬(s.setJob s.allocated _).semaphore = true from htaken), Cron.number, if_pos]
  · simp [Cron.insert, Cron.setJob]
  · simp [Cron.insert, Cron.setJob]

theorem Sound.create {s : Cron} (h : Sound s) {made : List Nat} {load : CronJob}
    {todo : List CronJob} (hinit : s.init = .creating made (load :: todo)) (next : Int) :
    Sound { (s.create load next).2 with
      init := .creating (made ++ [(s.create load next).1]) todo } := by
  obtain ⟨hnone, hlive, hnodup, hsemaphore⟩ := h.stopped (by rw [hinit]; exact nofun)
  rw [hinit] at hsemaphore
  obtain ⟨hperm, hlength⟩ := (initSound_creating hinit).mp h.init
  have hfree : s.semaphore = false := by
    refine (h.stopped (by rw [hinit]; exact nofun)).semaphore_free (.inr ?_)
    rw [hinit]
    exact List.cons_ne_nil load todo
  obtain ⟨first, hfirst, hcreate⟩ := create_eq hfree load next
  rw [hcreate]
  have hold (i : Nat) (hi : i < s.allocated) (job : Job) :
      Function.update s.heap s.allocated job i = s.heap i :=
    Function.update_of_ne (Nat.ne_of_lt hi) _ _
  refine sound_of_none hnone ?_ ?_ ?_ ?_ ?_
  · intro i hi
    show i < s.allocated + 1 ∧ (Function.update s.heap s.allocated _ i).freed = false ∧
      0 ≤ (Function.update s.heap s.allocated _ i).id
    rcases List.mem_cons.mp (hfirst.mem_iff.mp hi) with rfl | hi
    · rw [Function.update_self]
      exact ⟨Nat.lt_succ_self _, rfl, Int.natCast_nonneg _⟩
    · obtain ⟨hlt, hrest⟩ := hlive i hi
      rw [hold i hlt]
      exact ⟨Nat.lt_succ_of_lt hlt, hrest⟩
  · refine hfirst.nodup_iff.mpr (List.nodup_cons.mpr ⟨fun hmem => ?_, hnodup⟩)
    exact Nat.lt_irrefl _ (hlive _ hmem).1
  · intro htaken
    have htaken : s.semaphore = true := htaken
    rw [hfree] at htaken
    cases htaken
  · intro l hl hstage
    obtain ⟨hlt, hfreed⟩ := h.launchers l hl hstage
    show l.job < s.allocated + 1 ∧ (Function.update s.heap s.allocated _ l.job).freed = false
    rw [hold l.job hlt]
    exact ⟨Nat.lt_succ_of_lt hlt, hfreed⟩
  · show first.Perm (made ++ [s.allocated]) ∧ (made ++ [s.allocated]).length + todo.length ≤ 20
    rw [List.length_append, List.length_singleton]
    rw [List.length_cons] at hlength
    exact ⟨hfirst.trans ((hperm.cons _).trans (List.perm_append_singleton _ _).symm), by omega⟩

theorem Sound.looking {s : Cron} (h : Sound s) (hinit : s.init = .idle) (hnone : s.task = none)
    (hfree : s.semaphore ≠ true) : Sound { s with running := true, task := some .looking } := by
  have hout : s.out = [] := out_of_none hnone
  have hlive := h.live
  have hnodup := h.nodup
  have hs := h.init
  unfold Cron.InitSound at hs
  rw [hinit] at hs
  rw [hout] at hlive hnodup hs
  refine ⟨hlive, hnodup, ?_, ?_, fun _ => ⟨rfl, hinit⟩, fun htaken => absurd htaken hfree,
    h.launchers, ?_⟩
  · rintro p ⟨⟩
    exact nofun
  · rintro p ⟨⟩
    exact nofun
  · unfold Cron.InitSound
    rw [show ({ s with running := true, task := some .looking } : Cron).init = .idle from hinit]
    exact hs

/-- The scheduler starts again, if there is a job for it. -/
theorem Sound.finish {s : Cron} (h : Sound s) {made : List Nat}
    (hinit : s.init = .creating made []) (ok : Bool) :
    Sound (if made ≠ [] then cronStart { s with init := .idle, jobs := made } ok
      else { s with init := .idle, jobs := made }) := by
  obtain ⟨hnone, hlive, hnodup, hsemaphore⟩ := h.stopped (by rw [hinit]; exact nofun)
  rw [hinit] at hsemaphore
  obtain ⟨hperm, -⟩ := (initSound_creating hinit).mp h.init
  have hrest : Sound { s with init := .idle, jobs := made } := by
    refine sound_of_none hnone hlive hnodup hsemaphore h.launchers ?_
    show (s.first ++ s.out).Perm made
    rw [out_of_none hnone, List.append_nil]
    exact hperm
  split
  · rename_i hmade
    have hfree : s.semaphore ≠ true := by
      intro htaken
      apply hmade
      rw [(hsemaphore htaken).1] at hperm
      exact hperm.symm.eq_nil
    unfold cronStart
    split
    · exact hrest
    · cases ok with
      | false =>
        refine sound_of_none rfl hlive hnodup hsemaphore h.launchers ?_
        show (s.first ++ []).Perm made
        rw [List.append_nil]
        exact hperm
      | true => exact hrest.looking rfl hnone fun htaken => hfree htaken
  · exact hrest

/-! ### Runs -/

/-- The steps that `init_cron` has still to make. -/
def Cron.remaining (s : Cron) : Nat :=
  match s.init with
  | .idle => 0
  | .clearing todo => s.first.length + todo.length + 2
  | .creating _ todo => todo.length + 1

theorem remaining_clearing {s : Cron} {todo : List CronJob} (h : s.init = .clearing todo) :
    s.remaining = s.first.length + todo.length + 2 := by
  rw [Cron.remaining, h]

theorem remaining_creating {s : Cron} {made : List Nat} {todo : List CronJob}
    (h : s.init = .creating made todo) : s.remaining = todo.length + 1 := by
  rw [Cron.remaining, h]

theorem remaining_idle {s : Cron} (h : s.init = .idle) : s.remaining = 0 := by
  rw [Cron.remaining, h]

/-- `cron_start` leaves the jobs as they are. -/
theorem cronStart_eq (s : Cron) (ok : Bool) :
    ∃ running task, cronStart s ok = { s with running, task } := by
  unfold cronStart
  split
  · exact ⟨s.running, s.task, rfl⟩
  · exact ⟨_, _, rfl⟩

theorem finish_eq (s : Cron) (made : List Nat) (ok : Bool) : ∃ running task,
    (if made ≠ [] then cronStart { s with init := .idle, jobs := made } ok
      else { s with init := .idle, jobs := made }) =
    { s with running, task, init := .idle, jobs := made } := by
  split
  · obtain ⟨running, task, hstart⟩ := cronStart_eq { s with init := .idle, jobs := made } ok
    exact ⟨running, task, hstart⟩
  · exact ⟨s.running, s.task, rfl⟩

/-- What a step of `init_cron` finds and leaves. -/
inductive InitStep (cronNext : String → Clock → Option Int) (s : Cron) (clock : Clock)
    (ok : Bool) : Cron → Prop
  | destroy {todo : List CronJob} {j : Nat} {next : List Nat} {s' : Cron} :
      s.init = .clearing todo → s.first = j :: next → cronJobDestroy s j = some s' →
      InitStep cronNext s clock ok s'
  | cleared {todo : List CronJob} : s.init = .clearing todo → s.first = [] →
      InitStep cronNext s clock ok { s with nextId := 0, init := .creating [] todo }
  | create {made : List Nat} {load : CronJob} {todo : List CronJob} {next : Int} :
      s.init = .creating made (load :: todo) → made.length < 20 →
      cronNext load.expr clock = some next →
      InitStep cronNext s clock ok { (s.create load next).2 with
        init := .creating (made ++ [(s.create load next).1]) todo }
  | finish {made : List Nat} : s.init = .creating made [] →
      InitStep cronNext s clock ok
        (if made ≠ [] then cronStart { s with init := .idle, jobs := made } ok
          else { s with init := .idle, jobs := made })

theorem initStep_cases {s s' : Cron} {clock : Clock} {ok : Bool}
    (hstep : cronStep cronNext s (.init clock ok) = some s') : InitStep cronNext s clock ok s' := by
  rw [cronStep] at hstep
  cases hinit : s.init with
  | idle =>
    rw [hinit] at hstep
    cases hstep
  | clearing todo =>
    rw [hinit, initStep] at hstep
    split at hstep
    · cases hstep
      exact .cleared hinit ‹_›
    · exact .destroy hinit ‹_› hstep
  | creating made todo =>
    rw [hinit] at hstep
    cases todo with
    | cons load todo =>
      rw [initStep] at hstep
      split at hstep
      · obtain ⟨r, hcreate, rfl⟩ := Option.map_eq_some_iff.mp hstep
        obtain ⟨next, hnext, rfl⟩ := Option.map_eq_some_iff.mp hcreate
        exact .create hinit ‹_› hnext
      · cases hstep
    | nil =>
      cases hstep
      exact .finish hinit

/-- Each step of `init_cron` is one less to make. -/
theorem sound_init {s s' : Cron} (h : Sound s) {clock : Clock} {ok : Bool}
    (hstep : cronStep cronNext s (.init clock ok) = some s') :
    Sound s' ∧ s'.remaining + 1 = s.remaining := by
  cases initStep_cases hstep with
  | @destroy todo j next s' hinit hfirst hdestroy =>
    rw [(h.stopped (by rw [hinit]; exact nofun)).destroy_eq hfirst] at hdestroy
    cases hdestroy
    refine ⟨h.destroy hinit hfirst, ?_⟩
    have hclearing : ({ s.setJob j { s.heap j with freed := true } with first := next } :
        Cron).init = .clearing todo := hinit
    rw [remaining_clearing hinit, remaining_clearing hclearing, hfirst, List.length_cons]
    show next.length + todo.length + 2 + 1 = _
    omega
  | cleared hinit hfirst =>
    refine ⟨h.cleared hinit hfirst, ?_⟩
    rw [remaining_clearing hinit, remaining_creating rfl, hfirst, List.length_nil]
    omega
  | @create made load todo next hinit hroom hnext =>
    refine ⟨h.create hinit next, ?_⟩
    rw [remaining_creating hinit, remaining_creating rfl, List.length_cons]
  | finish hinit =>
    refine ⟨h.finish hinit ok, ?_⟩
    obtain ⟨running, task, hfinish⟩ := finish_eq s _ ok
    rw [remaining_creating hinit, hfinish, remaining_idle rfl, List.length_nil]

/-- `init_cron` never waits, but for a `cron_next` that does not return. -/
theorem init_enabled {s : Cron} (h : Sound s) (hinit : s.init ≠ .idle) {clock : Clock}
    (hreturns : ∀ load ∈ s.init.todo, (cronNext load.expr clock).isSome) (ok : Bool) :
    ∃ s', cronStep cronNext s (.init clock ok) = some s' := by
  rw [cronStep]
  cases hs : s.init with
  | idle => exact absurd hs hinit
  | clearing todo =>
    rw [initStep]
    split
    · exact ⟨_, rfl⟩
    · exact ⟨_, (h.stopped hinit).destroy_eq ‹_›⟩
  | creating made todo =>
    cases todo with
    | cons load todo =>
      have hlength := ((initSound_creating hs).mp h.init).2
      rw [List.length_cons] at hlength
      rw [hs] at hreturns
      obtain ⟨next, hnext⟩ := Option.isSome_iff_exists.mp (hreturns load List.mem_cons_self)
      rw [initStep, if_pos (by omega), cronJobCreate, hnext]
      exact ⟨_, rfl⟩
    | nil => exact ⟨_, rfl⟩

theorem cronStep_sound (s : Cron) (e : CronEvent) (s' : Cron) (h : Sound s) (hC : Calm s e)
    (hstep : cronStep cronNext s e = some s') : Sound s' := by
  cases e with
  | begin zaman =>
    rw [cronStep] at hstep
    split at hstep
    · cases hstep
      exact h.begin hC
    · cases hstep
  | init clock ok => exact (sound_init h hstep).1
  | schedule clock ok =>
    obtain ⟨p, hp, hstep⟩ := Option.bind_eq_some_iff.mp hstep
    exact sound_schedule h hp hstep
  | launcher i => exact sound_launcher h hstep

theorem cronInit_sound : Sound cronInit :=
  sound_of_none rfl nofun List.nodup_nil nofun nofun (.refl _)

end DaliController.Schedule
