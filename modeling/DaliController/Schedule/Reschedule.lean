import DaliController.Schedule.CronInvariant
import DaliController.Schedule.JobTable

/-! `init_cron` while the scheduler runs.  It is safe exactly when the scheduler task is deleted
outside of the list, the tasks it has launched for jobs of the list have ended, and `cron_next`
returns for the new jobs.  A mutex that stays taken keeps every job in the list, and
`cron_job_clear_all` destroys the first one for ever. -/

namespace DaliController.Schedule

open Runs

variable {cronNext : String → Clock → Option Int}

/-! ### The jobs that are created -/

/-- The jobs made so far are those of the file, up to the ones still to be made. -/
def Cron.Loaded (s : Cron) (all : List CronJob) : Prop :=
  match s.init with
  | .idle => True
  | .clearing todo => todo = all
  | .creating made todo =>
    made.map (fun j => (s.heap j).load) ++ todo = all ∧ ∀ j ∈ made, j < s.allocated

theorem loaded_clearing {s : Cron} {all todo : List CronJob} (h : s.init = .clearing todo) :
    s.Loaded all ↔ todo = all := by
  unfold Cron.Loaded
  rw [h]

theorem loaded_creating {s : Cron} {all todo : List CronJob} {made : List Nat}
    (h : s.init = .creating made todo) : s.Loaded all ↔
      made.map (fun j => (s.heap j).load) ++ todo = all ∧ ∀ j ∈ made, j < s.allocated := by
  unfold Cron.Loaded
  rw [h]

theorem loaded_idle {s : Cron} (h : s.init = .idle) (all : List CronJob) : s.Loaded all := by
  unfold Cron.Loaded
  rw [h]
  trivial

theorem loaded_init {s s' : Cron} {all : List CronJob} (h : Sound s) (hl : s.Loaded all)
    {clock : Clock} {ok : Bool} (hstep : cronStep cronNext s (.init clock ok) = some s') :
    s'.Loaded all := by
  cases initStep_cases hstep with
  | @destroy todo j next s' hinit hfirst hdestroy =>
    rw [(h.stopped (by rw [hinit]; exact nofun)).destroy_eq hfirst] at hdestroy
    cases hdestroy
    have hclearing : ({ s.setJob j { s.heap j with freed := true } with first := next } :
        Cron).init = .clearing todo := hinit
    exact (loaded_clearing hclearing).mpr ((loaded_clearing hinit).mp hl)
  | cleared hinit hfirst =>
    obtain rfl := (loaded_clearing hinit).mp hl
    exact (loaded_creating rfl).mpr ⟨List.nil_append _, nofun⟩
  | @create made load todo next hinit hroom hnext =>
    obtain ⟨hall, hold⟩ := (loaded_creating hinit).mp hl
    have hfree : s.semaphore = false := by
      refine (h.stopped (by rw [hinit]; exact nofun)).semaphore_free (.inr ?_)
      rw [hinit]
      exact List.cons_ne_nil load todo
    obtain ⟨first, -, hcreate⟩ := create_eq hfree load next
    rw [hcreate]
    refine (loaded_creating rfl).mpr ⟨?_, ?_⟩
    · obtain ⟨job, hjob⟩ : ∃ job : Job, job = ⟨load, s.nextId, next, false⟩ :=
        ⟨_, rfl⟩
      have hmade : (made.map fun j => (Function.update s.heap s.allocated job j).load) =
          made.map fun j => (s.heap j).load := by
        refine List.map_congr_left fun j hj => ?_
        rw [Function.update_of_ne (Nat.ne_of_lt (hold j hj))]
      have hnew : (Function.update s.heap s.allocated job s.allocated).load = load := by
        rw [Function.update_self, hjob]
      show (made ++ [s.allocated]).map (fun j => (Function.update s.heap s.allocated _ j).load) ++
        todo = all
      rw [← hjob, List.map_append, hmade, List.map_singleton, hnew, List.append_assoc]
      exact hall
    · intro j hj
      show j < s.allocated + 1
      rcases List.mem_append.mp hj with hj | hj
      · exact Nat.lt_succ_of_lt (hold j hj)
      · rw [List.mem_singleton.mp hj]
        exact Nat.lt_succ_self _
  | finish hinit =>
    obtain ⟨running, task, hfinish⟩ := finish_eq s _ ok
    rw [hfinish]
    exact loaded_idle rfl all

/-! ### Between the steps of `init_cron` -/

theorem scheduleStep_init {s s' : Cron} {clock : Clock} {ok : Bool} {p : SchedulePoint}
    (hstep : scheduleStep cronNext s clock ok p = some s') : s'.init = s.init := by
  cases p with
  | looking =>
    rw [scheduleStep] at hstep
    split at hstep
    · cases hstep
    · simp only at hstep
      split at hstep <;> cases hstep <;> rfl
  | sleeping | unlinked j | inserting j =>
    cases hstep
    rfl
  | launched j =>
    rw [scheduleStep] at hstep
    split at hstep <;> cases hstep <;> rfl
  | removing j =>
    obtain ⟨first, -, rfl⟩ := Option.map_eq_some_iff.mp hstep
    rfl
  | removed j =>
    obtain ⟨next, -, rfl⟩ := Option.map_eq_some_iff.mp hstep
    unfold Cron.rearm
    simp only
    split <;> rfl
  | linked j =>
    cases hstep
    show (Cron.number _ j).init = _
    unfold Cron.number
    split <;> rfl

/-- What holds while `init_cron` runs: the invariant, and the jobs that it makes. -/
def Running (all : List CronJob) (s : Cron) : Prop := Sound s ∧ s.Loaded all

/-- The other tasks leave the steps of `init_cron` as they are. -/
theorem running_step {all : List CronJob} (s : Cron) (e : CronEvent) (s' : Cron)
    (h : Running all s) (he : initCronRun.during e = true)
    (hstep : cronStep cronNext s e = some s') :
    Running all s' ∧ s'.remaining + (if initCronRun.own e = true then 1 else 0) ≤ s.remaining := by
  obtain ⟨hs, hl⟩ := h
  cases e with
  | begin zaman => cases he
  | init clock ok =>
    obtain ⟨hs', hrank⟩ := sound_init hs hstep
    exact ⟨⟨hs', loaded_init hs hl hstep⟩, Nat.le_of_eq hrank⟩
  | schedule clock ok =>
    obtain ⟨p, hp, hstep⟩ := Option.bind_eq_some_iff.mp hstep
    have hidle : s.init = .idle := (hs.task (by rw [hp]; exact nofun)).2
    have hidle' : s'.init = .idle := (scheduleStep_init hstep).trans hidle
    refine ⟨⟨sound_schedule hs hp hstep, loaded_idle hidle' all⟩, ?_⟩
    rw [remaining_idle hidle', remaining_idle hidle]
    exact Nat.le_refl 0
  | launcher i =>
    refine ⟨⟨sound_launcher hs hstep, ?_⟩, ?_⟩
    · rw [cronStep] at hstep
      split at hstep <;> cases hstep <;> exact hl
    · rw [cronStep] at hstep
      split at hstep <;> cases hstep <;> exact Nat.le_refl _

/-- At the end, the list holds the jobs that were made. -/
theorem finished_list {all : List CronJob} {s s' : Cron} {clock : Clock} {ok : Bool}
    (h : Running all s) (hstep : cronStep cronNext s (.init clock ok) = some s')
    (hidle : s'.init = .idle) :
    s'.first.Perm s'.jobs ∧ s'.jobs.map (fun j => (s'.heap j).load) = all := by
  obtain ⟨hs, hl⟩ := h
  cases initStep_cases hstep with
  | @destroy todo j next s' hinit hfirst hdestroy =>
    rw [(hs.stopped (by rw [hinit]; exact nofun)).destroy_eq hfirst] at hdestroy
    cases hdestroy
    have hclearing : s.init = .idle := hidle
    rw [hinit] at hclearing
    cases hclearing
  | cleared => cases hidle
  | create => cases hidle
  | finish hinit =>
    obtain ⟨running, task, hfinish⟩ := finish_eq s _ ok
    rw [hfinish]
    obtain ⟨hall, -⟩ := (loaded_creating hinit).mp hl
    rw [List.append_nil] at hall
    exact ⟨((initSound_creating hinit).mp hs.init).1, hall⟩

/-- `cron_next` returns for the jobs that the file asks for, whatever the clock shows. -/
def Returning (cronNext : String → Clock → Option Int) (zaman : UInt8 → Zaman) : Prop :=
  ∀ load ∈ allJobs zaman, ∀ clock, (cronNext load.expr clock).isSome = true

/-- It does so for the times of a clock. -/
theorem returning_of_clock {rounds : Nat} (hrounds : 86400 < rounds) {zaman : UInt8 → Zaman}
    (hclock : ∀ t ∈ cronTimes zaman, t.saat ≤ 23 ∧ t.dakika ≤ 59) :
    Returning (nextTime rounds) zaman := by
  intro load hload clock
  have hexpr : load.expr ∈ (cronTimes zaman).map ZamanTime.expr := by
    rw [← allJobs_cronTimes]
    exact List.mem_map_of_mem hload
  obtain ⟨t, ht, hexpr⟩ := List.mem_map.mp hexpr
  obtain ⟨hsaat, hdakika⟩ := hclock t ht
  rw [← hexpr]
  exact Option.isSome_of_eq_some (nextTime_daily hrounds hdakika hsaat clock)

/-- The jobs still to be made are some of the file. -/
theorem Cron.Loaded.mem_all {s : Cron} {all : List CronJob} (h : s.Loaded all) {load : CronJob}
    (hload : load ∈ s.init.todo) : load ∈ all := by
  cases hinit : s.init with
  | idle =>
    rw [hinit] at hload
    cases hload
  | clearing todo =>
    rw [hinit] at hload
    exact (loaded_clearing hinit).mp h ▸ hload
  | creating made todo =>
    rw [hinit] at hload
    rw [← ((loaded_creating hinit).mp h).1]
    exact List.mem_append_right _ hload

theorem rescheduled_of_calm {s : Cron} (h : Sound s) {zaman : UInt8 → Zaman}
    (hC : Calm s (.begin zaman)) (hreturning : Returning cronNext zaman) :
    Rescheduled cronNext s zaman := by
  have hbegin : Running (allJobs zaman) (s.begin zaman) := by
    refine ⟨h.begin hC, ?_⟩
    obtain ⟨running, hbegin⟩ := begin_eq h zaman
    rw [hbegin]
    exact (loaded_clearing rfl).mpr rfl
  have hbetween {es : List CronEvent} {t : Cron} (hes : initCronRun.Between es)
      (hrun : run (cronStep cronNext) (s.begin zaman) es = some t) :
      Running (allJobs zaman) t :=
    Operation.run_between (fun s e s' hs he hstep => (running_step s e s' hs he hstep).1) hbegin
      hes hrun
  constructor
  case returns =>
    refine ⟨_, Operation.returns_of_rank running_step ?_ hbegin⟩
    intro t ht hinit e he
    cases e with
    | init clock ok =>
      have hload := fun load hload => hreturning load (ht.2.mem_all hload) clock
      exact init_enabled ht.1 hinit hload ok
    | begin zaman => cases he
    | schedule clock ok => cases he
    | launcher i => cases he
  case list =>
    intro es t clock ok t' hes hrun _ hstep hidle
    exact finished_list (hbetween hes hrun) hstep hidle
  case unharmed => exact fun es t hes hrun => (hbetween hes hrun).1.unharmed

/-! ### What goes wrong otherwise -/

/-- A node is only taken out of the list while the mutex is free. -/
theorem cronJobDestroy_cases {s s' : Cron} {j : Nat} {next : List Nat}
    (hfirst : s.first = j :: next) (h : cronJobDestroy s j = some s') :
    ∃ first, s' = { s.setJob j { s.heap j with freed := true } with first } ∧
      (first = s.first ∨ s.semaphore = false ∧ first = next) := by
  unfold cronJobDestroy at h
  rw [hfirst, listRemove_head (fun i => (s.heap i).id) j next] at h
  rw [hfirst]
  split at h
  · cases h
    exact ⟨_, rfl, .inl rfl⟩
  · rename_i hremove
    cases h
    refine ⟨_, rfl, .inr ⟨?_, rfl⟩⟩
    exact Bool.eq_false_iff.mpr fun htaken => hremove (.inr htaken)

/-- A new job leaves the others, and is not put into the list while the mutex is taken. -/
theorem create_other (s : Cron) (load : CronJob) (next : Int) :
    ∃ first nextId id, (s.create load next).2 =
      { s.setJob s.allocated ⟨load, id, next, false⟩ with
        allocated := s.allocated + 1, first, nextId } ∧
      (s.semaphore = true → first = s.first) := by
  cases htaken : s.semaphore with
  | true =>
    refine ⟨s.first, s.nextId, -1, ?_, fun _ => rfl⟩
    unfold Cron.create
    simp only
    rw [if_pos (show (s.setJob s.allocated _).semaphore = true from htaken)]
    rfl
  | false =>
    obtain ⟨first, -, hcreate⟩ := create_eq htaken load next
    refine ⟨first, s.nextId + 1, s.nextId, ?_, nofun⟩
    rw [hcreate]

/-- The number of jobs that `init_cron` has made and has still to make. -/
def Cron.wanted (s : Cron) : Nat :=
  match s.init with
  | .idle => s.jobs.length
  | .clearing todo => todo.length
  | .creating made todo => made.length + todo.length

theorem wanted_init {s s' : Cron} {clock : Clock} {ok : Bool}
    (hstep : cronStep cronNext s (.init clock ok) = some s') : s'.wanted = s.wanted := by
  cases initStep_cases hstep with
  | destroy hinit hfirst hdestroy =>
    obtain ⟨first, rfl, -⟩ := cronJobDestroy_cases hfirst hdestroy
    rfl
  | cleared hinit hfirst => simp [Cron.wanted, hinit]
  | create hinit hroom hnext =>
    simp only [Cron.wanted, hinit, List.length_append, List.length_cons, List.length_nil]
    omega
  | finish hinit =>
    obtain ⟨running, task, hfinish⟩ := finish_eq s _ ok
    rw [hfinish]
    simp [Cron.wanted, hinit]

/-- The array `jobs` is not full. -/
def Cron.HasRoom (s : Cron) : Prop :=
  match s.init with
  | .idle => s.jobs.length ≤ 20
  | .clearing _ => True
  | .creating made _ => made.length ≤ 20

theorem hasRoom_init {s s' : Cron} {clock : Clock} {ok : Bool} (h : s.HasRoom)
    (hstep : cronStep cronNext s (.init clock ok) = some s') : s'.HasRoom := by
  unfold Cron.HasRoom at h
  cases initStep_cases hstep with
  | destroy hinit hfirst hdestroy =>
    obtain ⟨first, rfl, -⟩ := cronJobDestroy_cases hfirst hdestroy
    exact h
  | cleared => exact Nat.zero_le 20
  | @create made load todo next hinit hroom hnext =>
    show (made ++ [_]).length ≤ 20
    rw [List.length_append, List.length_singleton]
    exact hroom
  | finish hinit =>
    obtain ⟨running, task, hfinish⟩ := finish_eq s _ ok
    rw [hfinish]
    rw [hinit] at h
    exact h

/-- With the mutex taken, an empty list stays empty. -/
theorem empty_init {s s' : Cron} {clock : Clock} {ok : Bool}
    (h : s.semaphore = true ∧ s.first = [])
    (hstep : cronStep cronNext s (.init clock ok) = some s') :
    s'.semaphore = true ∧ s'.first = [] := by
  cases initStep_cases hstep with
  | destroy hinit hfirst hdestroy =>
    rw [h.2] at hfirst
    cases hfirst
  | cleared => exact h
  | @create made load todo next hinit hroom hnext =>
    obtain ⟨first, nextId, id, hcreate, hsame⟩ := create_other s load next
    rw [hcreate]
    exact ⟨h.1, (hsame h.1).trans h.2⟩
  | finish hinit =>
    obtain ⟨running, task, hfinish⟩ := finish_eq s _ ok
    rw [hfinish]
    exact h

/-- With the mutex taken, a list that is not empty is cleared for ever. -/
theorem clearing_init {s s' : Cron} {clock : Clock} {ok : Bool}
    (h : s.semaphore = true ∧ s.first ≠ [] ∧ ∃ todo, s.init = .clearing todo)
    (hstep : cronStep cronNext s (.init clock ok) = some s') :
    s'.semaphore = true ∧ s'.first ≠ [] ∧ ∃ todo, s'.init = .clearing todo := by
  obtain ⟨htaken, hne, todo, hinit⟩ := h
  cases initStep_cases hstep with
  | destroy _ hfirst hdestroy =>
    obtain ⟨first, rfl, rfl | ⟨hfree, -⟩⟩ := cronJobDestroy_cases hfirst hdestroy
    · exact ⟨htaken, hne, todo, hinit⟩
    · rw [htaken] at hfree
      cases hfree
  | cleared _ hfirst => exact absurd hfirst hne
  | create hcreating =>
    rw [hinit] at hcreating
    cases hcreating
  | finish hcreating =>
    rw [hinit] at hcreating
    cases hcreating

/-- A job is in the list that is being cleared, or was destroyed. -/
def Cron.Doomed (s : Cron) (j : Nat) : Prop :=
  j < s.allocated ∧ ((∃ todo, s.init = .clearing todo) ∧ j ∈ s.first ∨ (s.heap j).freed = true)

/-- Once the list is cleared, it was destroyed. -/
theorem Cron.Doomed.freed {s : Cron} {j : Nat} (h : s.Doomed j)
    (hinit : ∀ todo, s.init ≠ .clearing todo) : (s.heap j).freed = true := by
  refine h.2.resolve_left fun hin => ?_
  obtain ⟨todo, hclearing⟩ := hin.1
  exact hinit todo hclearing

theorem doomed_init {s s' : Cron} {i : Nat} {clock : Clock} {ok : Bool} (h : s.Doomed i)
    (hstep : cronStep cronNext s (.init clock ok) = some s') :
    s'.Doomed i ∧ s'.launchers = s.launchers := by
  obtain ⟨hlt, hdoomed⟩ := h
  cases initStep_cases hstep with
  | @destroy todo j next s' hinit hfirst hdestroy =>
    obtain ⟨first, rfl, hkept⟩ := cronJobDestroy_cases hfirst hdestroy
    refine ⟨⟨hlt, ?_⟩, rfl⟩
    show (∃ todo, s.init = .clearing todo) ∧ i ∈ first ∨
      (Function.update s.heap j { s.heap j with freed := true } i).freed = true
    by_cases hi : i = j
    · rw [hi, Function.update_self]
      exact .inr rfl
    · rw [Function.update_of_ne hi]
      refine hdoomed.imp_left fun hin => ⟨hin.1, ?_⟩
      have hmem := hin.2
      rcases hkept with rfl | ⟨-, rfl⟩
      · exact hmem
      · rw [hfirst] at hmem
        exact (List.mem_cons.mp hmem).resolve_left hi
  | cleared hinit hfirst =>
    refine ⟨⟨hlt, .inr (hdoomed.resolve_left fun hin => ?_)⟩, rfl⟩
    rw [hfirst] at hin
    cases hin.2
  | @create made load todo next hinit hroom hnext =>
    obtain ⟨first, nextId, id, hcreate, -⟩ := create_other s load next
    have hfreed := Cron.Doomed.freed ⟨hlt, hdoomed⟩ (by simp [hinit])
    rw [hcreate]
    refine ⟨⟨Nat.lt_succ_of_lt hlt, .inr ?_⟩, rfl⟩
    show (Function.update s.heap s.allocated _ i).freed = true
    rw [Function.update_of_ne (Nat.ne_of_lt hlt)]
    exact hfreed
  | finish hinit =>
    obtain ⟨running, task, hfinish⟩ := finish_eq s _ ok
    have hfreed := Cron.Doomed.freed ⟨hlt, hdoomed⟩ (by simp [hinit])
    rw [hfinish]
    exact ⟨⟨hlt, .inr hfreed⟩, rfl⟩

/-- `init_cron` returns when the other tasks rest and the clock stands still, and keeps what its
steps keep. -/
theorem Rescheduled.exists_idle {s : Cron} {zaman : UInt8 → Zaman}
    (hs : Rescheduled cronNext s zaman) (clock : Clock) {I : Cron → Prop}
    (hI : ∀ t t', I t → cronStep cronNext t (.init clock true) = some t' → I t')
    (hbegin : I (s.begin zaman)) :
    ∃ es t, initCronRun.Between es ∧
      run (cronStep cronNext) (s.begin zaman) es = some t ∧ t.init = .idle ∧ I t ∧
      t.first.Perm t.jobs := by
  obtain ⟨n, hreturns⟩ := hs.returns
  obtain ⟨es, t, t', hes, hrun, hne, hstep, hidle, ht'⟩ :=
    hreturns.exists_returned (e := .init clock true) rfl (fun t t' ht _ h => hI t t' ht h) hbegin
      nofun
  refine ⟨es ++ [.init clock true], t', ?_, ?_, hidle, ht', ?_⟩
  · intro e he
    rcases List.mem_append.mp he with he | he
    · exact hes e he
    · rw [List.mem_singleton.mp he]
      rfl
  · apply run_append_of hrun
    rw [run_cons, hstep]
    rfl
  · exact (hs.list es t clock true t' hes hrun hne hstep hidle).1

theorem room_of_rescheduled {s : Cron} {zaman : UInt8 → Zaman}
    (hs : Rescheduled cronNext s zaman) : (allJobs zaman).length ≤ 20 := by
  obtain ⟨es, t, -, -, hidle, ⟨hwanted, hroom⟩, -⟩ := hs.exists_idle ⟨0, 0⟩
    (I := fun t => t.wanted = (allJobs zaman).length ∧ t.HasRoom)
    (fun t t' ht hstep => ⟨(wanted_init hstep).trans ht.1, hasRoom_init ht.2 hstep⟩)
    ⟨rfl, trivial⟩
  rw [← hwanted]
  unfold Cron.wanted Cron.HasRoom at *
  rw [hidle] at *
  exact hroom

theorem empty_of_rescheduled {s : Cron} (h : Sound s) {zaman : UInt8 → Zaman}
    (hs : Rescheduled cronNext s zaman) (htaken : s.semaphore = true) :
    s.first = [] ∧ allJobs zaman = [] := by
  obtain ⟨running, hbegin⟩ := begin_eq h zaman
  have hfirst : s.first = [] := by
    by_contra hne
    obtain ⟨es, t, -, -, hidle, ⟨-, -, todo, hclearing⟩, -⟩ := hs.exists_idle ⟨0, 0⟩
      (I := fun t => t.semaphore = true ∧ t.first ≠ [] ∧ ∃ todo, t.init = .clearing todo)
      (fun t t' ht hstep => clearing_init ht hstep)
      (by rw [hbegin]; exact ⟨htaken, hne, _, rfl⟩)
    rw [hidle] at hclearing
    cases hclearing
  refine ⟨hfirst, ?_⟩
  obtain ⟨es, t, -, -, hidle, ⟨hwanted, -, hempty⟩, hperm⟩ := hs.exists_idle ⟨0, 0⟩
    (I := fun t => t.wanted = (allJobs zaman).length ∧ t.semaphore = true ∧ t.first = [])
    (fun t t' ht hstep => ⟨(wanted_init hstep).trans ht.1, empty_init ht.2 hstep⟩)
    (by rw [hbegin]; exact ⟨rfl, htaken, hfirst⟩)
  rw [hempty] at hperm
  unfold Cron.wanted at hwanted
  rw [hidle] at hwanted
  simp only [hperm.symm.eq_nil, List.length_nil] at hwanted
  exact List.length_eq_zero_iff.mp hwanted.symm

theorem ended_of_rescheduled {s : Cron} (h : Sound s) {zaman : UInt8 → Zaman}
    (hs : Rescheduled cronNext s zaman) {l : Launcher} (hl : l ∈ s.launchers)
    (hjob : l.job ∈ s.first) : l.stage = .ended := by
  by_contra hstage
  obtain ⟨running, hbegin⟩ := begin_eq h zaman
  have hlt := (h.live l.job (List.mem_append_left _ hjob)).1
  obtain ⟨es, t, hes, hrun, hidle, ⟨hlaunchers, -, hdoomed⟩, -⟩ := hs.exists_idle ⟨0, 0⟩
    (I := fun t => t.launchers = s.launchers ∧ t.Doomed l.job)
    (fun t t' ht hstep => by
      obtain ⟨hdoomed, hsame⟩ := doomed_init ht.2 hstep
      exact ⟨hsame.trans ht.1, hdoomed⟩)
    (by rw [hbegin]; exact ⟨rfl, hlt, .inl ⟨⟨_, rfl⟩, hjob⟩⟩)
  have hfreed : (t.heap l.job).freed = true := by
    refine hdoomed.resolve_left fun hin => ?_
    obtain ⟨todo, hclearing⟩ := hin.1
    rw [hidle] at hclearing
    cases hclearing
  have hlive := hs.unharmed es t hes hrun l (by rw [hlaunchers]; exact hl) hstage
  rw [hfreed] at hlive
  cases hlive

/-- A job stays to be made as long as `cron_next` does not return for it. -/
theorem todo_init {s s' : Cron} {clock : Clock} {ok : Bool} {load : CronJob}
    (hnone : cronNext load.expr clock = none) (h : load ∈ s.init.todo)
    (hstep : cronStep cronNext s (.init clock ok) = some s') : load ∈ s'.init.todo := by
  cases initStep_cases hstep with
  | destroy hinit hfirst hdestroy =>
    obtain ⟨first, rfl, -⟩ := cronJobDestroy_cases hfirst hdestroy
    exact h
  | cleared hinit hfirst =>
    rw [hinit] at h
    exact h
  | @create made job todo next hinit hroom hnext =>
    rw [hinit] at h
    refine (List.mem_cons.mp h).resolve_left fun hjob => ?_
    rw [← hjob, hnone] at hnext
    cases hnext
  | finish hinit =>
    rw [hinit] at h
    cases h

theorem returning_of_rescheduled {s : Cron} (h : Sound s) {zaman : UInt8 → Zaman}
    (hs : Rescheduled cronNext s zaman) : Returning cronNext zaman := by
  intro load hload clock
  rw [← Option.ne_none_iff_isSome]
  intro hnone
  obtain ⟨running, hbegin⟩ := begin_eq h zaman
  obtain ⟨es, t, -, -, hidle, htodo, -⟩ := hs.exists_idle clock
    (I := fun t => load ∈ t.init.todo) (fun t t' ht hstep => todo_init hnone ht hstep)
    (by rw [hbegin]; exact hload)
  rw [hidle] at htodo
  cases htodo

/-! ### Main result -/

/-- In every run in which `init_cron` was called in calm states, calling it again is safe exactly
if the state is calm and `cron_next` returns for the times of the file. -/
theorem rescheduled_iff (rounds : Nat) {es : List CronEvent} {s : Cron}
    (hC : Meets (cronStep (nextTime rounds)) Calm cronInit es)
    (hrun : run (cronStep (nextTime rounds)) cronInit es = some s) (zaman : UInt8 → Zaman) :
    Rescheduled (nextTime rounds) s zaman ↔
      Calm s (.begin zaman) ∧ Returning (nextTime rounds) zaman := by
  have h : Sound s := run_invariant_of_meets cronStep_sound cronInit_sound hC hrun
  constructor
  · intro hs
    refine ⟨⟨empty_of_rescheduled h hs, fun l hl hjob => ended_of_rescheduled h hs hl hjob,
      room_of_rescheduled hs⟩, returning_of_rescheduled h hs⟩
  · exact fun hcalm => rescheduled_of_calm h hcalm.1 hcalm.2

/-- A file with one time, and the scheduler started for it. -/
def oneTime : UInt8 → Zaman :=
  Function.update (fun _ => {}) 1
    { active := 1, on1saat := 8, on1dakika := 30, power1 := 150, gurup := 1 }

/-- Half past eight on a morning, and some time in the night before it. -/
def halfPastEight : Clock := ⟨1700026200, 10800⟩

def started : List CronEvent :=
  .begin oneTime :: List.replicate 3 (.init (november 0) true)

/-- The job has been launched and put back, and its task has ended. -/
def launchedOnce : List CronEvent :=
  started ++ [.schedule halfPastEight true, .schedule halfPastEight true, .launcher 0,
    .schedule halfPastEight true, .schedule halfPastEight true, .launcher 0,
    .schedule halfPastEight true, .schedule halfPastEight true, .schedule halfPastEight true]

theorem rescheduled_after_launch : ∃ s,
    run (cronStep (nextTime 86401)) cronInit launchedOnce = some s ∧
      s.launchers = [⟨0, .ended⟩] ∧ Rescheduled (nextTime 86401) s oneTime := by
  have hC : Meets (cronStep (nextTime 86401)) Calm cronInit launchedOnce := by decide +kernel
  have hclock : ∀ t ∈ cronTimes oneTime, t.saat ≤ 23 ∧ t.dakika ≤ 59 := by decide +kernel
  have hends : (run (cronStep (nextTime 86401)) cronInit launchedOnce).map (fun s =>
      (s.launchers, decide (Calm s (.begin oneTime)))) = some ([⟨0, .ended⟩], true) := by
    decide +kernel
  obtain ⟨s, hrun, hends⟩ := Option.map_eq_some_iff.mp hends
  obtain ⟨hlaunchers, hcalm⟩ := Prod.mk.injEq _ _ _ _ ▸ hends
  exact ⟨s, hrun, hlaunchers, (rescheduled_iff 86401 hC hrun oneTime).mpr
    ⟨of_decide_eq_true hcalm, returning_of_clock (by decide) hclock⟩⟩

/-- The scheduler has the mutex. -/
def removing : List CronEvent :=
  started ++ [.schedule halfPastEight true, .schedule halfPastEight true]

/-- A task was just launched. -/
def launching : List CronEvent := started ++ [.schedule halfPastEight true]

theorem rescheduled_too_early :
    (∃ s, run (cronStep (nextTime 86401)) cronInit removing = some s ∧
      s.task = some (.removing 0) ∧ ¬Rescheduled (nextTime 86401) s oneTime) ∧
    ∃ s, run (cronStep (nextTime 86401)) cronInit launching = some s ∧
      s.launchers = [⟨0, .created⟩] ∧ ¬Rescheduled (nextTime 86401) s oneTime := by
  have hremoving : Meets (cronStep (nextTime 86401)) Calm cronInit removing := by decide +kernel
  have hlaunching : Meets (cronStep (nextTime 86401)) Calm cronInit launching := by decide +kernel
  have hfirst : (run (cronStep (nextTime 86401)) cronInit removing).map (fun s =>
      (s.task, s.semaphore, s.first)) = some (some (.removing 0), true, [0]) := by
    decide +kernel
  have hsecond : (run (cronStep (nextTime 86401)) cronInit launching).map (fun s =>
      (s.launchers, s.first)) = some ([⟨0, .created⟩], [0]) := by
    decide +kernel
  obtain ⟨s, hrun, hs⟩ := Option.map_eq_some_iff.mp hfirst
  obtain ⟨t, hrun', ht⟩ := Option.map_eq_some_iff.mp hsecond
  simp only [Prod.mk.injEq] at hs ht
  refine ⟨⟨s, hrun, hs.1, fun h => ?_⟩, ⟨t, hrun', ht.1, fun h => ?_⟩⟩
  · have hsound := run_invariant_of_meets cronStep_sound cronInit_sound hremoving hrun
    have hempty := (empty_of_rescheduled hsound h hs.2.1).1
    rw [hs.2.2] at hempty
    cases hempty
  · have hsound := run_invariant_of_meets cronStep_sound cronInit_sound hlaunching hrun'
    have hended := ended_of_rescheduled hsound h (l := ⟨0, .created⟩)
      (by rw [ht.1]; exact List.mem_cons_self) (by rw [ht.2]; exact List.mem_cons_self)
    cases hended

end DaliController.Schedule
