import DaliController.Dali.StartBit

/-! Frames one after another, as other masters send them.  Edges, the passing of time and the steps
of `paket_task` interleave.  `kom_timer` restarts at 0 when it reaches a second, so after the alarm
that ends a frame, a frame is missed if the line then rests for a whole number of seconds and up to
1746 microseconds more. -/

namespace DaliController.Dali

/-- The receiver, with what `paket_task` has handed on so far and how. -/
structure Station where
  rx : Receiver
  delivered : List (PaketTrigger × Package)

/-- What `paket_task` hands on of a queue element, the callback being set.  Nobody hears of a
24-bit frame: it is stored in `gelen` until the next one is. -/
def paketHand (top : TopByte) (gg : PaketQueueElement) : List (PaketTrigger × Package) :=
  let gelen := paketStore top gg
  match paketTrigger gelen with
  | .nothing => []
  | trigger => [(trigger, gelen)]

inductive LineEvent
  | pass (dt : Nat)
  | edge (level : Bool)
  | task
  deriving DecidableEq, Repr

/-- One step; `none` is an abort.  `paket_task` waits while its queue is empty. -/
def lineStep (top : TopByte) (s : Station) : LineEvent → Option Station
  | .pass dt => some { s with rx := elapse dt s.rx }
  | .edge level => (intHandler level s.rx).map fun rx => { s with rx := rx }
  | .task =>
    match s.rx.paketQueue with
    | [] => some s
    | gg :: rest =>
      some ⟨{ s.rx with paketQueue := rest }, s.delivered ++ paketHand top gg⟩

/-- The edges of a run on a line that has rested for `t` microseconds. -/
def edgesOf : Nat → List LineEvent → List Edge
  | _, [] => []
  | t, .pass dt :: es => edgesOf (t + dt) es
  | t, .edge level :: es => ⟨t, level⟩ :: edgesOf 0 es
  | t, .task :: es => edgesOf t es

/-- How long the line rests at the end of the run. -/
def restOf : Nat → List LineEvent → Nat
  | t, [] => t
  | t, .pass dt :: es => restOf (t + dt) es
  | _, .edge _ :: es => restOf 0 es
  | t, .task :: es => restOf t es

/-- A well-timed frame.  The time of its first edge is the gap before it. -/
structure Heard where
  package : Package
  edges : List Edge
  known : package.type ≠ .blockErr
  timed : FrameTimed (sendEdges package) edges

def Heard.gap (f : Heard) : Nat := (f.edges.head?.map Edge.dt).getD 0

/-- The frame starts when `kom_timer` is above 1746: counted from power-up for the first frame, and
for the others from the alarm that ended the frame before. -/
def Clear : List Heard → Prop
  | [] => True
  | f :: fs => fullPeriodDown3 < f.gap % komAlarm ∧
      ∀ g ∈ fs, fullPeriodDown3 < (g.gap - perAlarm) % komAlarm

instance (dt : Nat) (r : Receiver) : Decidable (Rings dt r) :=
  inferInstanceAs (Decidable (_ ∧ _))

/-- `paket_queue` has room when an alarm comes. -/
def Room (s : Station) : LineEvent → Prop
  | .pass dt => Rings dt s.rx → s.rx.paketQueue.length < paketQueueLength
  | _ => True

instance (s : Station) : ∀ e, Decidable (Room s e)
  | .pass _ => inferInstanceAs (Decidable (_ → _))
  | .edge _ => inferInstanceAs (Decidable True)
  | .task => inferInstanceAs (Decidable True)

/-- The package handed on is the one of the frame, and it went to whom its type is for. -/
def Heard.Matches (f : Heard) (g : PaketTrigger × Package) : Prop :=
  g.1 = paketTrigger f.package ∧ g.2.type = f.package.type ∧ g.2.bytes = f.package.bytes

/-! ### The receiver without its queue -/

/-- The receiver, with the queue elements of its frames moved to a log. -/
structure Log where
  rx : Receiver
  log : List PaketQueueElement

def Receiver.bare (r : Receiver) : Receiver := { r with paketQueue := [] }

def Log.pass (dt : Nat) (l : Log) : Log :=
  ⟨(elapse dt l.rx).bare, l.log ++ (elapse dt l.rx).paketQueue⟩

def Log.edge (level : Bool) (l : Log) : Option Log :=
  (intHandler level l.rx).map fun rx => ⟨rx, l.log⟩

def logStep (l : Log) : LineEvent → Option Log
  | .pass dt => some (l.pass dt)
  | .edge level => l.edge level
  | .task => some l

def logEdge (l : Log) (e : Edge) : Option Log := (l.pass e.dt).edge e.level

theorem rings_bare {dt : Nat} {r : Receiver} : Rings dt r.bare ↔ Rings dt r := Iff.rfl

/-- An alarm appends to the queue what it appends to an empty one. -/
theorem elapse_bare (dt : Nat) {r : Receiver}
    (hr : Rings dt r → r.paketQueue.length < paketQueueLength) :
    elapse dt r = { elapse dt r.bare with
      paketQueue := r.paketQueue ++ (elapse dt r.bare).paketQueue } := by
  by_cases hring : Rings dt r
  · have hsend (gg : PaketQueueElement) :
        queueSend r.paketQueue gg = r.paketQueue ++ queueSend [] gg := by
      rw [queueSend, if_pos (hr hring)]
      rfl
    rw [elapse_ring hring, elapse_ring (rings_bare.mpr hring)]
    exact congrArg (fun q => { advance (dt - (perAlarm - r.perTimer.count)) (timerAlarmCb
      (advance (perAlarm - r.perTimer.count) r.bare)) with paketQueue := q }) (hsend _)
  · rw [elapse_quiet hring, elapse_quiet (mt rings_bare.mp hring)]
    exact congrArg (fun q => { advance dt r.bare with paketQueue := q }) (List.append_nil _).symm

/-- The interrupt does not look at the queue. -/
theorem intHandler_bare (level : Bool) (r : Receiver) : intHandler level r =
    (intHandler level r.bare).map fun r' => { r' with paketQueue := r.paketQueue } := by
  obtain ⟨start, hgelen, bitCount, gec, ⟨running, count⟩, kom, queue⟩ := r
  cases start with
  | true =>
    by_cases hshort : count ≤ parazit
    · simp [intHandler, Receiver.bare, hshort, Nat.not_lt.mpr hshort]
    · simp [intHandler, Receiver.bare, hshort, Nat.not_le.mp hshort]
  | false =>
    cases level with
    | true =>
      by_cases hwindow : count > halfPeriodDown ∧ count < halfPeriodUp
      · simp [intHandler, Receiver.bare, hwindow]
      · simp [intHandler, Receiver.bare, hwindow]
    | false =>
      by_cases hkom : kom.count > fullPeriodDown3
      · cases running <;> simp [intHandler, Receiver.bare, GpTimer.start, hkom]
      · simp [intHandler, Receiver.bare, hkom]

/-- The interrupt leaves the counters as they are or sets them to 0. -/
theorem intHandler_counters {level : Bool} {r r' : Receiver} (h : intHandler level r = some r') :
    (r'.komTimer.count = r.komTimer.count ∨ r'.komTimer.count = 0) ∧
      (r'.perTimer = r.perTimer ∨ r'.perTimer.count = 0) ∧ r'.paketQueue = r.paketQueue := by
  simp only [intHandler] at h
  split at h
  · split at h
    · obtain ⟨per, hper, rfl⟩ := Option.map_eq_some_iff.mp h
      rw [GpTimer.start] at hper
      split at hper
      · cases hper
      · cases hper
        exact ⟨Or.inr rfl, Or.inr rfl, rfl⟩
    · cases h
      exact ⟨Or.inr rfl, Or.inl rfl, rfl⟩
  · split at h
    · split at h
      · cases h
        exact ⟨Or.inl rfl, Or.inr rfl, rfl⟩
      · cases h
        exact ⟨Or.inl rfl, Or.inl rfl, rfl⟩
    · split at h
      · cases h
        exact ⟨Or.inl rfl, Or.inr rfl, rfl⟩
      · cases h
        exact ⟨Or.inl rfl, Or.inl rfl, rfl⟩

/-- `paket_task` has handed on the part of the log that is not in the queue any more. -/
structure Logs (top : TopByte) (s : Station) (l : Log) : Prop where
  rx : s.rx.bare = l.rx
  taken : ∃ taken, l.log = taken ++ s.rx.paketQueue ∧ s.delivered = taken.flatMap (paketHand top)

theorem lineStep_logs (top : TopByte) (s : Station) (l : Log) (e : LineEvent) (l' : Log)
    (h : Logs top s l) (hroom : Room s e) (hstep : logStep l e = some l') :
    ∃ s', lineStep top s e = some s' ∧ Logs top s' l' := by
  obtain ⟨taken, hlog, hdelivered⟩ := h.taken
  cases e with
  | pass dt =>
    cases hstep
    have helapse := elapse_bare dt hroom
    rw [h.rx] at helapse
    refine ⟨_, rfl, ?_, taken, ?_, hdelivered⟩
    · rw [helapse]
      rfl
    · rw [helapse]
      simp only [Log.pass, hlog, List.append_assoc]
  | edge level =>
    obtain ⟨r', hr', rfl⟩ := Option.map_eq_some_iff.mp hstep
    have hhandler := intHandler_bare level s.rx
    have hqueue : r'.paketQueue = [] := by
      rw [(intHandler_counters hr').2.2, ← h.rx]
      rfl
    rw [h.rx, hr', Option.map_some] at hhandler
    refine ⟨{ s with rx := { r' with paketQueue := s.rx.paketQueue } }, ?_, ?_, taken, hlog,
      hdelivered⟩
    · simp [lineStep, hhandler]
    · show ({ r' with paketQueue := [] } : Receiver) = r'
      rw [← hqueue]
  | task =>
    cases hstep
    simp only [lineStep]
    split
    · exact ⟨s, rfl, h⟩
    · rename_i gg rest hqueue
      refine ⟨_, rfl, h.rx, taken ++ [gg], ?_, ?_⟩
      · rw [hlog, hqueue, List.append_assoc, List.singleton_append]
      · rw [hdelivered, List.flatMap_append, List.flatMap_singleton]

/-! ### The edges of a run -/

theorem advance_add (a b : Nat) (r : Receiver) : advance (a + b) r = advance b (advance a r) := by
  have hkom : (r.komTimer.count + (a + b)) % komAlarm =
      ((r.komTimer.count + a) % komAlarm + b) % komAlarm := by
    rw [Nat.mod_add_mod, Nat.add_assoc]
  unfold advance
  rw [hkom]
  cases hrun : r.perTimer.running <;> simp [hrun, Nat.add_assoc]

theorem elapse_stopped {dt : Nat} {r : Receiver} (h : r.perTimer.running = false) :
    elapse dt r = advance dt r :=
  elapse_quiet fun hring => absurd (h.symm.trans hring.1) (by decide)

theorem elapse_add (a b : Nat) (r : Receiver) : elapse (a + b) r = elapse b (elapse a r) := by
  by_cases ha : Rings a r
  · have hle : perAlarm - r.perTimer.count ≤ a := Nat.sub_le_iff_le_add'.mpr ha.2
    have hab : Rings (a + b) r := ⟨ha.1, Nat.le_trans ha.2 (by omega)⟩
    rw [elapse_stopped (elapse_rings ha).1, elapse_ring ha, elapse_ring hab, ← advance_add]
    congr 1
    omega
  · rw [elapse_quiet ha]
    cases hrun : r.perTimer.running with
    | false =>
      have hstop : (advance a r).perTimer.running = false := by simp [advance, hrun]
      rw [elapse_stopped hrun, elapse_stopped hstop, advance_add]
    | true =>
      have hbefore : r.perTimer.count + a < perAlarm := Nat.not_le.mp fun h => ha ⟨hrun, h⟩
      have hper : (advance a r).perTimer = ⟨true, r.perTimer.count + a⟩ := by simp [advance, hrun]
      by_cases hab : Rings (a + b) r
      · have hb : Rings b (advance a r) := by
          refine ⟨by rw [hper], ?_⟩
          rw [hper]
          exact Nat.add_assoc .. ▸ hab.2
        have hsum : perAlarm - r.perTimer.count =
            a + (perAlarm - (r.perTimer.count + a)) := by omega
        rw [elapse_ring hab, elapse_ring hb, hper, hsum, advance_add, Nat.add_sub_add_left]
      · have hb : ¬Rings b (advance a r) := by
          rintro ⟨-, h⟩
          rw [hper] at h
          exact hab ⟨hrun, Nat.add_assoc .. ▸ h⟩
        rw [elapse_quiet hab, elapse_quiet hb, advance_add]

/-- The log keeps the receiver's queue empty and its counters below their alarms. -/
structure Fit (l : Log) : Prop where
  empty : l.rx.paketQueue = []
  kom : l.rx.komTimer.count < komAlarm
  per : l.rx.perTimer.running = true → l.rx.perTimer.count < perAlarm

theorem fit_pass (l : Log) (t : Nat) : Fit (l.pass t) := by
  have hkom (k : Nat) : k % komAlarm < komAlarm := Nat.mod_lt k (by decide)
  by_cases hring : Rings t l.rx
  · have hstop := (elapse_rings hring).1
    refine ⟨rfl, ?_, fun h => absurd (hstop.symm.trans h) (by decide)⟩
    show (elapse t l.rx).komTimer.count < komAlarm
    rw [elapse_ring hring]
    exact hkom _
  · refine ⟨rfl, ?_, fun h => ?_⟩
    · show (elapse t l.rx).komTimer.count < komAlarm
      rw [elapse_quiet hring]
      exact hkom _
    · show (elapse t l.rx).perTimer.count < perAlarm
      change (elapse t l.rx).perTimer.running = true at h
      rw [elapse_quiet hring] at h ⊢
      cases hrun : l.rx.perTimer.running with
      | false => simp [advance, hrun] at h
      | true =>
        have hbefore : l.rx.perTimer.count + t < perAlarm := Nat.not_le.mp fun h => hring ⟨hrun, h⟩
        simpa [advance, hrun] using hbefore

theorem fit_edge {l l' : Log} {level : Bool} (hl : Fit l) (h : l.edge level = some l') :
    Fit l' := by
  obtain ⟨rx, hrx, rfl⟩ := Option.map_eq_some_iff.mp h
  obtain ⟨hkom, hper, hqueue⟩ := intHandler_counters hrx
  refine ⟨hqueue.trans hl.empty, ?_, fun hrun => ?_⟩
  · rcases hkom with h | h
    · exact h ▸ hl.kom
    · exact h ▸ (by decide : 0 < komAlarm)
  · rcases hper with h | h
    · exact h ▸ hl.per (h ▸ hrun)
    · exact h ▸ perAlarm_pos

theorem pass_zero {l : Log} (hl : Fit l) : l.pass 0 = l := by
  have hquiet : ¬Rings 0 l.rx := fun h => absurd h.2 (Nat.not_le.mpr (hl.per h.1))
  have helapse : elapse 0 l.rx = l.rx := by
    rw [elapse_quiet hquiet]
    unfold advance
    rw [Nat.add_zero, Nat.add_zero, Nat.mod_eq_of_lt hl.kom]
    cases hrun : l.rx.perTimer.running <;> simp
  obtain ⟨rx, log⟩ := l
  simp only [Log.pass, helapse, Receiver.bare]
  have hempty : rx.paketQueue = [] := hl.empty
  rw [hempty, List.append_nil, ← hempty]

theorem pass_pass (a b : Nat) {l : Log} (hl : l.rx.paketQueue = []) :
    (l.pass a).pass b = l.pass (a + b) := by
  have hroom : Rings b (elapse a l.rx) → (elapse a l.rx).paketQueue.length < paketQueueLength := by
    intro _
    by_cases hring : Rings a l.rx
    · rw [elapse_ring hring]
      simp [advance, timerAlarmCb, queueSend, hl, paketQueueLength]
    · rw [elapse_quiet hring]
      simp [advance, hl, paketQueueLength]
  unfold Log.pass
  rw [elapse_add, elapse_bare b hroom, List.append_assoc]
  rfl

theorem run_logStep (evs : List LineEvent) (t : Nat) {l : Log} (hl : Fit l) :
    Runs.run logStep (l.pass t) evs =
      (Runs.run logEdge l (edgesOf t evs)).map (Log.pass (restOf t evs)) := by
  induction evs generalizing t l with
  | nil => rfl
  | cons e evs ih =>
    cases e with
    | pass dt =>
      show Runs.run logStep ((l.pass t).pass dt) evs = _
      rw [pass_pass t dt hl.empty]
      exact ih (t + dt) hl
    | task => exact ih t hl
    | edge level =>
      show ((l.pass t).edge level).bind _ = ((logEdge l ⟨t, level⟩).bind _).map _
      rw [Option.map_bind]
      refine Option.bind_congr fun l1 hl1 => ?_
      have hfit := fit_edge (fit_pass l t) hl1
      have h := ih 0 hfit
      rw [pass_zero hfit] at h
      exact h

/-! ### Frames -/

/-- Idle, with `kom_timer` just restarted: after power-up, and after each frame's alarm. -/
structure Ready (l : Log) : Prop extends Idle l.rx where
  kom : l.rx.komTimer.count = 0

theorem elapse_empty {dt : Nat} {r : Receiver} (h : (elapse dt r).paketQueue = []) :
    r.paketQueue = [] := by
  by_cases hring : Rings dt r
  · rw [elapse_ring hring] at h
    change queueSend r.paketQueue _ = [] at h
    unfold queueSend at h
    split at h
    · cases List.append_eq_nil_iff.mp h |>.2
    · exact h
  · rw [elapse_quiet hring] at h
    exact h

/-- The queue only grows. -/
theorem receive_empty {r r' : Receiver} {es : List Edge} (h : receive r es = some r')
    (hempty : r'.paketQueue = []) : r.paketQueue = [] := by
  by_contra hne
  refine Runs.run_invariant (I := fun r => r.paketQueue ≠ []) (fun r e r' hr hstep hr' => ?_) hne h
    hempty
  exact hr (elapse_empty ((intHandler_counters hstep).2.2.symm.trans hr'))

/-- Edges that leave the queue empty are the log's edges too. -/
theorem run_logEdge_of_receive {r r' : Receiver} {es : List Edge} (log : List PaketQueueElement)
    (h : receive r es = some r') (hempty : r'.paketQueue = []) :
    Runs.run logEdge ⟨r, log⟩ es = some ⟨r', log⟩ := by
  induction es generalizing r with
  | nil => cases h; rfl
  | cons e es ih =>
    obtain ⟨r1, hstep, hrest⟩ := Runs.run_cons_eq_some h
    have hqueue : r1.paketQueue = [] := receive_empty hrest hempty
    have hlog : logEdge ⟨r, log⟩ e = some ⟨r1, log⟩ := by
      have helapse : (elapse e.dt r).paketQueue = [] := by
        rw [← (intHandler_counters hstep).2.2, hqueue]
      have hbare : (elapse e.dt r).bare = elapse e.dt r := by rw [Receiver.bare, ← helapse]
      simp only [logEdge, Log.pass, Log.edge, hbare, helapse, List.append_nil]
      rw [show intHandler e.level (elapse e.dt r) = some r1 from hstep]
      rfl
    rw [Runs.run_cons, hlog, Option.bind_some, ih hrest]

/-- A frame whose start is in time is logged once its alarm has come. -/
theorem frame_logged {l : Log} (hl : Ready l) {p : Package} {es : List Edge}
    (hes : FrameTimed (sendEdges p) es)
    (hgap : ∀ e ∈ es.head?, fullPeriodDown3 < e.dt % komAlarm) :
    ∃ l', Runs.run logEdge l es = some l' ∧ l'.rx.paketQueue = [] ∧ Ready (l'.pass perAlarm) ∧
      (l'.pass perAlarm).log = l.log ++ [frameElement p] := by
  have hkom : ∀ e ∈ es.head?, 1746 < (elapse e.dt l.rx).komTimer.count := by
    intro e he
    rw [elapse_stopped hl.stopped]
    show 1746 < (l.rx.komTimer.count + e.dt) % komAlarm
    rw [hl.kom, Nat.zero_add]
    exact hgap e he
  obtain ⟨r', hrun, hr'⟩ := receive_frame hl.toIdle hkom hes
  have hring : Rings perAlarm r' := ⟨by rw [hr'.timer], Nat.le_add_left _ _⟩
  obtain ⟨hstop, hstart⟩ := elapse_rings hring
  refine ⟨⟨r', l.log⟩, run_logEdge_of_receive l.log hrun hr'.empty, hr'.empty,
    ⟨⟨hstart, hstop, rfl⟩, ?_⟩, ?_⟩
  · show (elapse perAlarm r').komTimer.count = 0
    rw [elapse_ring hring, hr'.timer]
    rfl
  · show l.log ++ (elapse perAlarm r').paketQueue = _
    have hframe := elapse_frame hr' (Nat.le_refl 2164)
    rw [← perAlarm_eq] at hframe
    rw [hframe]
    rfl

/-- Time that passes before the first edge can be passed beforehand. -/
theorem run_logEdge_pass {l : Log} (hl : l.rx.paketQueue = []) {e : Edge} {n : Nat} (hn : n ≤ e.dt)
    (es : List Edge) : Runs.run logEdge l (e :: es) =
      Runs.run logEdge (l.pass n) (⟨e.dt - n, e.level⟩ :: es) := by
  have hstep : logEdge l e = logEdge (l.pass n) ⟨e.dt - n, e.level⟩ := by
    show (l.pass e.dt).edge e.level = ((l.pass n).pass (e.dt - n)).edge e.level
    rw [pass_pass n _ hl, Nat.add_sub_cancel' hn]
  rw [Runs.run_cons, Runs.run_cons, hstep]

theorem frames_logged (fs : List Heard) {l : Log} (hl : l.rx.paketQueue = [])
    (hready : Ready (l.pass perAlarm))
    (hclear : ∀ f ∈ fs, fullPeriodDown3 < (f.gap - perAlarm) % komAlarm) :
    ∃ l', Runs.run logEdge l (fs.flatMap Heard.edges) = some l' ∧ l'.rx.paketQueue = [] ∧
      Ready (l'.pass perAlarm) ∧
      (l'.pass perAlarm).log =
        (l.pass perAlarm).log ++ fs.map fun f => frameElement f.package := by
  induction fs generalizing l with
  | nil => exact ⟨l, rfl, hl, hready, (List.append_nil _).symm⟩
  | cons f fs ih =>
    have hgap := hclear f List.mem_cons_self
    obtain ⟨p, es, hknown, htimed⟩ := f
    cases es with
    | nil =>
      rw [sendEdges_eq] at htimed
      exact htimed.elim
    | cons e es =>
      have hgap : fullPeriodDown3 < (e.dt - perAlarm) % komAlarm := hgap
      have hn : perAlarm ≤ e.dt := by
        by_contra hlt
        rw [Nat.sub_eq_zero_of_le (by omega), Nat.zero_mod] at hgap
        exact absurd hgap (Nat.not_lt_zero _)
      have hshift : FrameTimed (sendEdges p) (⟨e.dt - perAlarm, e.level⟩ :: es) := by
        rw [sendEdges_eq] at htimed ⊢
        cases es with
        | nil => exact htimed.elim
        | cons e1 es =>
          obtain ⟨h0, h1, hlow, hdata⟩ := htimed
          exact ⟨h0, h1, hlow, hdata⟩
      obtain ⟨l1, hrun1, hl1, hready1, hlog1⟩ := frame_logged hready hshift (by simpa using hgap)
      obtain ⟨l', hrun, hl', hready', hlog⟩ := ih hl1 hready1
        fun f hf => hclear f (List.mem_cons_of_mem _ hf)
      refine ⟨l', ?_, hl', hready', ?_⟩
      · exact Runs.run_append_of ((run_logEdge_pass hl hn es).trans hrun1) hrun
      · rw [hlog, hlog1, List.append_assoc]
        rfl

theorem idleReceiver_ready : Ready ⟨idleReceiver, []⟩ := ⟨⟨rfl, rfl, rfl⟩, rfl⟩

/-- All frames are logged from power-up, once the last alarm has come. -/
theorem traffic_logged {frames : List Heard} (hclear : Clear frames) {rest : Nat}
    (hrest : perAlarm ≤ rest) :
    ∃ l, Runs.run logEdge ⟨idleReceiver, []⟩ (frames.flatMap Heard.edges) = some l ∧
      (l.pass rest).log = frames.map fun f => frameElement f.package := by
  have hsplit : rest = perAlarm + (rest - perAlarm) := (Nat.add_sub_cancel' hrest).symm
  have hsettled {l : Log} (hl : l.rx.paketQueue = []) (hready : Ready (l.pass perAlarm)) :
      (l.pass rest).log = (l.pass perAlarm).log := by
    rw [hsplit, ← pass_pass perAlarm _ hl]
    show _ ++ (elapse _ _).paketQueue = _
    rw [elapse_stopped hready.stopped]
    show _ ++ (l.pass perAlarm).rx.paketQueue = _
    rw [hready.empty, List.append_nil]
  cases frames with
  | nil =>
    refine ⟨_, rfl, ?_⟩
    show [] ++ (elapse rest idleReceiver).paketQueue = _
    rw [elapse_stopped idleReceiver_ready.stopped]
    rfl
  | cons f fs =>
    have hfirst : ∀ e ∈ f.edges.head?, fullPeriodDown3 < e.dt % komAlarm := by
      intro e he
      have hgap := hclear.1
      rw [Heard.gap, he] at hgap
      exact hgap
    obtain ⟨l1, hrun1, hl1, hready1, hlog1⟩ := frame_logged idleReceiver_ready f.timed hfirst
    obtain ⟨l', hrun, hl', hready', hlog⟩ := frames_logged fs hl1 hready1 hclear.2
    refine ⟨l', Runs.run_append_of hrun1 hrun, ?_⟩
    rw [hsettled hl' hready', hlog, hlog1]
    rfl

/-! ### Deliveries -/

/-- The queue empties when `paket_task` has as many turns as it has elements. -/
theorem run_tasks (top : TopByte) (n : Nat) {s : Station} (hn : s.rx.paketQueue.length ≤ n) :
    Runs.run (lineStep top) s (List.replicate n .task) =
      some ⟨s.rx.bare, s.delivered ++ s.rx.paketQueue.flatMap (paketHand top)⟩ := by
  induction n generalizing s with
  | zero =>
    obtain ⟨rx, delivered⟩ := s
    have hempty : rx.paketQueue = [] := List.eq_nil_of_length_eq_zero (Nat.le_zero.mp hn)
    have hbare : rx.bare = rx := by rw [Receiver.bare, ← hempty]
    simp [hempty, hbare]
  | succ n ih =>
    rw [List.replicate_succ, Runs.run_cons, lineStep]
    split
    · rename_i hempty
      rw [Option.bind_some, ih (by rw [hempty]; exact Nat.zero_le n)]
    · rename_i gg rest hqueue
      have hrest : rest.length ≤ n := by
        rw [hqueue] at hn
        exact Nat.le_of_succ_le_succ hn
      rw [Option.bind_some, ih hrest, hqueue, List.flatMap_cons, ← List.append_assoc]
      rfl

/-- A frame of one or two bytes is handed on. -/
theorem paketHand_frame (top : TopByte) {f : Heard} (hf : f.package.type ≠ .block24) :
    ∃ g, paketHand top (frameElement f.package) = [g] ∧ f.Matches g := by
  obtain ⟨htype, hbytes⟩ := paketStore_frame top f.package f.known
  have htrigger : paketTrigger (paketStore top (frameElement f.package)) =
      paketTrigger f.package := by
    rw [paketTrigger, paketTrigger, htype]
  refine ⟨(paketTrigger f.package, paketStore top (frameElement f.package)), ?_, rfl, htype,
    hbytes⟩
  rw [paketHand, htrigger]
  cases h : f.package.type with
  | block8 => simp only [paketTrigger, h]
  | block16 => simp only [paketTrigger, h]
  | block24 => exact absurd h hf
  | blockErr => exact absurd h f.known

theorem hands_match (top : TopByte) {frames : List Heard}
    (hshort : ∀ f ∈ frames, f.package.type ≠ .block24) :
    List.Forall₂ Heard.Matches frames
      ((frames.map fun f => frameElement f.package).flatMap (paketHand top)) := by
  induction frames with
  | nil => exact .nil
  | cons f fs ih =>
    obtain ⟨g, hg, hmatch⟩ := paketHand_frame top (hshort f List.mem_cons_self)
    rw [List.map_cons, List.flatMap_cons, hg, List.singleton_append]
    exact .cons hmatch (ih fun f' hf' => hshort f' (List.mem_cons_of_mem _ hf'))

/-- A recall of the maximum level by short address 5, sent after `idle` microseconds. -/
def recallMax (idle : Nat) : Heard where
  package := ⟨0x0B, 0x05, 0, .block16, 0⟩
  edges := nominalEdges idle ⟨0x0B, 0x05, 0, .block16, 0⟩
  known := by decide
  timed := frameTimed_nominal idle _

/-- The frames on the line, with a turn of `paket_task` before each. -/
def lineOf (frames : List Heard) : List LineEvent :=
  frames.flatMap (fun f => .task :: f.edges.flatMap fun e => [.pass e.dt, .edge e.level]) ++
    [.pass 3000]

end DaliController.Dali
