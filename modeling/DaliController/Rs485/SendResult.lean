import DaliController.Rs485.Sender

/-! What the result of `Sender` says.  It reports success also when an acknowledgement is missing.
The result is right when each wait for an acknowledgement is answered: no semaphore is left over
from before, the first packet for this device is the acknowledgement, and it comes in time. -/

namespace DaliController.Rs485

open CString

/-! ### What a return value should say -/

/-- The fragments that the text of a call takes. -/
def Call.fragments (c : Call) : Nat := (c.text.bytes.length + 49) / 50

def Attempt.Of (a : Attempt) (c i : Nat) : Prop := a.call = c ∧ a.index = i

instance (a : Attempt) (c i : Nat) : Decidable (a.Of c i) := inferInstanceAs (Decidable (_ ∧ _))

def Trace.Written (tr : Trace) (c i : Nat) : Prop :=
  ∃ a ∈ tr.attempted, a.complete = true ∧ a.Of c i

def Trace.Acked (tr : Trace) (c i : Nat) : Prop := ∃ a ∈ tr.acked, a.Of c i

instance (tr : Trace) (c i : Nat) : Decidable (tr.Written c i) :=
  inferInstanceAs (Decidable (∃ a ∈ tr.attempted, a.complete = true ∧ a.Of c i))

instance (tr : Trace) (c i : Nat) : Decidable (tr.Acked c i) :=
  inferInstanceAs (Decidable (∃ a ∈ tr.acked, a.Of c i))

/-- How often a fragment was written. -/
def Trace.tries (tr : Trace) (c i : Nat) : Nat :=
  tr.attempted.countP fun a => decide (a.Of c i)

/-- How often a write of it was short. -/
def Trace.shorts (tr : Trace) (c i : Nat) : Nat :=
  tr.attempted.countP fun a => decide (a.Of c i) && !a.complete

/-- Success means that every fragment was written, and acknowledged after that; an error means that
one was written short three times. -/
def Return.Truthful (r : Return) : Prop :=
  (r.ret = .ok → ∀ i < r.call.fragments,
    r.trace.Written r.call.id i ∧ r.trace.Acked r.call.id i) ∧
  (r.ret = .hardwareError → ∃ i < r.call.fragments, 3 ≤ r.trace.shorts r.call.id i)

/-- No fragment is tried more than three times. -/
def Return.Thrice (r : Return) : Prop := ∀ i < r.call.fragments, r.trace.tries r.call.id i ≤ 3

/-- No write of a fragment is short for the third time. -/
def Return.FewShort (r : Return) : Prop := ∀ i < r.call.fragments, r.trace.shorts r.call.id i < 3

instance (r : Return) : Decidable r.Truthful :=
  inferInstanceAs (Decidable ((r.ret = .ok → ∀ i < r.call.fragments,
      r.trace.Written r.call.id i ∧ r.trace.Acked r.call.id i) ∧
    (r.ret = .hardwareError → ∃ i < r.call.fragments, 3 ≤ r.trace.shorts r.call.id i)))

instance (r : Return) : Decidable r.FewShort :=
  inferInstanceAs (Decidable (∀ i < r.call.fragments, r.trace.shorts r.call.id i < 3))

/-- What a step must meet, as far as it concerns a unicast message.  The message has at most 255
fragments; when a fragment has been written, no packet has given the semaphore before; the first
packet for this device after that is the acknowledgement; `event_task` is at it when the wait for it
runs out; and the caller does not give up. -/
def answered (s : SenderState) : SenderEvent → Bool
  | .call receiver text => s.busy || receiver == 255 || decide (text.bytes.length ≤ 12750)
  | .write complete =>
    match s.task with
    | .writing job _ _ => job.message.receiver == 255 || !complete || (!s.ackSem && !s.giving)
    | _ => true
  | .packet hd =>
    match s.task with
    | .clearing job i _ | .waiting job i _ =>
      !hd.forMe s.deviceId || hd == (job.message.head i).echo || s.ackSem
    | _ => true
  | .ackTimeout => s.giving
  | .giveUp => false
  | _ => true

/-! ### The invariant

What it says of the fragments, it says for unicast messages. -/

/-- Fragment `j` is over, and `error` says what `send_paket_error` is then. -/
structure Trace.Settled (tr : Trace) (error : Bool) (c : Call) (j : Nat) : Prop where
  sent : error = false → tr.Written c.id j ∧ tr.Acked c.id j
  tries : tr.tries c.id j ≤ 3 ↔ tr.shorts c.id j < 3

/-- The fragments below `n` are over. -/
structure Trace.Done (tr : Trace) (error : Bool) (c : Call) (n : Nat) : Prop where
  settled : ∀ j < n, tr.Settled error c j
  error : error = true → ∃ j < n, 3 ≤ tr.shorts c.id j

def Trace.Untried (tr : Trace) (c : Call) (n : Nat) : Prop := ∀ j, n ≤ j → tr.tries c.id j = 0

/-- The task works on fragment `i` of the call `c`. -/
structure Working (tr : Trace) (error : Bool) (c : Call) (job : Job) (i : Nat) : Prop where
  sayi : job.message.sayi = c.fragments
  lt : i < c.fragments
  done : tr.Done error c i
  untried : tr.Untried c (i + 1)

/-- It has written fragment `i` short `counter` times. -/
structure Writing (tr : Trace) (error : Bool) (c : Call) (job : Job) (i counter : Nat) : Prop
    extends Working tr error c job i where
  tries : tr.tries c.id i = counter
  shorts : tr.shorts c.id i = counter
  le : counter ≤ 3

/-- It has written fragment `i`, with the write number `counter`. -/
structure Awaits (tr : Trace) (error : Bool) (c : Call) (job : Job) (i counter : Nat) : Prop
    extends Working tr error c job i where
  tries : tr.tries c.id i = counter
  shorts : tr.shorts c.id i + 1 = counter
  le : counter ≤ 4
  written : ⟨c.id, i, job.message.head i, true⟩ ∈ tr.attempted

/-- The job is the one of the call. -/
structure Job.For (job : Job) (c : Call) : Prop where
  call : job.call = c
  receiver : job.message.receiver = c.receiver

/-- `given` says that `ack_sem` is given, or about to be.  During a wait it means that the
acknowledgement has arrived. -/
def TaskFor (tr : Trace) (error given : Bool) (c : Call) : Task → Prop
  | .idle => False
  | .writing job i counter => job.For c ∧ (c.receiver ≠ 255 → Writing tr error c job i counter)
  | .clearing job i counter | .waiting job i counter =>
    job.For c ∧ (c.receiver ≠ 255 →
      Awaits tr error c job i counter ∧ (given = true → tr.Acked c.id i))
  | .checking job i counter =>
    job.For c ∧ (c.receiver ≠ 255 → Awaits tr error c job i counter ∧ tr.Acked c.id i)
  | .finishing _ => c.receiver ≠ 255 → tr.Done error c c.fragments

/-- The call `c` is queued, being sent, or sent. -/
inductive Phase (s : SenderState) (c : Call) : Prop
  | queued (hq : s.queue = [c]) (ht : s.task = .idle) (hs : s.sendPaketSem = some false)
      (he : s.sendPaketError = false) (hu : s.trace.Untried c 0)
  | sending (hq : s.queue = []) (hs : s.sendPaketSem = some false)
      (ht : TaskFor s.trace s.sendPaketError (s.ackSem || s.giving) c s.task)
  | sent (hq : s.queue = []) (ht : s.task = .idle) (hs : s.sendPaketSem = some true)
      (hd : c.receiver ≠ 255 → s.trace.Done s.sendPaketError c c.fragments)

structure Calling (s : SenderState) (c : Call) : Prop where
  id : c.id < s.calls
  busy : s.busy = true
  length : c.receiver ≠ 255 → c.text.bytes.length ≤ 12750
  phase : Phase s c

structure AtRest (s : SenderState) : Prop where
  busy : s.busy = false
  queue : s.queue = []
  task : s.task = .idle

structure SenderInv (s : SenderState) : Prop where
  fresh : ∀ a ∈ s.trace.attempted, a.call < s.calls
  rest : s.caller = none → AtRest s
  calling : ∀ c, s.caller = some c → Calling s c
  returns : ∀ r ∈ s.returns, r.call.receiver ≠ 255 → r.Truthful ∧ (r.Thrice ↔ r.FewShort)

/-! ### What the trace gains -/

section Trace

variable {tr : Trace} {error error' given : Bool} {c : Call} {job : Job} {i counter : Nat}

theorem tries_attempt (tr : Trace) (a : Attempt) (d j : Nat) :
    (tr.attempt a).tries d j = tr.tries d j + if a.Of d j then 1 else 0 := by
  simp [Trace.tries, Trace.attempt, List.countP_append, List.countP_singleton]

theorem shorts_attempt (tr : Trace) (a : Attempt) (d j : Nat) :
    (tr.attempt a).shorts d j =
      tr.shorts d j + if a.Of d j ∧ a.complete = false then 1 else 0 := by
  simp [Trace.shorts, Trace.attempt, List.countP_append, List.countP_singleton]

theorem shorts_le_tries (tr : Trace) (d j : Nat) : tr.shorts d j ≤ tr.tries d j :=
  List.countP_mono_left fun _ _ h => (Bool.and_eq_true_iff.mp h).1

theorem Trace.Written.attempt {d j : Nat} (h : tr.Written d j) (a : Attempt) :
    (tr.attempt a).Written d j := by
  obtain ⟨b, hb, hof⟩ := h
  exact ⟨b, List.mem_append_left _ hb, hof⟩

theorem Trace.Acked.hear {d j : Nat} (h : tr.Acked d j) (hd : Header) :
    (tr.hear hd).Acked d j := by
  obtain ⟨a, ha, hof⟩ := h
  exact ⟨a, List.mem_append_left _ ha, hof⟩

/-- A write of a later fragment leaves the fragments that are over as they are. -/
theorem Trace.Done.attempt {n : Nat} (h : tr.Done error c n) (hi : n ≤ i) (hd : Header)
    (complete : Bool) : (tr.attempt ⟨c.id, i, hd, complete⟩).Done error c n := by
  have hother {j : Nat} (hj : j < n) : ¬Attempt.Of ⟨c.id, i, hd, complete⟩ c.id j := by
    rintro ⟨-, hij⟩
    have hij : i = j := hij
    omega
  have hshorts {j : Nat} (hj : j < n) :
      (tr.attempt ⟨c.id, i, hd, complete⟩).shorts c.id j = tr.shorts c.id j := by
    rw [shorts_attempt, if_neg fun h => hother hj h.1, Nat.add_zero]
  constructor
  · intro j hj
    obtain ⟨hsent, htries⟩ := h.settled j hj
    refine ⟨fun he => ⟨(hsent he).1.attempt _, (hsent he).2⟩, ?_⟩
    rw [hshorts hj, tries_attempt, if_neg (hother hj), Nat.add_zero]
    exact htries
  · intro he
    obtain ⟨j, hj, hshort⟩ := h.error he
    exact ⟨j, hj, by rw [hshorts hj]; exact hshort⟩

theorem Trace.Done.hear {n : Nat} (h : tr.Done error c n) (hd : Header) :
    (tr.hear hd).Done error c n :=
  ⟨fun j hj => ⟨fun he => ⟨((h.settled j hj).sent he).1, ((h.settled j hj).sent he).2.hear hd⟩,
    (h.settled j hj).tries⟩, h.error⟩

theorem Working.attempt (h : Working tr error c job i) (hd : Header) (complete : Bool) :
    Working (tr.attempt ⟨c.id, i, hd, complete⟩) error c job i where
  sayi := h.sayi
  lt := h.lt
  done := h.done.attempt (Nat.le_refl i) hd complete
  untried j hj := by
    have hother : ¬Attempt.Of ⟨c.id, i, hd, complete⟩ c.id j := by
      rintro ⟨-, hij⟩
      have hij : i = j := hij
      omega
    rw [tries_attempt, if_neg hother]
    exact h.untried j hj

theorem Working.hear (h : Working tr error c job i) (hd : Header) :
    Working (tr.hear hd) error c job i :=
  ⟨h.sayi, h.lt, h.done.hear hd, h.untried⟩

theorem Awaits.hear (h : Awaits tr error c job i counter) (hd : Header) :
    Awaits (tr.hear hd) error c job i counter :=
  ⟨h.toWorking.hear hd, h.tries, h.shorts, h.le, h.written⟩

/-- A write that is not short is waited for. -/
theorem Writing.awaits (h : Writing tr error c job i counter) :
    Awaits (tr.attempt ⟨c.id, i, job.message.head i, true⟩) error c job i (counter + 1) where
  toWorking := h.toWorking.attempt _ true
  tries := by rw [tries_attempt, if_pos ⟨rfl, rfl⟩, h.tries]
  shorts := by
    have hshorts := h.shorts
    rw [shorts_attempt, if_neg fun hs => nomatch hs.2]
    omega
  le := Nat.succ_le_succ h.le
  written := List.mem_append_right _ (List.mem_singleton_self _)

theorem tries_short (h : Writing tr error c job i counter) (hd : Header) :
    (tr.attempt ⟨c.id, i, hd, false⟩).tries c.id i = counter + 1 ∧
      (tr.attempt ⟨c.id, i, hd, false⟩).shorts c.id i = counter + 1 := by
  rw [tries_attempt, if_pos ⟨rfl, rfl⟩, shorts_attempt, if_pos ⟨⟨rfl, rfl⟩, rfl⟩, h.tries,
    h.shorts]
  exact ⟨rfl, rfl⟩

/-- A short write is followed by another one, up to the fourth. -/
theorem Writing.short (h : Writing tr error c job i counter) (hlt : counter < 3) (hd : Header) :
    Writing (tr.attempt ⟨c.id, i, hd, false⟩) error c job i (counter + 1) :=
  ⟨h.toWorking.attempt hd false, (tries_short h hd).1, (tries_short h hd).2, hlt⟩

theorem Awaits.mem_written (h : Awaits tr error c job i counter) : tr.Written c.id i :=
  ⟨_, h.written, rfl, rfl, rfl⟩

/-- The fragment's own acknowledgement. -/
theorem Awaits.hear_echo (h : Awaits tr error c job i counter) :
    (tr.hear (job.message.head i).echo).Acked c.id i :=
  ⟨_, List.mem_append_right _ (List.mem_filter.mpr ⟨h.written, by simp⟩), rfl, rfl⟩

theorem Trace.Done.succ (h : tr.Done error c i) (hsettled : tr.Settled error' c i)
    (herror : error = true → error' = true)
    (hshort : error' = true → error = true ∨ 3 ≤ tr.shorts c.id i) :
    tr.Done error' c (i + 1) := by
  constructor
  · intro j hj
    by_cases hji : j = i
    · exact hji ▸ hsettled
    · obtain ⟨hsent, htries⟩ := h.settled j (by omega)
      refine ⟨fun he => hsent ?_, htries⟩
      cases hold : error with
      | false => rfl
      | true => exact absurd (herror hold) (by rw [he]; decide)
  · intro he
    rcases hshort he with hold | hthree
    · obtain ⟨j, hj, hshort⟩ := h.error hold
      exact ⟨j, Nat.lt_succ_of_lt hj, hshort⟩
    · exact ⟨i, Nat.lt_succ_self i, hthree⟩

/-- The end of a fragment that was acknowledged.  `counter` is 4 when three writes were short. -/
theorem Awaits.over (h : Awaits tr error c job i counter) (ha : tr.Acked c.id i)
    (herror : error' = error ∨ error' = (error || decide (3 < counter))) :
    tr.Done error' c (i + 1) := by
  have htries := h.tries
  have hshorts := h.shorts
  refine h.toWorking.done.succ ⟨fun _ => ⟨h.mem_written, ha⟩, by omega⟩ ?_ ?_
  · rintro rfl
    rcases herror with rfl | rfl
    · rfl
    · exact Bool.true_or _
  · intro he
    rcases herror with rfl | rfl
    · exact Or.inl he
    · rcases Bool.or_eq_true_iff.mp he with hold | hfour
      · exact Or.inl hold
      · have hfour := of_decide_eq_true hfour
        exact Or.inr (by omega)

/-- The end of a fragment after four short writes. -/
theorem Writing.over (h : Writing tr error c job i 3) (hd : Header) :
    (tr.attempt ⟨c.id, i, hd, false⟩).Done true c (i + 1) := by
  obtain ⟨htries, hshorts⟩ := tries_short h hd
  exact (h.toWorking.attempt hd false).done.succ ⟨fun he => (nomatch he), by omega⟩ (fun _ => rfl)
    fun _ => Or.inr (by omega)

/-- A fragment that is over is followed by the next one. -/
theorem taskFor_next (hfor : job.For c)
    (h : c.receiver ≠ 255 → Working tr error c job i ∧ tr.Done error' c (i + 1)) :
    TaskFor tr error' given c (job.next i) := by
  unfold Job.next
  by_cases hlast : i + 1 < job.message.sayi
  · rw [if_pos hlast]
    refine ⟨hfor, fun hu => ?_⟩
    obtain ⟨hworking, hdone⟩ := h hu
    have htries := hworking.untried (i + 1) (Nat.le_refl _)
    have hshorts := shorts_le_tries tr c.id (i + 1)
    exact ⟨⟨hworking.sayi, by rw [← hworking.sayi]; exact hlast, hdone,
      fun j hj => hworking.untried j (by omega)⟩, htries, by omega, Nat.zero_le 3⟩
  · rw [if_neg hlast]
    intro hu
    obtain ⟨hworking, hdone⟩ := h hu
    have hsayi := hworking.sayi
    have hlt := hworking.lt
    have hend : c.fragments = i + 1 := by omega
    rw [hend]
    exact hdone

end Trace

/-! ### Steps -/

section Step

variable {s : SenderState} {c : Call}

/-- A task that is not idle works for the call that waits. -/
theorem SenderInv.working (hi : SenderInv s) {task : Task} (ht : s.task = task)
    (hne : task ≠ .idle) :
    ∃ c, s.caller = some c ∧ Calling s c ∧ s.queue = [] ∧ s.sendPaketSem = some false ∧
      TaskFor s.trace s.sendPaketError (s.ackSem || s.giving) c task := by
  subst ht
  cases hcaller : s.caller with
  | none => exact absurd (hi.rest hcaller).task hne
  | some c =>
    have hcalling := hi.calling c hcaller
    cases hcalling.phase with
    | queued _ hidle => exact absurd hidle hne
    | sending hq hs htask => exact ⟨c, rfl, hcalling, hq, hs, htask⟩
    | sent _ hidle => exact absurd hidle hne

/-- The task moves on and the trace with it. -/
theorem SenderInv.move (hi : SenderInv s) (hc : s.caller = some c) (hcalling : Calling s c)
    (hq : s.queue = []) (hsem : s.sendPaketSem = some false) (trace : Trace) (task : Task)
    (ackOk ackSem error : Bool) (hfresh : ∀ a ∈ trace.attempted, a.call < s.calls)
    (ht : TaskFor trace error (ackSem || s.giving) c task) :
    SenderInv { s with
      trace := trace
      task := task
      ackOk := ackOk
      ackSem := ackSem
      sendPaketError := error } where
  fresh := hfresh
  rest hnone := by
    rw [hc] at hnone
    cases hnone
  calling d hd := by
    obtain rfl : c = d := Option.some.inj (hc.symm.trans hd)
    exact ⟨hcalling.id, hcalling.busy, hcalling.length, .sending hq hsem ht⟩
  returns := hi.returns

theorem fresh_attempt (hi : SenderInv s) (hcalling : Calling s c) {a : Attempt}
    (ha : a.call = c.id) : ∀ b ∈ (s.trace.attempt a).attempted, b.call < s.calls := by
  intro b hb
  rcases List.mem_append.mp hb with hb | hb
  · exact hi.fresh b hb
  · rw [List.mem_singleton.mp hb, ha]
    exact hcalling.id

/-- The receiving side changes the flags, and the trace only by what it hears. -/
theorem SenderInv.receive (hi : SenderInv s) {trace : Trace} (ackOk ackSem giving : Bool)
    (hattempted : trace.attempted = s.trace.attempted)
    (hdone : ∀ error c n, s.trace.Done error c n → trace.Done error c n)
    (htask : ∀ c, TaskFor s.trace s.sendPaketError (s.ackSem || s.giving) c s.task →
      TaskFor trace s.sendPaketError (ackSem || giving) c s.task) :
    SenderInv { s with ackOk := ackOk, ackSem := ackSem, giving := giving, trace := trace } where
  fresh a ha := hi.fresh a (hattempted ▸ ha)
  rest hnone := ⟨(hi.rest hnone).busy, (hi.rest hnone).queue, (hi.rest hnone).task⟩
  calling c hc := by
    have hcalling := hi.calling c hc
    refine ⟨hcalling.id, hcalling.busy, hcalling.length, ?_⟩
    cases hcalling.phase with
    | queued hq ht hs he hu =>
      refine .queued hq ht hs he fun j hj => ?_
      rw [Trace.tries, hattempted]
      exact hu j hj
    | sending hq hs ht => exact .sending hq hs (htask c ht)
    | sent hq ht hs hd => exact .sent hq ht hs fun hu => hdone _ c _ (hd hu)
  returns := hi.returns

theorem untried_calls (hi : SenderInv s) (j : Nat) : s.trace.tries s.calls j = 0 := by
  refine List.countP_eq_zero.mpr fun a ha hof => ?_
  have hlt := hi.fresh a ha
  rw [(of_decide_eq_true hof).1] at hlt
  exact Nat.lt_irrefl _ hlt

theorem inv_call (hi : SenderInv s) (receiver : UInt8) (text : Text)
    (hlen : s.busy = false → receiver ≠ 255 → text.bytes.length ≤ 12750) {s' : SenderState}
    (h : senderStep s (.call receiver text) = some s') : SenderInv s' := by
  have hfresh : ∀ a ∈ s.trace.attempted, a.call < s.calls + 1 := fun a ha =>
    Nat.lt_succ_of_lt (hi.fresh a ha)
  have huntried := untried_calls hi
  simp only [senderStep] at h
  by_cases hbusy : s.busy = true
  · rw [if_pos hbusy] at h
    cases h
    refine ⟨hfresh, fun hnone => ?_, fun c hc => ?_, fun r hr => ?_⟩
    · exact absurd (hi.rest hnone).busy (by rw [hbusy]; decide)
    · have hcalling := hi.calling c hc
      refine ⟨Nat.lt_succ_of_lt hcalling.id, hcalling.busy, hcalling.length, ?_⟩
      cases hcalling.phase with
      | queued hq ht hs he hu => exact .queued hq ht hs he hu
      | sending hq hs ht => exact .sending hq hs ht
      | sent hq ht hs hd => exact .sent hq ht hs hd
    · rcases List.mem_append.mp hr with hr | hr
      · exact hi.returns r hr
      · rw [List.mem_singleton.mp hr]
        intro _
        have hfew (i : Nat) : s.trace.shorts s.calls i < 3 := by
          have hle := shorts_le_tries s.trace s.calls i
          rw [huntried i] at hle
          omega
        refine ⟨⟨fun hok => (nomatch hok), fun herror => (nomatch herror)⟩,
          fun _ i _ => hfew i, fun _ i _ => ?_⟩
        rw [huntried i]
        exact Nat.zero_le 3
  · rw [if_neg hbusy] at h
    cases h
    have hrest : AtRest s := by
      cases hcaller : s.caller with
      | none => exact hi.rest hcaller
      | some c => exact absurd (hi.calling c hcaller).busy hbusy
    refine ⟨hfresh, fun hnone => (nomatch hnone), fun c hc => ?_, hi.returns⟩
    cases hc
    refine ⟨Nat.lt_succ_self _, rfl, hlen hrest.busy,
      .queued ?_ hrest.task rfl rfl fun j _ => huntried j⟩
    simp [hrest.queue]

theorem inv_dequeue (hi : SenderInv s) {s' : SenderState}
    (h : senderStep s .dequeue = some s') : SenderInv s' := by
  simp only [senderStep] at h
  split at h
  · rename_i c rest htask hqueue
    cases h
    cases hcaller : s.caller with
    | none =>
      rw [(hi.rest hcaller).queue] at hqueue
      cases hqueue
    | some d =>
      have hcalling := hi.calling d hcaller
      cases hcalling.phase with
      | queued hq ht hs he hu0 =>
        rw [hq] at hqueue
        obtain ⟨rfl, rfl⟩ := List.cons.inj hqueue
        refine ⟨hi.fresh, fun hnone => (nomatch hnone), fun e he' => ?_, hi.returns⟩
        obtain rfl : d = e := Option.some.inj he'
        refine ⟨hcalling.id, hcalling.busy, hcalling.length, .sending rfl hs ?_⟩
        have hsayi (hu : d.receiver ≠ 255) :
            Message.sayi ⟨s.deviceId, d.receiver, .normal, s.paketCounter, d.text⟩ =
              d.fragments := Message.sayi_of_le (hcalling.length hu)
        have hdone : s.trace.Done s.sendPaketError d 0 :=
          ⟨fun j hj => absurd hj (Nat.not_lt_zero j), fun h => absurd (he.symm.trans h) (by decide)⟩
        split
        · rename_i hpos
          refine ⟨⟨rfl, rfl⟩, fun hu => ⟨⟨hsayi hu, (hsayi hu).symm ▸ hpos, hdone,
            fun j _ => hu0 j (Nat.zero_le j)⟩, hu0 0 (Nat.le_refl 0), ?_, Nat.zero_le 3⟩⟩
          exact Nat.le_zero.mp ((shorts_le_tries _ _ _).trans (hu0 0 (Nat.le_refl 0)).le)
        · rename_i hzero
          intro hu
          rw [hsayi hu, Nat.pos_iff_ne_zero, not_not] at hzero
          rw [hzero]
          exact hdone
      | sending hq =>
        rw [hq] at hqueue
        cases hqueue
      | sent hq =>
        rw [hq] at hqueue
        cases hqueue
  · cases h

theorem inv_write (hi : SenderInv s) (complete : Bool)
    (hsem : ∀ job i counter, complete = true → s.task = .writing job i counter →
      job.message.receiver ≠ 255 → (s.ackSem || s.giving) = false)
    {s' : SenderState} (h : senderStep s (.write complete) = some s') : SenderInv s' := by
  cases htask : s.task with
  | writing job i counter =>
    obtain ⟨c, hcaller, hcalling, hq, hpaket, hfor, hwriting⟩ := hi.working htask nofun
    have hcall := hfor.call
    subst hcall
    have hfresh := fresh_attempt hi hcalling (a := ⟨job.call.id, i, job.message.head i, complete⟩)
      rfl
    simp only [senderStep, htask] at h
    by_cases hr : job.message.receiver = 255
    · -- Nothing is claimed of a broadcast.
      have hbroadcast {p : Prop} (hu : job.call.receiver ≠ 255) : p :=
        absurd (hfor.receiver.symm.trans hr) hu
      have hskip (tr : Trace) (error given : Bool) :
          TaskFor tr error given job.call (job.next i) := by
        have hnone (hu : job.call.receiver ≠ 255) :
            Working tr error job.call job i ∧ tr.Done error job.call (i + 1) := hbroadcast hu
        exact taskFor_next hfor hnone
      cases complete with
      | true =>
        rw [if_pos rfl, if_neg (not_not_intro hr)] at h
        cases h
        exact hi.move hcaller hcalling hq hpaket _ _ _ _ _ hfresh (hskip _ _ _)
      | false =>
        rw [if_neg (by decide)] at h
        split at h
        · cases h
          exact hi.move hcaller hcalling hq hpaket _ _ _ _ _ hfresh (hskip _ _ _)
        · cases h
          exact hi.move hcaller hcalling hq hpaket _ _ _ _ _ hfresh ⟨hfor, hbroadcast⟩
    · have hu : job.call.receiver ≠ 255 := hfor.receiver ▸ hr
      have hwriting := hwriting hu
      cases complete with
      | true =>
        have hgiven := hsem job i counter rfl htask hr
        rw [if_pos rfl, if_pos hr] at h
        cases h
        refine hi.move hcaller hcalling hq hpaket _ _ _ _ _ hfresh
          ⟨hfor, fun _ => ⟨hwriting.awaits, fun hg => ?_⟩⟩
        exact absurd (hgiven.symm.trans hg) (by decide)
      | false =>
        rw [if_neg (by decide)] at h
        split at h
        · rename_i hfour
          have hthree : counter = 3 := Nat.le_antisymm hwriting.le (Nat.lt_succ_iff.mp hfour)
          subst hthree
          have herror : (s.sendPaketError || decide (3 < 3 + 1)) = true := Bool.or_true _
          cases h
          refine hi.move hcaller hcalling hq hpaket _ _ _ _ _ hfresh
            (taskFor_next hfor fun _ => ⟨hwriting.toWorking.attempt _ false, ?_⟩)
          rw [herror]
          exact hwriting.over _
        · rename_i hfew
          cases h
          exact hi.move hcaller hcalling hq hpaket _ _ _ _ _ hfresh
            ⟨hfor, fun _ => hwriting.short (by omega) _⟩
  | _ => simp [senderStep, htask] at h

theorem inv_clear (hi : SenderInv s) {s' : SenderState} (h : senderStep s .clear = some s') :
    SenderInv s' := by
  simp only [senderStep] at h
  split at h
  · rename_i job i counter htask
    cases h
    obtain ⟨c, hcaller, hcalling, hq, hsem, hfor⟩ := hi.working htask nofun
    exact hi.move hcaller hcalling hq hsem s.trace _ false s.ackSem s.sendPaketError hi.fresh hfor
  · cases h

/-- A wait that ends while the semaphore is given has been answered. -/
theorem inv_answered (hi : SenderInv s) {job : Job} {i counter : Nat}
    (htask : s.task = .waiting job i counter) (hgiven : (s.ackSem || s.giving) = true)
    (ackSem : Bool) : SenderInv { s with task := .checking job i counter, ackSem := ackSem } := by
  obtain ⟨c, hcaller, hcalling, hq, hsem, hfor, hawaits⟩ := hi.working htask nofun
  exact hi.move hcaller hcalling hq hsem s.trace _ s.ackOk ackSem s.sendPaketError hi.fresh
    ⟨hfor, fun hu => ⟨(hawaits hu).1, (hawaits hu).2 hgiven⟩⟩

theorem inv_take (hi : SenderInv s) {s' : SenderState} (h : senderStep s .take = some s') :
    SenderInv s' := by
  simp only [senderStep] at h
  split at h
  · rename_i job i counter htask
    split at h
    · rename_i hsem
      cases h
      exact inv_answered hi htask (by rw [hsem, Bool.true_or]) false
    · cases h
  · cases h

theorem inv_ackTimeout (hi : SenderInv s) (hgiving : s.giving = true) {s' : SenderState}
    (h : senderStep s .ackTimeout = some s') : SenderInv s' := by
  simp only [senderStep] at h
  split at h
  · rename_i job i counter htask
    split at h
    · cases h
    · cases h
      exact inv_answered hi htask (by rw [hgiving, Bool.or_true]) s.ackSem
  · cases h

theorem inv_check (hi : SenderInv s) {s' : SenderState} (h : senderStep s .check = some s') :
    SenderInv s' := by
  simp only [senderStep] at h
  split at h
  · rename_i job i counter htask
    obtain ⟨c, hcaller, hcalling, hq, hsem, hfor, hawaits⟩ := hi.working htask nofun
    have hover {error' : Bool} (herror : error' = s.sendPaketError ∨
        error' = (s.sendPaketError || decide (3 < counter))) :
        TaskFor s.trace error' (s.ackSem || s.giving) c (job.next i) :=
      taskFor_next hfor fun hu =>
        ⟨(hawaits hu).1.toWorking, (hawaits hu).1.over (hawaits hu).2 herror⟩
    -- With or without `ack_ok` the fragment is over.
    split at h
    · cases h
      exact hi.move hcaller hcalling hq hsem s.trace _ s.ackOk s.ackSem _ hi.fresh
        (hover (Or.inr rfl))
    · cases h
      exact hi.move hcaller hcalling hq hsem s.trace _ s.ackOk s.ackSem s.sendPaketError hi.fresh
        (hover (Or.inl rfl))
  · cases h

theorem inv_packet (hi : SenderInv s) (hd : Header)
    (hfirst : ∀ job i counter, s.task = .clearing job i counter ∨ s.task = .waiting job i counter →
      hd.forMe s.deviceId = true → hd = (job.message.head i).echo ∨ s.ackSem = true)
    {s' : SenderState} (h : senderStep s (.packet hd) = some s') : SenderInv s' := by
  simp only [senderStep] at h
  split at h
  · cases h
  · rename_i hgiving
    cases h
    rw [Bool.not_eq_true] at hgiving
    refine hi.receive _ s.ackSem _ rfl (fun error c n hdone => hdone.hear hd) fun c hfor => ?_
    rw [hgiving, Bool.or_false] at hfor
    have hwait {job : Job} {i counter : Nat}
        (htask : s.task = .clearing job i counter ∨ s.task = .waiting job i counter)
        (h : Awaits s.trace s.sendPaketError c job i counter ∧
          (s.ackSem = true → s.trace.Acked c.id i)) :
        Awaits (s.trace.hear hd) s.sendPaketError c job i counter ∧
          ((s.ackSem || hd.forMe s.deviceId) = true → (s.trace.hear hd).Acked c.id i) := by
      refine ⟨h.1.hear hd, fun hgiven => ?_⟩
      rcases Bool.or_eq_true_iff.mp hgiven with hsem | hme
      · exact (h.2 hsem).hear hd
      · rcases hfirst job i counter htask hme with rfl | hsem
        · exact h.1.hear_echo
        · exact (h.2 hsem).hear hd
    cases htask : s.task with
    | idle => rw [htask] at hfor; exact hfor
    | writing job i counter =>
      rw [htask] at hfor
      exact ⟨hfor.1, fun hu => ⟨(hfor.2 hu).toWorking.hear hd, (hfor.2 hu).tries,
        (hfor.2 hu).shorts, (hfor.2 hu).le⟩⟩
    | clearing job i counter =>
      rw [htask] at hfor
      exact ⟨hfor.1, fun hu => hwait (Or.inl htask) (hfor.2 hu)⟩
    | waiting job i counter =>
      rw [htask] at hfor
      exact ⟨hfor.1, fun hu => hwait (Or.inr htask) (hfor.2 hu)⟩
    | checking job i counter =>
      rw [htask] at hfor
      exact ⟨hfor.1, fun hu => ⟨(hfor.2 hu).1.hear hd, (hfor.2 hu).2.hear hd⟩⟩
    | finishing job =>
      rw [htask] at hfor
      exact fun hu => (hfor hu).hear hd

theorem inv_finish (hi : SenderInv s) {s' : SenderState} (h : senderStep s .finish = some s') :
    SenderInv s' := by
  simp only [senderStep] at h
  split at h
  · rename_i job htask
    cases h
    obtain ⟨c, hcaller, hcalling, hq, hsem, hfor⟩ := hi.working htask nofun
    refine ⟨hi.fresh, fun hnone => (nomatch hnone.symm.trans hcaller), fun d hd => ?_, hi.returns⟩
    obtain rfl : c = d := Option.some.inj (hcaller.symm.trans hd)
    exact ⟨hcalling.id, hcalling.busy, hcalling.length,
      .sent hq rfl (by rw [hsem]; rfl) hfor⟩
  · cases h

/-- What `Sender` returns once the task has given `send_paket_sem`. -/
theorem truthful_of_done {c : Call} {error : Bool} {tr : Trace} (h : tr.Done error c c.fragments) :
    Return.Truthful ⟨c, if error then .hardwareError else .ok, tr⟩ ∧
      (Return.Thrice ⟨c, if error then .hardwareError else .ok, tr⟩ ↔
        Return.FewShort ⟨c, if error then .hardwareError else .ok, tr⟩) := by
  refine ⟨⟨fun hok i hi => ?_, fun herror => ?_⟩, ?_⟩
  · cases error with
    | true => cases hok
    | false => exact (h.settled i hi).sent rfl
  · cases error with
    | true => exact h.error rfl
    | false => cases herror
  · exact forall₂_congr fun i hi => (h.settled i hi).tries

theorem inv_wake (hi : SenderInv s) {s' : SenderState} (h : senderStep s .wake = some s') :
    SenderInv s' := by
  simp only [senderStep] at h
  split at h
  · rename_i c hcaller hsem
    cases h
    have hcalling := hi.calling c hcaller
    cases hcalling.phase with
    | queued _ _ hs => cases hs.symm.trans hsem
    | sending _ hs => cases hs.symm.trans hsem
    | sent hq ht _ hdone =>
      refine ⟨hi.fresh, fun _ => ⟨rfl, hq, ht⟩, fun d hd => (nomatch hd), fun r hr hu => ?_⟩
      rcases List.mem_append.mp hr with hr | hr
      · exact hi.returns r hr hu
      · obtain rfl := List.mem_singleton.mp hr
        exact truthful_of_done (hdone hu)
  · cases h

theorem senderStep_inv (s : SenderState) (e : SenderEvent) (s' : SenderState) (hi : SenderInv s)
    (ha : answered s e = true) (h : senderStep s e = some s') : SenderInv s' := by
  cases e with
  | call receiver text =>
    refine inv_call hi receiver text (fun hbusy hr => ?_) h
    simpa [answered, hbusy, hr] using ha
  | dequeue => exact inv_dequeue hi h
  | write complete =>
    refine inv_write hi complete (fun job i counter hcomplete htask hr => ?_) h
    simpa [answered, htask, hcomplete, hr] using ha
  | clear => exact inv_clear hi h
  | packet hd =>
    refine inv_packet hi hd (fun job i counter htask hme => ?_) h
    rcases htask with htask | htask <;> simpa [answered, htask, hme] using ha
  | give =>
    simp only [senderStep] at h
    split at h
    · rename_i hgiving
      cases h
      refine hi.receive s.ackOk true false rfl (fun _ _ _ hdone => hdone) fun c hfor => ?_
      rw [hgiving, Bool.or_true] at hfor
      exact hfor
    · cases h
  | take => exact inv_take hi h
  | ackTimeout => exact inv_ackTimeout hi ha h
  | check => exact inv_check hi h
  | finish => exact inv_finish hi h
  | wake => exact inv_wake hi h
  | giveUp => cases ha

end Step

theorem senderInit_inv (id : UInt8) : SenderInv (senderInit id) where
  fresh _ ha := nomatch ha
  rest _ := ⟨rfl, rfl, rfl⟩
  calling _ hc := nomatch hc
  returns _ hr := nomatch hr

/-- In a run in which every wait is answered, every value that `Sender` returns for a unicast
message is right, and its fragments are tried at most three times unless one is written short for
the third time. -/
theorem sender_truthful (id : UInt8) (es : List SenderEvent) (s : SenderState)
    (hanswered : Runs.Meets senderStep (fun s e => answered s e = true) (senderInit id) es)
    (hrun : senderRun (senderInit id) es = some s) :
    ∀ r ∈ s.returns, r.call.receiver ≠ 255 → r.Truthful ∧ (r.Thrice ↔ r.FewShort) :=
  (Runs.run_invariant_of_meets senderStep_inv (senderInit_inv id) hanswered hrun).returns

def letterA : Text := ⟨[0x41], by decide⟩

/-- The header of the fragment when the letter is the first message from device 1 to device 2. -/
def headA : Header := Message.head ⟨1, 2, .normal, 0, letterA⟩ 0

/-- The first letter is acknowledged; every write of the second is short. -/
def ackedRun : List SenderEvent :=
  [.call 2 letterA, .dequeue, .write true, .clear, .packet headA.echo, .give, .take, .check,
    .finish, .wake, .call 2 letterA, .dequeue, .write false, .write false, .write false,
    .write false, .finish, .wake]

theorem sender_truthful_ack : ∃ s r r', senderRun (senderInit 1) ackedRun = some s ∧
    s.returns = [r, r'] ∧ (r.ret = .ok ∧ r.Truthful ∧ r.Thrice) ∧
    r'.ret = .hardwareError ∧ r'.Truthful := by
  have h := sender_truthful 1 ackedRun _ (by decide +kernel) rfl
  have hr := h _ List.mem_cons_self (by decide)
  have hr' := h _ (List.mem_cons_of_mem _ List.mem_cons_self) (by decide)
  exact ⟨_, _, _, rfl, rfl, ⟨rfl, hr.1, hr.2.mpr (by decide)⟩, rfl, hr'.1⟩

/-- No acknowledgement arrives, and `Sender` returns `RET_OK`. -/
theorem sender_ok_unacked : ∃ s, senderRun (senderInit 1)
      [.call 2 letterA, .dequeue, .write true, .clear, .ackTimeout, .check, .finish, .wake] =
        some s ∧
    ∃ r ∈ s.returns, r.call.receiver = 2 ∧ r.call.text.bytes = [0x41] ∧ r.ret = .ok ∧
      ¬r.trace.Acked r.call.id 0 ∧ ¬r.Truthful :=
  ⟨_, rfl, _, List.mem_singleton_self _, rfl, rfl, rfl, by decide, by decide⟩

end DaliController.Rs485
