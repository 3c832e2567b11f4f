import DaliController.Dali.Receiver

/-! Queries and their replies.  `_send_receive` waits on the binary semaphore `back_sem` and then
reads `gelen`; the alarm interrupt queues completed frames, and `paket_task` stores each in `gelen`
and gives the semaphore.  The three run interleaved.  A reply is fresh when the frame it was read
from completed after the call had sent its own frame.  `back_sem` is not taken back before a query,
so a call returns fresh replies only if it finishes sending with no earlier reply on its way. -/

namespace DaliController.Dali

/-- Where the caller of `_send_receive` is, with the number of frames that had completed when it
finished sending. -/
inductive Caller
  | idle
  | sending
  | waiting (since : Nat)
  | taken (since : Nat)
  deriving DecidableEq, Repr

/-- Where `paket_task` is: at `xQueueReceive`, or with frame `i` stored in `gelen`. -/
inductive PaketTask
  | receiving
  | stored (i : Nat)
  deriving DecidableEq, Repr

/-- A returned `backword_t`.  `origin` is the frame that `gelen` held when its data was read. -/
inductive Answer
  | timeout
  | data (since : Nat) (value : UInt8) (origin : Option Nat)
  deriving DecidableEq, Repr

/-- The shared state.  `completed`, `origin` and `answers` record the run. -/
structure Exchange where
  completed : List PaketQueueElement
  paketQueue : List (Nat × PaketQueueElement)
  task : PaketTask
  gelen : Package
  origin : Option Nat
  backSem : Bool
  caller : Caller
  answers : List Answer
  deriving DecidableEq, Repr

inductive Event
  | complete (gg : PaketQueueElement)
  | store
  | trigger
  | call
  | sent
  | take
  | timeout
  | read
  deriving DecidableEq, Repr

/-- One step.  `complete` is `timer_alarm_cb`, `store` and `trigger` are `paket_task`, the others
are `_send_receive`; it times out only while the semaphore is not given. -/
def exchangeStep (top : TopByte) (s : Exchange) : Event → Option Exchange
  | .complete gg =>
    some { s with
      completed := s.completed ++ [gg]
      paketQueue := if s.paketQueue.length < paketQueueLength
        then s.paketQueue ++ [(s.completed.length, gg)] else s.paketQueue }
  | .store =>
    match s.task, s.paketQueue with
    | .receiving, (i, gg) :: rest =>
      some { s with
        paketQueue := rest
        task := .stored i
        gelen := paketStore top gg
        origin := some i }
    | _, _ => none
  | .trigger =>
    match s.task with
    | .stored _ =>
      match paketTrigger s.gelen with
      | .backSem => some { s with task := .receiving, backSem := true }
      | .callback => some { s with task := .receiving, gelen := Package.ofWord top 0 }
      | .nothing => some { s with task := .receiving }
    | .receiving => none
  | .call => if s.caller = .idle then some { s with caller := .sending } else none
  | .sent =>
    if s.caller = .sending then some { s with caller := .waiting s.completed.length } else none
  | .take =>
    match s.caller with
    | .waiting since =>
      if s.backSem then some { s with caller := .taken since, backSem := false } else none
    | _ => none
  | .timeout =>
    match s.caller with
    | .waiting _ =>
      if s.backSem then none
      else some { s with caller := .idle, answers := s.answers ++ [.timeout] }
    | _ => none
  | .read =>
    match s.caller with
    | .taken since =>
      some { s with
        caller := .idle
        answers := s.answers ++ [.data since s.gelen.data0 s.origin] }
    | _ => none

/-- After `initialize`: nothing received, `back_sem` not given, `gelen` not yet written. -/
def exchangeInit (gelen : Package) : Exchange :=
  ⟨[], [], .receiving, gelen, none, false, .idle, []⟩

abbrev exchangeRun (top : TopByte) (s : Exchange) (es : List Event) : Option Exchange :=
  Runs.run (exchangeStep top) s es

/-- The answer comes from a frame that completed after the call had sent its own. -/
def Answer.Fresh : Answer → Prop
  | .timeout => True
  | .data since _ origin => ∃ i, origin = some i ∧ since ≤ i

/-- A frame that `paket_task` answers with `back_sem`: an 8-bit frame or a collision. -/
def Back (top : TopByte) (gg : PaketQueueElement) : Prop := (paketStore top gg).type = .block8

instance (top : TopByte) (gg : PaketQueueElement) : Decidable (Back top gg) :=
  inferInstanceAs (Decidable (_ = _))

/-- No reply of an earlier frame is on its way to `back_sem`. -/
structure Quiet (top : TopByte) (s : Exchange) : Prop where
  sem : s.backSem = false
  task : ∀ i, s.task = .stored i → s.gelen.type ≠ .block8
  queue : ∀ q ∈ s.paketQueue, ¬Back top q.2

theorem paketTrigger_eq_backSem {g : Package} : paketTrigger g = .backSem ↔ g.type = .block8 := by
  unfold paketTrigger
  cases g.type <;> simp

/-- What a frame leaves in `gelen`: its package, which the callback's caller clears. -/
def Leaves (top : TopByte) (gg : PaketQueueElement) (g : Package) : Prop :=
  g = paketStore top gg ∨ ((paketStore top gg).type = .block16 ∧ g = Package.ofWord top 0)

/-- The answer's data is what a completed frame left in `gelen`. -/
def Answer.Read (top : TopByte) (completed : List PaketQueueElement) : Answer → Prop
  | .timeout => True
  | .data _ value origin => ∃ i gg g, origin = some i ∧ completed[i]? = some gg ∧
      Leaves top gg g ∧ value = g.data0

/-! ### The order in which frames pass through the queue -/

/-- Frames are stored in the order in which they completed, and `origin` says which one `gelen`
holds. -/
structure Ordered (top : TopByte) (s : Exchange) : Prop where
  queued : ∀ q ∈ s.paketQueue, s.completed[q.1]? = some q.2
  sorted : (s.paketQueue.map Prod.fst).Pairwise (· < ·)
  stored : ∀ i, s.origin = some i → ∃ gg, s.completed[i]? = some gg ∧ Leaves top gg s.gelen
  before : ∀ i, s.origin = some i → ∀ q ∈ s.paketQueue, i < q.1
  task : ∀ i, s.task = .stored i →
    s.origin = some i ∧ ∃ gg, s.completed[i]? = some gg ∧ s.gelen = paketStore top gg
  given : s.backSem = true → s.origin ≠ none
  taken : ∀ since, s.caller = .taken since → s.origin ≠ none
  answered : ∀ a ∈ s.answers, a.Read top s.completed

theorem Ordered.stored_lt {top : TopByte} {s : Exchange} (h : Ordered top s) {i : Nat}
    (hi : s.origin = some i) : i < s.completed.length := by
  obtain ⟨gg, hgg, -⟩ := h.stored i hi
  exact (List.getElem?_eq_some_iff.mp hgg).1

theorem Ordered.queued_lt {top : TopByte} {s : Exchange} (h : Ordered top s)
    {q : Nat × PaketQueueElement} (hq : q ∈ s.paketQueue) : q.1 < s.completed.length :=
  (List.getElem?_eq_some_iff.mp (h.queued q hq)).1

theorem ordered_init (top : TopByte) (gelen : Package) : Ordered top (exchangeInit gelen) := by
  constructor <;> simp [exchangeInit]

theorem getElem?_complete {completed : List PaketQueueElement} {i : Nat} {gg : PaketQueueElement}
    (last : PaketQueueElement) (h : completed[i]? = some gg) :
    (completed ++ [last])[i]? = some gg := by
  rw [List.getElem?_append_left (List.getElem?_eq_some_iff.mp h).1, h]

theorem Answer.Read.complete {top : TopByte} {completed : List PaketQueueElement} {a : Answer}
    (h : a.Read top completed) (last : PaketQueueElement) : a.Read top (completed ++ [last]) := by
  cases a with
  | timeout => trivial
  | data since value origin =>
    obtain ⟨i, gg, g, hi, hgg, hg⟩ := h
    exact ⟨i, gg, g, hi, getElem?_complete last hgg, hg⟩

theorem ordered_complete {top : TopByte} {s : Exchange} (h : Ordered top s)
    (gg : PaketQueueElement) (q : List (Nat × PaketQueueElement))
    (hq : q = s.paketQueue ∨ q = s.paketQueue ++ [(s.completed.length, gg)]) :
    Ordered top { s with completed := s.completed ++ [gg], paketQueue := q } := by
  have hmem : ∀ p ∈ q, p ∈ s.paketQueue ∨ p = (s.completed.length, gg) := by
    intro p hp
    rcases hq with rfl | rfl
    · exact Or.inl hp
    · simpa using hp
  constructor
  · intro p hp
    rcases hmem p hp with hp | rfl
    · exact getElem?_complete gg (h.queued p hp)
    · simp
  · rcases hq with rfl | rfl
    · exact h.sorted
    · rw [List.map_append, List.pairwise_append]
      refine ⟨h.sorted, by simp, ?_⟩
      intro a ha b hb
      obtain ⟨p, hp, rfl⟩ := List.mem_map.mp ha
      obtain rfl : b = s.completed.length := by simpa using hb
      exact h.queued_lt hp
  · intro i hi
    obtain ⟨g, hg, hleft⟩ := h.stored i hi
    exact ⟨g, getElem?_complete gg hg, hleft⟩
  · intro i hi p hp
    rcases hmem p hp with hp | rfl
    · exact h.before i hi p hp
    · exact h.stored_lt hi
  · intro i hi
    obtain ⟨horigin, g, hg, hleft⟩ := h.task i hi
    exact ⟨horigin, g, getElem?_complete gg hg, hleft⟩
  · exact h.given
  · exact h.taken
  · intro a ha
    exact (h.answered a ha).complete gg

theorem ordered_store {top : TopByte} {s : Exchange} (h : Ordered top s) {i : Nat}
    {gg : PaketQueueElement} {rest : List (Nat × PaketQueueElement)}
    (hq : s.paketQueue = (i, gg) :: rest) :
    Ordered top { s with
      paketQueue := rest, task := .stored i, gelen := paketStore top gg, origin := some i } := by
  have hsorted := h.sorted
  have hgg := h.queued (i, gg) (by rw [hq]; exact List.mem_cons_self)
  rw [hq, List.map_cons, List.pairwise_cons] at hsorted
  constructor
  · intro p hp
    exact h.queued p (by rw [hq]; exact List.mem_cons_of_mem _ hp)
  · exact hsorted.2
  · rintro j ⟨⟩
    exact ⟨gg, hgg, Or.inl rfl⟩
  · rintro j ⟨⟩ p hp
    exact hsorted.1 p.1 (List.mem_map_of_mem hp)
  · rintro j ⟨⟩
    exact ⟨rfl, gg, hgg, rfl⟩
  · intro _
    simp
  · intro _ _
    simp
  · exact h.answered

theorem ordered_trigger {top : TopByte} {s s' : Exchange} (h : Ordered top s)
    (hs : exchangeStep top s .trigger = some s') : Ordered top s' := by
  simp only [exchangeStep] at hs
  split at hs
  · rename_i i ht
    obtain ⟨horigin, gg, hgg, hgelen⟩ := h.task i ht
    have hne : s.origin ≠ none := by simp [horigin]
    split at hs
    · cases hs
      exact ⟨h.queued, h.sorted, h.stored, h.before, nofun, fun _ => hne, h.taken, h.answered⟩
    · rename_i htrigger
      cases hs
      have htype : (paketStore top gg).type = .block16 := by
        rw [hgelen] at htrigger
        unfold paketTrigger at htrigger
        split at htrigger <;> simp_all
      refine ⟨h.queued, h.sorted, ?_, h.before, nofun, h.given, h.taken, h.answered⟩
      intro j hj
      obtain rfl : i = j := by simpa [horigin] using hj
      exact ⟨gg, hgg, Or.inr ⟨htype, rfl⟩⟩
    · cases hs
      exact ⟨h.queued, h.sorted, h.stored, h.before, nofun, h.given, h.taken, h.answered⟩
  · cases hs

theorem ordered_read {top : TopByte} {s : Exchange} (h : Ordered top s) {since : Nat}
    (hc : s.caller = .taken since) :
    Ordered top { s with
      caller := .idle, answers := s.answers ++ [.data since s.gelen.data0 s.origin] } := by
  refine ⟨h.queued, h.sorted, h.stored, h.before, h.task, h.given, nofun, ?_⟩
  intro a ha
  rcases List.mem_append.mp ha with ha | ha
  · exact h.answered a ha
  · obtain rfl := List.mem_singleton.mp ha
    obtain ⟨i, hi⟩ := Option.ne_none_iff_exists'.mp (h.taken since hc)
    obtain ⟨gg, hgg, hleft⟩ := h.stored i hi
    exact ⟨i, gg, s.gelen, hi, hgg, hleft, rfl⟩

theorem ordered_step (top : TopByte) (s : Exchange) (e : Event) (s' : Exchange)
    (h : Ordered top s) (hs : exchangeStep top s e = some s') : Ordered top s' := by
  cases e with
  | complete gg =>
    simp only [exchangeStep, Option.some.injEq] at hs
    subst hs
    refine ordered_complete h gg _ ?_
    split
    · exact Or.inr rfl
    · exact Or.inl rfl
  | store =>
    simp only [exchangeStep] at hs
    split at hs
    · rename_i i gg rest _ hq
      cases hs
      exact ordered_store h hq
    · cases hs
  | trigger => exact ordered_trigger h hs
  | call | sent =>
    simp only [exchangeStep] at hs
    split at hs
    · cases hs
      exact ⟨h.queued, h.sorted, h.stored, h.before, h.task, h.given, nofun, h.answered⟩
    · cases hs
  | take =>
    simp only [exchangeStep] at hs
    split at hs
    · split at hs
      · rename_i hsem
        cases hs
        exact ⟨h.queued, h.sorted, h.stored, h.before, h.task, nofun, fun _ _ => h.given hsem,
          h.answered⟩
      · cases hs
    · cases hs
  | timeout =>
    simp only [exchangeStep] at hs
    split at hs
    · split at hs
      · cases hs
      · cases hs
        refine ⟨h.queued, h.sorted, h.stored, h.before, h.task, h.given, nofun, ?_⟩
        intro a ha
        rcases List.mem_append.mp ha with ha | ha
        · exact h.answered a ha
        · obtain rfl := List.mem_singleton.mp ha
          trivial
    · cases hs
  | read =>
    simp only [exchangeStep] at hs
    split at hs
    · rename_i since hc
      cases hs
      exact ordered_read h hc
    · cases hs

theorem ordered_run {top : TopByte} {gelen : Package} {es : List Event} {s : Exchange}
    (h : exchangeRun top (exchangeInit gelen) es = some s) : Ordered top s :=
  Runs.run_invariant (ordered_step top) (ordered_init top gelen) h

/-! ### A quiet start of the wait -/

/-- Everything that can still give `back_sem` completed after frame `since`. -/
structure Awaiting (top : TopByte) (s : Exchange) (since : Nat) : Prop where
  le : since ≤ s.completed.length
  sem : s.backSem = true → ∃ i, s.origin = some i ∧ since ≤ i
  task : ∀ i, s.task = .stored i → s.gelen.type = .block8 → since ≤ i
  queue : ∀ q ∈ s.paketQueue, Back top q.2 → since ≤ q.1

structure Clean (top : TopByte) (s : Exchange) : Prop where
  waiting : ∀ since, s.caller = .waiting since → Awaiting top s since
  taken : ∀ since, s.caller = .taken since → ∃ i, s.origin = some i ∧ since ≤ i
  answers : ∀ a ∈ s.answers, a.Fresh

theorem clean_init (top : TopByte) (gelen : Package) : Clean top (exchangeInit gelen) := by
  constructor <;> simp [exchangeInit]

theorem Awaiting.complete {top : TopByte} {s : Exchange} {since : Nat} (h : Awaiting top s since)
    (gg : PaketQueueElement) (q : List (Nat × PaketQueueElement))
    (hq : q = s.paketQueue ∨ q = s.paketQueue ++ [(s.completed.length, gg)]) :
    Awaiting top { s with completed := s.completed ++ [gg], paketQueue := q } since := by
  have hle := h.le
  refine ⟨?_, h.sem, h.task, ?_⟩
  · simp only [List.length_append, List.length_singleton]
    omega
  · intro p hp hback
    rcases hq with rfl | rfl
    · exact h.queue p hp hback
    · rcases List.mem_append.mp hp with hp | hp
      · exact h.queue p hp hback
      · obtain rfl := List.mem_singleton.mp hp
        exact hle

theorem Awaiting.store {top : TopByte} {s : Exchange} {since i : Nat} (h : Awaiting top s since)
    (ho : Ordered top s) {gg : PaketQueueElement} {rest : List (Nat × PaketQueueElement)}
    (hq : s.paketQueue = (i, gg) :: rest) :
    Awaiting top { s with
      paketQueue := rest, task := .stored i, gelen := paketStore top gg, origin := some i }
      since := by
  have hhead : (i, gg) ∈ s.paketQueue := by
    rw [hq]
    exact List.mem_cons_self
  refine ⟨h.le, ?_, ?_, ?_⟩
  · intro hsem
    obtain ⟨j, hj, hle⟩ := h.sem hsem
    have hlt := ho.before j hj (i, gg) hhead
    exact ⟨i, rfl, by simp only at hlt; omega⟩
  · rintro j ⟨⟩ htype
    exact h.queue (i, gg) hhead htype
  · intro p hp hback
    exact h.queue p (by rw [hq]; exact List.mem_cons_of_mem _ hp) hback

theorem awaiting_sent {top : TopByte} {s : Exchange} (h : Quiet top s) :
    Awaiting top s s.completed.length := by
  refine ⟨Nat.le_refl _, ?_, ?_, ?_⟩
  · intro hsem
    rw [h.sem] at hsem
    cases hsem
  · intro i hi htype
    exact absurd htype (h.task i hi)
  · intro q hq hback
    exact absurd hback (h.queue q hq)

theorem clean_store {top : TopByte} {s s' : Exchange} (ho : Ordered top s) (h : Clean top s)
    (hs : exchangeStep top s .store = some s') : Clean top s' := by
  simp only [exchangeStep] at hs
  split at hs
  · rename_i i gg rest _ hq
    cases hs
    refine ⟨fun since hw => (h.waiting since hw).store ho hq, ?_, h.answers⟩
    intro since ht
    obtain ⟨j, hj, hle⟩ := h.taken since ht
    have hlt := ho.before j hj (i, gg) (by rw [hq]; exact List.mem_cons_self)
    exact ⟨i, rfl, by simp only at hlt; omega⟩
  · cases hs

theorem clean_trigger {top : TopByte} {s s' : Exchange} (ho : Ordered top s) (h : Clean top s)
    (hs : exchangeStep top s .trigger = some s') : Clean top s' := by
  simp only [exchangeStep] at hs
  split at hs
  · rename_i i ht
    split at hs
    · rename_i htrigger
      cases hs
      refine ⟨fun since hw => ?_, h.taken, h.answers⟩
      have hwait := h.waiting since hw
      refine ⟨hwait.le, fun _ => ?_, nofun, hwait.queue⟩
      exact ⟨i, (ho.task i ht).1, hwait.task i ht (paketTrigger_eq_backSem.mp htrigger)⟩
    · cases hs
      refine ⟨fun since hw => ?_, h.taken, h.answers⟩
      have hwait := h.waiting since hw
      exact ⟨hwait.le, hwait.sem, nofun, hwait.queue⟩
    · cases hs
      refine ⟨fun since hw => ?_, h.taken, h.answers⟩
      have hwait := h.waiting since hw
      exact ⟨hwait.le, hwait.sem, nofun, hwait.queue⟩
  · cases hs

theorem clean_step (top : TopByte) (s : Exchange) (e : Event) (s' : Exchange)
    (h : Ordered top s ∧ Clean top s) (hq : e = .sent → Quiet top s)
    (hs : exchangeStep top s e = some s') : Ordered top s' ∧ Clean top s' := by
  refine ⟨ordered_step top s e s' h.1 hs, ?_⟩
  obtain ⟨ho, h⟩ := h
  cases e with
  | complete gg =>
    simp only [exchangeStep, Option.some.injEq] at hs
    subst hs
    refine ⟨fun since hw => (h.waiting since hw).complete gg _ ?_, h.taken, h.answers⟩
    split
    · exact Or.inr rfl
    · exact Or.inl rfl
  | store => exact clean_store ho h hs
  | trigger => exact clean_trigger ho h hs
  | call =>
    simp only [exchangeStep] at hs
    split at hs <;> cases hs
    exact ⟨nofun, nofun, h.answers⟩
  | sent =>
    simp only [exchangeStep] at hs
    split at hs <;> cases hs
    refine ⟨?_, nofun, h.answers⟩
    rintro since ⟨⟩
    have hwait := awaiting_sent (hq rfl)
    exact ⟨hwait.le, hwait.sem, hwait.task, hwait.queue⟩
  | take =>
    simp only [exchangeStep] at hs
    split at hs
    · rename_i since hw
      split at hs
      · rename_i hsem
        cases hs
        refine ⟨nofun, ?_, h.answers⟩
        rintro t ⟨⟩
        exact (h.waiting since hw).sem hsem
      · cases hs
    · cases hs
  | timeout =>
    simp only [exchangeStep] at hs
    split at hs
    · split at hs <;> cases hs
      refine ⟨nofun, nofun, ?_⟩
      intro a ha
      rcases List.mem_append.mp ha with ha | ha
      · exact h.answers a ha
      · obtain rfl := List.mem_singleton.mp ha
        trivial
    · cases hs
  | read =>
    simp only [exchangeStep] at hs
    split at hs
    · rename_i since hc
      cases hs
      refine ⟨nofun, nofun, ?_⟩
      intro a ha
      rcases List.mem_append.mp ha with ha | ha
      · exact h.answers a ha
      · obtain rfl := List.mem_singleton.mp ha
        exact h.taken since hc
    · cases hs

/-! ### A stale reply -/

/-- The call that is waiting returns the data of a frame that completed before. -/
def StaleFrom (top : TopByte) (s : Exchange) : Prop :=
  ∃ es s' a, exchangeRun top s es = some s' ∧ s'.answers = s.answers ++ [a] ∧ ¬a.Fresh

theorem staleFrom_step {top : TopByte} {s t : Exchange} {e : Event}
    (hs : exchangeStep top s e = some t) (ha : t.answers = s.answers) (h : StaleFrom top t) :
    StaleFrom top s := by
  obtain ⟨es, s', a, hrun, hans, hstale⟩ := h
  refine ⟨e :: es, s', a, ?_, by rw [hans, ha], hstale⟩
  rw [exchangeRun, Runs.run_cons, hs, Option.bind_some]
  exact hrun

/-- With the semaphore given, the wait ends at once. -/
theorem stale_of_given {top : TopByte} {s : Exchange} {since i : Nat}
    (hw : s.caller = .waiting since) (hsem : s.backSem = true) (hi : s.origin = some i)
    (hlt : i < since) : StaleFrom top s := by
  have htake : exchangeStep top s .take =
      some { s with caller := .taken since, backSem := false } := by
    simp only [exchangeStep, hw, hsem, if_true]
  refine staleFrom_step htake rfl
    ⟨[.read], _, .data since s.gelen.data0 s.origin, rfl, rfl, ?_⟩
  rintro ⟨j, hj, hle⟩
  rw [hi] at hj
  cases hj
  omega

/-- With a reply stored but not yet triggered, the trigger gives the semaphore. -/
theorem stale_of_stored {top : TopByte} {s : Exchange} {since i : Nat}
    (hw : s.caller = .waiting since) (ht : s.task = .stored i) (htype : s.gelen.type = .block8)
    (hi : s.origin = some i) (hlt : i < since) : StaleFrom top s := by
  have hstep : exchangeStep top s .trigger =
      some { s with task := .receiving, backSem := true } := by
    simp only [exchangeStep, ht, paketTrigger_eq_backSem.mpr htype]
  exact staleFrom_step hstep rfl (stale_of_given hw rfl hi hlt)

/-- The trigger of a frame that is no reply leads back to the queue. -/
theorem trigger_other {top : TopByte} {s : Exchange} {i : Nat} (ht : s.task = .stored i)
    (htype : s.gelen.type ≠ .block8) :
    ∃ t, exchangeStep top s .trigger = some t ∧ t.task = .receiving ∧
      t.paketQueue = s.paketQueue ∧ t.caller = s.caller ∧ t.answers = s.answers := by
  cases htrigger : paketTrigger s.gelen with
  | backSem => exact absurd (paketTrigger_eq_backSem.mp htrigger) htype
  | callback => exact ⟨{ s with task := .receiving, gelen := Package.ofWord top 0 },
      by simp only [exchangeStep, ht, htrigger], rfl, rfl, rfl, rfl⟩
  | nothing => exact ⟨{ s with task := .receiving },
      by simp only [exchangeStep, ht, htrigger], rfl, rfl, rfl, rfl⟩

theorem stale_of_queue {top : TopByte} {since : Nat} (q : List (Nat × PaketQueueElement))
    {s : Exchange} (hs : s.paketQueue = q) (hw : s.caller = .waiting since)
    (ht : s.task = .receiving) (hlt : ∀ p ∈ q, p.1 < since) (hback : ∃ p ∈ q, Back top p.2) :
    StaleFrom top s := by
  induction q generalizing s with
  | nil =>
    obtain ⟨p, hp, -⟩ := hback
    cases hp
  | cons head rest ih =>
    obtain ⟨i, gg⟩ := head
    have hi : i < since := hlt (i, gg) List.mem_cons_self
    have hstore : exchangeStep top s .store = some { s with
        paketQueue := rest, task := .stored i, gelen := paketStore top gg, origin := some i } := by
      simp only [exchangeStep, ht, hs]
    refine staleFrom_step hstore rfl ?_
    by_cases hhead : Back top gg
    · exact stale_of_stored hw rfl hhead rfl hi
    · have hrest : ∃ p ∈ rest, Back top p.2 := by
        obtain ⟨p, hp, hpb⟩ := hback
        rcases List.mem_cons.mp hp with rfl | hp
        · exact absurd hpb hhead
        · exact ⟨p, hp, hpb⟩
      obtain ⟨t, hstep, htask, hqueue, hcaller, hans⟩ := trigger_other (s := { s with
        paketQueue := rest, task := .stored i, gelen := paketStore top gg, origin := some i })
        rfl hhead
      exact staleFrom_step hstep hans (ih hqueue (hcaller.trans hw) htask
        (fun p hp => hlt p (List.mem_cons_of_mem _ hp)) hrest)

/-- A wait that starts with an earlier reply on its way can return that reply. -/
theorem stale_of_waiting {top : TopByte} {s : Exchange} (ho : Ordered top s)
    (hw : s.caller = .waiting s.completed.length) (hq : ¬Quiet top s) : StaleFrom top s := by
  by_cases hsem : s.backSem = true
  · obtain ⟨i, hi⟩ := Option.ne_none_iff_exists'.mp (ho.given hsem)
    exact stale_of_given hw hsem hi (ho.stored_lt hi)
  by_cases hstored : ∃ i, s.task = .stored i ∧ s.gelen.type = .block8
  · obtain ⟨i, ht, htype⟩ := hstored
    have hi := (ho.task i ht).1
    exact stale_of_stored hw ht htype hi (ho.stored_lt hi)
  have hback : ∃ p ∈ s.paketQueue, Back top p.2 := by
    by_contra hnone
    refine hq ⟨by simpa using hsem, fun i hi htype => hstored ⟨i, hi, htype⟩, ?_⟩
    exact fun p hp hb => hnone ⟨p, hp, hb⟩
  have hlt : ∀ p ∈ s.paketQueue, p.1 < s.completed.length := fun p hp => ho.queued_lt hp
  cases ht : s.task with
  | receiving => exact stale_of_queue s.paketQueue rfl hw ht hlt hback
  | stored i =>
    have htype : s.gelen.type ≠ .block8 := fun h => hstored ⟨i, ht, h⟩
    obtain ⟨t, hstep, htask, hqueue, hcaller, hans⟩ := trigger_other ht htype
    exact staleFrom_step hstep hans
      (stale_of_queue s.paketQueue hqueue (hcaller.trans hw) htask hlt hback)

theorem stale_of_not_quiet {top : TopByte} {s : Exchange} (ho : Ordered top s)
    (hc : s.caller = .sending) (hq : ¬Quiet top s) :
    ∃ es s' a, exchangeRun top s (.sent :: es) = some s' ∧ s'.answers = s.answers ++ [a] ∧
      ¬a.Fresh := by
  have hsent : exchangeStep top s .sent =
      some { s with caller := .waiting s.completed.length } := by
    simp only [exchangeStep, hc, if_true]
  have ho' := ordered_step top s .sent _ ho hsent
  obtain ⟨es, s', a, hrun, hans, hstale⟩ := stale_of_waiting ho' rfl fun h =>
    hq ⟨h.sem, h.task, h.queue⟩
  refine ⟨es, s', a, ?_, hans, hstale⟩
  rw [exchangeRun, Runs.run_cons, hsent, Option.bind_some]
  exact hrun

/-- In every run whose calls finish sending with no earlier reply on its way, every returned reply
comes from a frame that completed after its call had sent.  Where a call finishes sending otherwise,
it can return the earlier reply. -/
theorem reply_fresh (top : TopByte) (gelen : Package) {es : List Event} {s : Exchange}
    (hrun : exchangeRun top (exchangeInit gelen) es = some s) :
    (Runs.Meets (exchangeStep top) (fun s e => e = .sent → Quiet top s) (exchangeInit gelen) es →
      ∀ a ∈ s.answers, a.Fresh ∧ a.Read top s.completed) ∧
    (s.caller = .sending → ¬Quiet top s →
      ∃ es' s' a, exchangeRun top s (.sent :: es') = some s' ∧ s'.answers = s.answers ++ [a] ∧
        ¬a.Fresh) := by
  have ho := ordered_run hrun
  refine ⟨fun hmeets a ha => ?_, stale_of_not_quiet ho⟩
  have hclean := Runs.run_invariant_of_meets (clean_step top)
    ⟨ordered_init top gelen, clean_init top gelen⟩ hmeets hrun
  exact ⟨hclean.2.answers a ha, ho.answered a ha⟩

/-- A query whose reply 0x2A arrives in time. -/
def promptReply : List Event :=
  [.call, .sent, .complete ⟨16, 0x2A⟩, .store, .trigger, .take, .read]

theorem reply_fresh_prompt : ∃ s,
    exchangeRun nibbleTop (exchangeInit ⟨0, 0, 0, .block8, 0⟩) promptReply = some s ∧
      s.answers = [.data 0 0x2A (some 0)] ∧
      ∀ a ∈ s.answers, a.Fresh ∧ a.Read nibbleTop s.completed := by
  have hrun : exchangeRun nibbleTop (exchangeInit ⟨0, 0, 0, .block8, 0⟩) promptReply = some _ := rfl
  refine ⟨_, hrun, by decide, (reply_fresh nibbleTop ⟨0, 0, 0, .block8, 0⟩ hrun).1 ?_⟩
  refine ⟨nofun, fun s hs => ⟨fun _ => ?_, fun _ _ => ?_⟩⟩
  · cases hs
    exact ⟨rfl, nofun, nofun⟩
  · exact ⟨nofun, fun _ _ => ⟨nofun, fun _ _ => ⟨nofun, fun _ _ => ⟨nofun, fun _ _ =>
      ⟨nofun, fun _ _ => trivial⟩⟩⟩⟩⟩

/-- A query that times out, its reply 0x2A after the timeout, and a second query. -/
def lateReply : List Event :=
  [.call, .sent, .timeout, .complete ⟨16, 0x2A⟩, .store, .trigger, .call, .sent, .take, .read]

/-- The second query returns the reply to the first. -/
theorem reply_stale : ¬∀ s,
    exchangeRun nibbleTop (exchangeInit ⟨0, 0, 0, .block8, 0⟩) lateReply = some s →
      ∀ a ∈ s.answers, a.Fresh := by
  intro h
  obtain ⟨i, hi, hle⟩ := h _ rfl (.data 1 0x2A (some 0)) (by decide)
  cases hi
  omega

end DaliController.Dali
