import DaliController.Lib.Transit
import DaliController.Rs485.Network

/-! What a line with several stations delivers.  While one message at a time is on its way, every
station gets exactly the messages that others have sent to it or to all, each once and in order,
whatever the tasks do in between: acknowledgements may come at any time or too late, and pings may
be written at any moment. -/

namespace DaliController.Rs485

open CString Pattern Transit

/-! ### What the line carries -/

/-- A header by itself, in which no pattern is found, and neither in the answer to it. -/
structure Bare (bytes : List UInt8) : Prop where
  length : bytes.length = 12
  plain : NoPair 0x23 bytes
  pong : (espLayout.read bytes).paketType = .ping → NoPair 0x23 (pongBytes bytes)

/-- Fragment and acknowledgement are found as they were written.  See `Unambiguous` for what this
means for the fields of the header. -/
structure Clear (pad : Padding) (m : Message) (i : Nat) : Prop where
  fragment : NoPair 0x23 (m.fragment (paddedLayout pad) i ++ [0x23])
  answer : NoPair 0x23 (answerBytes m.receiver (paddedWrite pad (m.head i)))

instance (bytes : List UInt8) : Decidable (Bare bytes) :=
  decidable_of_iff (bytes.length = 12 ∧ NoPair 0x23 bytes ∧
      ((espLayout.read bytes).paketType = .ping → NoPair 0x23 (pongBytes bytes)))
    ⟨fun h => ⟨h.1, h.2.1, h.2.2⟩, fun h => ⟨h.1, h.2, h.3⟩⟩

instance (pad : Padding) (m : Message) (i : Nat) : Decidable (Clear pad m i) :=
  decidable_of_iff (_ ∧ _) ⟨fun h => ⟨h.1, h.2⟩, fun h => ⟨h.1, h.2⟩⟩

theorem read_pongBytes (header : List UInt8) :
    (espLayout.read (pongBytes header)).paketType = .pong := by
  have hflags : ∀ k < 256, ((UInt8.ofNat k &&& 0xF0) ||| 2).toNat % 16 = 2 := by decide +kernel
  have hbyte := hflags (header.getD 4 0).toNat (header.getD 4 0).toNat_lt
  rw [UInt8.ofNat_toNat] at hbyte
  simp only [espLayout, pongBytes, List.getD_cons_succ, List.getD_cons_zero, hbyte]
  rfl

theorem Bare.pongBytes {bytes : List UInt8} (h : Bare bytes)
    (hping : (espLayout.read bytes).paketType = .ping) : Bare (pongBytes bytes) where
  length := by
    have hlen := h.length
    simp [Rs485.pongBytes, hlen]
  plain := h.pong hping
  pong h := by
    rw [read_pongBytes] at h
    cases h

/-- An acknowledgement. -/
theorem Clear.bare {pad : Padding} {m : Message} {i : Nat} (h : Clear pad m i)
    (htype : m.paketType = .normal) :
    Bare (answerBytes m.receiver (paddedWrite pad (m.head i))) where
  length := rfl
  plain := h.answer
  pong hping := by
    have hread : espLayout.read (answerBytes m.receiver (paddedWrite pad (m.head i))) =
        { m.head i with sender := m.receiver, receiver := m.sender } :=
      read_paddedWrite pad { m.head i with sender := m.receiver, receiver := m.sender }
    rw [hread] at hping
    exact absurd (htype.symm.trans hping) (by decide)

/-! ### Hearing -/

section Hear

variable {shl : UInt8 → UInt64} {st : Station}

theorem hear_giving {bytes : List UInt8} {st' : Station} {replies : List (List UInt8)}
    (h : st.hear shl bytes = some (st', replies)) : st.sender.giving = false := by
  unfold Station.hear at h
  split at h
  · cases h
  · rename_i hgiving
    exact Bool.not_eq_true _ ▸ hgiving

/-- What hearing leaves of the sending half. -/
structure SameSending (sd sd' : SenderState) : Prop where
  deviceId : sd'.deviceId = sd.deviceId
  task : sd'.task = sd.task
  queue : sd'.queue = sd.queue
  counter : sd'.paketCounter = sd.paketCounter
  error : sd'.sendPaketError = sd.sendPaketError
  returns : sd'.returns = sd.returns

variable (shl) in
/-- A header by itself reaches the sending half only. -/
theorem hear_bare {bytes : List UInt8} (hgiving : st.sender.giving = false) (h : Bare bytes) :
    ∃ st' replies, st.hear shl bytes = some (st', replies) ∧ st'.device = st.device ∧
      SameSending st.sender st'.sender ∧ ∀ r ∈ replies, Bare r := by
  have hnone : pairPos 0x23 bytes = none := pairPos_eq_none.mpr h.plain
  have hlen : ¬bytes.length < espLayout.size := by
    rw [h.length]
    decide
  have htake : bytes.take espLayout.size = bytes := List.take_of_length_le h.length.le
  simp only [Station.hear, hgiving, Bool.false_eq_true, if_false, hnone, if_neg hlen, htake,
    senderStep, Option.map_some]
  refine ⟨_, _, rfl, rfl, ⟨rfl, rfl, rfl, rfl, rfl, rfl⟩, fun r hr => ?_⟩
  split_ifs at hr with hping
  · obtain rfl := List.mem_singleton.mp hr
    exact h.pongBytes hping.2
  · cases hr

/-- The packet of a fragment is found whole, and its header is what was written. -/
theorem paket_bytes {pad : Padding} {m : Message} {i : Nat}
    (hclear : NoPair 0x23 (m.fragment (paddedLayout pad) i ++ [0x23])) :
    ∃ pos, pairPos 0x23 (m.paket (paddedLayout pad) i) = some pos ∧ pos ≠ 0 ∧
      pos + 2 = (m.paket (paddedLayout pad) i).length ∧
      (m.paket (paddedLayout pad) i).take pos = m.fragment (paddedLayout pad) i ∧
      ∀ rest, (m.fragment (paddedLayout pad) i ++ rest).take espLayout.size =
        paddedWrite pad (m.head i) := by
  have hlen : (m.fragment (paddedLayout pad) i).length = 13 + (m.chunk i).length := by
    rw [Message.fragment, List.length_append, (paddedLayout pad).length_write, List.length_cons]
    exact (Nat.add_comm _ _).trans (by show _ + 1 + 12 = _; omega)
  refine ⟨_, pairPos_append_pair.mpr hclear, by omega, ?_,
    List.take_left' rfl, fun rest => ?_⟩
  · rw [Message.paket, List.length_append]
    rfl
  · rw [Message.fragment, List.append_assoc]
    exact List.take_left' rfl

/-- What a fragment does to the receiving half of a station. -/
structure Fragmented (m : Message) (i : Nat) (d d' : Device) : Prop where
  deviceId : d'.deviceId = d.deviceId
  holds : m.For d.deviceId → Holds m (· < i + 1) d'.decoder
  delivered : d'.delivered = d.delivered ++
    if m.For d.deviceId ∧ i + 1 = m.sayi then [(m.sender, m.text.bytes)] else []

variable (shl) in
theorem patternDet_heard {m : Message} (hm : m.Sendable) (hshort : m.sayi ≤ 31) {i : Nat}
    (hi : i < m.sayi) (pad : Padding) {d : Device}
    (hd : m.For d.deviceId → i ≠ 0 → Holds m (· < i) d.decoder) :
    ∃ d', patternDet espLayout shl d (m.fragment (paddedLayout pad) i) = some d' ∧
      Fragmented m i d d' := by
  have hdet : patternDet espLayout shl d (m.fragment (paddedLayout pad) i) = _ :=
    patternDet_fragment (paddedLayout pad) shl d m i
  rw [hdet]
  by_cases hfor : m.For d.deviceId
  · obtain ⟨d', hdec, hholds⟩ := holds_fragment (paddedLayout pad) shl hm hi (hd hfor)
      (List.replicate (bufSize - (m.fragment (paddedLayout pad) i).length) 0)
    have hholds' : Holds m (· < i + 1) d' := hholds.of_iff fun j => by omega
    rw [if_pos hfor, hdec, Option.map_some]
    refine ⟨_, rfl, ?_⟩
    by_cases hlast : i + 1 = m.sayi
    · have htext := hholds'.text hm fun j hj => by omega
      have hcomplete : Completes m.sayi i := ⟨hlast, hshort⟩
      simp only [Device.deliver, hcomplete, decide_true, if_true]
      refine ⟨rfl, fun _ => hholds', ?_⟩
      rw [if_pos ⟨hfor, hlast⟩, htext]
      rfl
    · have hcomplete : ¬Completes m.sayi i := fun h => hlast h.1
      simp only [Device.deliver, hcomplete, decide_false, Bool.false_eq_true, if_false]
      refine ⟨rfl, fun _ => hholds', ?_⟩
      rw [if_neg fun h => hlast h.2, List.append_nil]
  · rw [if_neg hfor]
    refine ⟨_, rfl, rfl, fun h => absurd h hfor, ?_⟩
    rw [if_neg fun h => hfor h.1, List.append_nil]

variable (shl) in
/-- A fragment reaches the receiving half only, and is acknowledged. -/
theorem hear_fragment {m : Message} (hm : m.Sendable) (hshort : m.sayi ≤ 31)
    (htype : m.paketType = .normal) {i : Nat} (hi : i < m.sayi) {pad : Padding}
    (hclear : Clear pad m i) (hgiving : st.sender.giving = false)
    (hst : m.For st.device.deviceId → i ≠ 0 → Holds m (· < i) st.device.decoder) :
    ∃ st' replies, st.hear shl (m.paket (paddedLayout pad) i) = some (st', replies) ∧
      Fragmented m i st.device st'.device ∧ st'.sender = st.sender ∧ ∀ r ∈ replies, Bare r := by
  obtain ⟨pos, hpos, hne, hend, htake, hheader⟩ := paket_bytes hclear.fragment
  obtain ⟨d', hdet, hd'⟩ := patternDet_heard shl hm hshort hi pad hst
  have hread : espLayout.read (paddedWrite pad (m.head i)) = m.head i := read_paddedWrite pad _
  simp only [Station.hear, hgiving, Bool.false_eq_true, if_false, hpos, hend, ne_eq,
    not_true_eq_false, hne, htake, hheader, hdet, Option.map_some, hread]
  refine ⟨_, _, rfl, hd', rfl, fun r hr => ?_⟩
  split_ifs at hr with hid
  · obtain rfl := List.mem_singleton.mp hr
    have hme : st.device.deviceId = m.receiver := hid.symm
    rw [hme]
    exact hclear.bare htype
  · cases hr

end Hear

/-! ### Sending -/

def Task.isIdle : Task → Bool
  | .idle => true
  | .writing .. | .clearing .. | .waiting .. | .checking .. | .finishing .. => false

theorem Task.isIdle_iff {task : Task} : task.isIdle = true ↔ task = .idle := by
  cases task <;> simp [isIdle]

/-- How far `_sender_task` is with a message when `j` fragments are written. -/
def TaskAt (m : Message) (j : Nat) : Task → Prop
  | .idle => j = m.sayi
  | .writing job i counter => job.message = m ∧ i = j ∧ j < m.sayi ∧ counter = 0
  | .clearing job i counter | .waiting job i counter | .checking job i counter =>
    job.message = m ∧ i + 1 = j ∧ j ≤ m.sayi ∧ counter = 1
  | .finishing job => job.message = m ∧ j = m.sayi

theorem taskAt_next {m : Message} {job : Job} {i : Nat} (hjob : job.message = m)
    (hi : i + 1 ≤ m.sayi) : TaskAt m (i + 1) (job.next i) := by
  unfold Job.next
  rw [hjob]
  split_ifs with hlt
  · exact ⟨hjob, rfl, hlt, rfl⟩
  · exact ⟨hjob, by omega⟩

/-- The message that a call becomes when it is taken from the queue. -/
def SenderState.message (sd : SenderState) (c : Call) : Message :=
  ⟨sd.deviceId, c.receiver, .normal, sd.paketCounter, c.text⟩

/-- A station that has a message to send: the call is in the queue, or `j` fragments are written. -/
inductive Sending (m : Message) : Nat → SenderState → Prop
  | queued {sd : SenderState} {c : Call} (task : sd.task = .idle) (queue : sd.queue = [c])
    (message : sd.message c = m) : Sending m 0 sd
  | working {j : Nat} {sd : SenderState} (task : TaskAt m j sd.task) (queue : sd.queue = []) :
    Sending m j sd

/-- A station that has nothing to send. -/
structure Resting (sd : SenderState) : Prop where
  task : sd.task = .idle
  queue : sd.queue = []

instance (sd : SenderState) : Decidable (Resting sd) :=
  decidable_of_iff (sd.task.isIdle = true ∧ sd.queue.isEmpty = true) (by
    constructor
    · rintro ⟨htask, hqueue⟩
      exact ⟨Task.isIdle_iff.mp htask, List.isEmpty_iff.mp hqueue⟩
    · rintro ⟨htask, hqueue⟩
      exact ⟨Task.isIdle_iff.mpr htask, List.isEmpty_iff.mpr hqueue⟩)

/-- No call has ended with an error. -/
structure Sane (id : UInt8) (st : Station) : Prop where
  sender : st.sender.deviceId = id
  device : st.device.deviceId = id
  error : st.sender.sendPaketError = false
  returns : ∀ r ∈ st.sender.returns, r.ret ≠ .hardwareError

theorem Resting.same {sd sd' : SenderState} (h : Resting sd) (hsame : SameSending sd sd') :
    Resting sd' := ⟨hsame.task.trans h.task, hsame.queue.trans h.queue⟩

theorem Sending.same {m : Message} {j : Nat} {sd sd' : SenderState} (h : Sending m j sd)
    (hsame : SameSending sd sd') : Sending m j sd' := by
  cases h with
  | queued task queue message =>
    refine .queued (hsame.task.trans task) (hsame.queue.trans queue) ?_
    rw [← message, SenderState.message, SenderState.message, hsame.deviceId, hsame.counter]
  | working task queue => exact .working (hsame.task ▸ task) (hsame.queue.trans queue)

theorem Sane.hear {id : UInt8} {st st' : Station} (h : Sane id st)
    (hsame : SameSending st.sender st'.sender)
    (hdevice : st'.device.deviceId = st.device.deviceId) : Sane id st' where
  sender := hsame.deviceId.trans h.sender
  device := hdevice.trans h.device
  error := hsame.error.trans h.error
  returns := hsame.returns ▸ h.returns

/-- What a step of the tasks of a station does, as far as others can see it. -/
structure TaskStep (sd sd' : SenderState) : Prop where
  deviceId : sd'.deviceId = sd.deviceId
  returns : sd.sendPaketError = false →
    ∀ r ∈ sd'.returns, r ∈ sd.returns ∨ r.ret ≠ .hardwareError
  resting : Resting sd → Resting sd' ∧ sd'.sendPaketError = sd.sendPaketError
  sending : ∀ m j, sd.sendPaketError = false → Sending m j sd →
    Sending m j sd' ∧ sd'.sendPaketError = false

theorem TaskStep.of_working {sd sd' : SenderState} (hid : sd'.deviceId = sd.deviceId)
    (hreturns : sd'.returns = sd.returns) (hqueue : sd'.queue = sd.queue)
    (hidle : sd.task ≠ .idle)
    (htask : ∀ m j, TaskAt m j sd.task → TaskAt m j sd'.task ∧
      (sd.sendPaketError = false → sd'.sendPaketError = false)) : TaskStep sd sd' where
  deviceId := hid
  returns _ r hr := .inl (hreturns ▸ hr)
  resting h := absurd h.task hidle
  sending m j herror h := by
    cases h with
    | queued task queue message => exact absurd task hidle
    | working task queue =>
      obtain ⟨hat, hno⟩ := htask m j task
      exact ⟨.working hat (hqueue.trans queue), hno herror⟩

theorem TaskStep.of_same {sd sd' : SenderState} (hid : sd'.deviceId = sd.deviceId)
    (hreturns : sd.sendPaketError = false →
      ∀ r ∈ sd'.returns, r ∈ sd.returns ∨ r.ret ≠ .hardwareError)
    (hqueue : sd'.queue = sd.queue) (htask : sd'.task = sd.task)
    (hcounter : sd'.paketCounter = sd.paketCounter)
    (herror : sd'.sendPaketError = sd.sendPaketError) : TaskStep sd sd' where
  deviceId := hid
  returns := hreturns
  resting h := ⟨⟨htask.trans h.task, hqueue.trans h.queue⟩, herror⟩
  sending m j hno h := by
    refine ⟨?_, herror.trans hno⟩
    cases h with
    | queued task queue message =>
      refine .queued (htask.trans task) (hqueue.trans queue) ?_
      rw [← message, SenderState.message, SenderState.message, hid, hcounter]
    | working task queue => exact .working (htask ▸ task) (hqueue.trans queue)

theorem return_ok {sd : SenderState} {c : Call} (hno : sd.sendPaketError = false) :
    ∀ r ∈ (sd.return c).returns, r ∈ sd.returns ∨ r.ret ≠ .hardwareError := by
  intro r hr
  rcases List.mem_append.mp hr with hr | hr
  · exact .inl hr
  · obtain rfl := List.mem_singleton.mp hr
    refine .inr fun h => ?_
    rw [hno] at h
    cases h

theorem taskStep {sd sd' : SenderState} {e : SenderEvent} (he : e.ofTask = true)
    (h : senderStep sd e = some sd') : TaskStep sd sd' := by
  cases e with
  | call _ _ | write _ | packet _ => cases he
  | dequeue =>
    simp only [senderStep] at h
    split at h
    · rename_i c rest hidle hqueue
      cases h
      refine ⟨rfl, fun _ r hr => .inl hr, fun hr => ?_, fun m j hno hs => ?_⟩
      · rw [hr.queue] at hqueue
        cases hqueue
      · cases hs with
        | queued task queue message =>
          rw [queue] at hqueue
          cases hqueue
          refine ⟨.working ?_ rfl, hno⟩
          dsimp only
          split_ifs with hpos
          · exact ⟨message, rfl, message ▸ hpos, rfl⟩
          · exact ⟨message, by rw [← message]; exact (Nat.eq_zero_of_not_pos hpos).symm⟩
        | working task queue =>
          rw [queue] at hqueue
          cases hqueue
    · cases h
  | clear =>
    simp only [senderStep] at h
    split at h
    · rename_i job i counter htask
      cases h
      exact .of_working rfl rfl rfl (by simp [htask]) fun m j hat => by
        rw [htask] at hat
        exact ⟨hat, id⟩
    · cases h
  | give =>
    obtain ⟨-, heq⟩ := Option.ite_none_right_eq_some.mp h
    cases heq
    exact .of_same rfl (fun _ r hr => .inl hr) rfl rfl rfl rfl
  | take =>
    simp only [senderStep] at h
    split at h
    · rename_i job i counter htask
      obtain ⟨-, heq⟩ := Option.ite_none_right_eq_some.mp h
      cases heq
      exact .of_working rfl rfl rfl (by simp [htask]) fun m j hat => by
        rw [htask] at hat
        exact ⟨hat, id⟩
    · cases h
  | ackTimeout =>
    simp only [senderStep] at h
    split at h
    · rename_i job i counter htask
      obtain ⟨-, heq⟩ := Option.ite_none_left_eq_some.mp h
      cases heq
      exact .of_working rfl rfl rfl (by simp [htask]) fun m j hat => by
        rw [htask] at hat
        exact ⟨hat, id⟩
    · cases h
  | check =>
    simp only [senderStep] at h
    split at h
    · rename_i job i counter htask
      have hnext : ∀ m j, TaskAt m j sd.task → TaskAt m j (job.next i) ∧ counter = 1 := by
        intro m j hat
        rw [htask] at hat
        obtain ⟨hjob, rfl, hle, hcounter⟩ := hat
        exact ⟨taskAt_next hjob hle, hcounter⟩
      have hidle : sd.task ≠ .idle := by simp [htask]
      split_ifs at h with hack
      · cases h
        refine .of_working rfl rfl rfl hidle fun m j hat => ⟨(hnext m j hat).1, fun hno => ?_⟩
        rw [SenderState.sended, (hnext m j hat).2, hno]
        rfl
      · cases h
        exact .of_working rfl rfl rfl hidle fun m j hat => ⟨(hnext m j hat).1, id⟩
    · cases h
  | finish =>
    simp only [senderStep] at h
    split at h
    · rename_i job htask
      cases h
      exact .of_working rfl rfl rfl (by simp [htask]) fun m j hat => by
        rw [htask] at hat
        exact ⟨hat.2, id⟩
    · cases h
  | wake =>
    simp only [senderStep] at h
    split at h
    · cases h
      exact .of_same rfl return_ok rfl rfl rfl rfl
    · cases h
  | giveUp =>
    simp only [senderStep] at h
    split at h
    · cases h
      exact .of_same rfl return_ok rfl rfl rfl rfl
    · cases h

/-- A call that is turned down. -/
theorem taskStep_busy {sd sd' : SenderState} {receiver : UInt8} {text : Text}
    (hbusy : sd.busy = true) (h : senderStep sd (.call receiver text) = some sd') :
    TaskStep sd sd' := by
  simp only [senderStep, hbusy, if_true] at h
  cases h
  refine .of_same rfl (fun _ r hr => ?_) rfl rfl rfl rfl
  rcases List.mem_append.mp hr with hr | hr
  · exact .inl hr
  · obtain rfl := List.mem_singleton.mp hr
    exact .inr fun h => by cases h

/-- A call that is not. -/
theorem call_queued {sd sd' : SenderState} {receiver : UInt8} {text : Text}
    (hfree : sd.busy = false) (hrest : Resting sd)
    (h : senderStep sd (.call receiver text) = some sd') :
    ∃ m, Sending m 0 sd' ∧ m.sender = sd.deviceId ∧ m.receiver = receiver ∧
      m.paketType = .normal ∧ m.text = text ∧ sd'.deviceId = sd.deviceId ∧
      sd'.sendPaketError = false ∧ sd'.returns = sd.returns := by
  simp only [senderStep, hfree, Bool.false_eq_true, if_false, hrest.queue, List.length_nil,
    Nat.zero_lt_succ, if_true, List.nil_append] at h
  cases h
  exact ⟨_, .queued hrest.task rfl rfl, rfl, rfl, rfl, rfl, rfl, rfl, rfl⟩

/-- A fragment is written. -/
theorem write_sending {sd sd' : SenderState} {job : Job} {i counter : Nat}
    (htask : sd.task = .writing job i counter) (h : senderStep sd (.write true) = some sd')
    {m : Message} {j : Nat} (hs : Sending m j sd) (hno : sd.sendPaketError = false) :
    job.message = m ∧ i = j ∧ j < m.sayi ∧ Sending m (j + 1) sd' ∧ sd'.deviceId = sd.deviceId ∧
      sd'.sendPaketError = false ∧ sd'.returns = sd.returns := by
  cases hs with
  | queued task queue message =>
    rw [task] at htask
    cases htask
  | working task queue =>
    rw [htask] at task
    obtain ⟨hjob, rfl, hlt, rfl⟩ := task
    simp only [senderStep, htask, if_true] at h
    split_ifs at h with hreceiver
    · cases h
      exact ⟨hjob, rfl, hlt, .working ⟨hjob, rfl, hlt, rfl⟩ queue, rfl, hno, rfl⟩
    · cases h
      refine ⟨hjob, rfl, hlt, .working (taskAt_next hjob hlt) queue, rfl, ?_, rfl⟩
      rw [SenderState.sended, hno]
      rfl

/-! ### The line -/

/-- A text that is delivered when it arrives whole. -/
def Deliverable (text : Text) : Prop := 1 ≤ text.bytes.length ∧ text.bytes.length ≤ 1550

instance (text : Text) : Decidable (Deliverable text) := inferInstanceAs (Decidable (_ ∧ _))

/-- No station has anything to send, and no fragment is on its way. -/
structure Network.AtRest {n : Nat} (s : Network n) : Prop where
  resting : ∀ i, Resting (s.stations i).sender
  pending : ∀ w ∈ s.pending, pairPos 0x23 w.2 = none

instance {n : Nat} (s : Network n) : Decidable s.AtRest :=
  decidable_of_iff ((∀ i, Resting (s.stations i).sender) ∧
      ∀ w ∈ s.pending, pairPos 0x23 w.2 = none)
    ⟨fun h => ⟨h.1, h.2⟩, fun h => ⟨h.1, h.2⟩⟩

/-- One message at a time: a call is made when the line is at rest, or is turned down.  Nothing that
is written looks like something else. -/
def Orderly {n : Nat} (s : Network n) : NetEvent n → Prop
  | .call k _ text => (s.stations k).sender.busy = true ∨ s.AtRest ∧ Deliverable text
  | .write k pad => ∀ job i counter, (s.stations k).sender.task = .writing job i counter →
    Clear pad job.message i
  | .ping k receiver hd pad =>
    Bare (paddedWrite pad (pingHeader (s.stations k).device.deviceId receiver hd))
  | .task _ _ | .air => True

instance {n : Nat} (s : Network n) : DecidablePred (Orderly s)
  | .call k _ text => inferInstanceAs (Decidable ((s.stations k).sender.busy = true ∨
      s.AtRest ∧ Deliverable text))
  | .write k pad =>
    match htask : (s.stations k).sender.task with
    | .writing job i _ => decidable_of_iff (Clear pad job.message i) (by
        constructor
        · rintro hclear job' i' counter' heq
          rw [htask] at heq
          cases heq
          exact hclear
        · exact fun h => h job i _ htask)
    | .idle | .clearing .. | .waiting .. | .checking .. | .finishing .. =>
      .isTrue fun job i counter heq => by
        rw [htask] at heq
        cases heq
  | .ping k receiver hd pad => inferInstanceAs (Decidable (Bare (paddedWrite pad
      (pingHeader (s.stations k).device.deviceId receiver hd))))
  | .task _ _ | .air => inferInstanceAs (Decidable True)

section Line

variable {n : Nat} (ids : Fin n → UInt8)

/-- What a station is to get: the messages of others for it or for all. -/
def expected (i : Fin n) (accepted : List (Fin n × UInt8 × Text)) : List (UInt8 × List UInt8) :=
  (accepted.filter fun c => decide (c.1 ≠ i ∧ (c.2.1 = ids i ∨ c.2.1 = broadcast))).map fun c =>
    (ids c.1, c.2.2.bytes)

/-- Nothing is on its way. -/
structure Silent (s : Network n) : Prop where
  resting : ∀ i, Resting (s.stations i).sender
  pending : ∀ w ∈ s.pending, Bare w.2
  delivered : ∀ i, (s.stations i).device.delivered = expected ids i s.accepted

/-- A write of station `a` that is fragment `i` of the message. -/
def IsFragment (a : Fin n) (m : Message) (i : Nat) (w : Fin n × List UInt8) : Prop :=
  w.1 = a ∧ i < m.sayi ∧ ∃ pad, Clear pad m i ∧ w.2 = m.paket (paddedLayout pad) i

/-- Station `i` has heard the first `p` fragments of a message of station `a`. -/
structure Heard (a : Fin n) (m : Message) (past : List (Fin n × UInt8 × Text)) (p : Nat)
    (i : Fin n) (d : Device) : Prop where
  holds : i ≠ a → m.For (ids i) → p ≠ 0 → Holds m (· < p) d.decoder
  delivered : d.delivered = expected ids i past ++
    if (i ≠ a ∧ m.For (ids i)) ∧ p = m.sayi then [(m.sender, m.text.bytes)] else []

/-- Station `a` has written `j` fragments of a message, and `p` of them were heard. -/
structure Talking (s : Network n) (a : Fin n) (m : Message) (past : List (Fin n × UInt8 × Text))
    (p j : Nat) : Prop where
  accepted : s.accepted = past ++ [(a, m.receiver, m.text)]
  sender : m.sender = ids a
  type : m.paketType = .normal
  text : Deliverable m.text
  sending : Sending m j (s.stations a).sender
  resting : ∀ i ≠ a, Resting (s.stations i).sender
  pending : Carries (IsFragment a m) (fun w => Bare w.2) p j s.pending
  heard : ∀ i, Heard ids a m past p i (s.stations i).device

/-- What holds of a line at any time. -/
structure NetInv (s : Network n) : Prop where
  sane : ∀ i, Sane (ids i) (s.stations i)
  phase : Silent ids s ∨ ∃ a m past p j, Talking ids s a m past p j

variable {ids} {s : Network n} {a : Fin n} {m : Message} {past : List (Fin n × UInt8 × Text)}
  {p j : Nat}

theorem Talking.sendable (h : Talking ids s a m past p j) : m.Sendable ∧ 0 < m.sayi ∧
    m.sayi ≤ 31 := by
  obtain ⟨hpos, hle⟩ := h.text
  have hm : m.Sendable := ⟨hpos, by omega⟩
  have hsayi := hm.sayi_eq
  exact ⟨hm, by omega, by omega⟩

theorem IsFragment.pairPos {i : Nat} {w : Fin n × List UInt8} (h : IsFragment a m i w) :
    pairPos 0x23 w.2 ≠ none := by
  obtain ⟨-, -, pad, hclear, hw⟩ := h
  obtain ⟨pos, hpos, -⟩ := paket_bytes hclear.fragment
  rw [hw, hpos]
  exact Option.some_ne_none pos

theorem expected_concat (i k : Fin n) (receiver : UInt8) (text : Text) :
    expected ids i (past ++ [(k, receiver, text)]) = expected ids i past ++
      if i ≠ k ∧ (receiver = ids i ∨ receiver = broadcast) then [(ids k, text.bytes)] else [] := by
  have hcomm : (k ≠ i ∧ (receiver = ids i ∨ receiver = broadcast)) ↔
      i ≠ k ∧ (receiver = ids i ∨ receiver = broadcast) := and_congr_left fun _ => ne_comm
  rw [expected, expected, List.filter_append, List.map_append]
  congr 1
  split_ifs with hfor
  · rw [List.filter_cons_of_pos (by exact decide_eq_true (hcomm.mpr hfor))]
    rfl
  · rw [List.filter_cons_of_neg (by exact fun h => hfor (hcomm.mp (of_decide_eq_true h)))]
    rfl

/-- When the message was heard to its end, the stations have got what they were to get. -/
theorem Talking.expected (h : Talking ids s a m past m.sayi j) (i : Fin n) :
    (s.stations i).device.delivered = expected ids i s.accepted := by
  rw [(h.heard i).delivered, h.accepted, expected_concat, h.sender]
  simp only [and_true]
  rfl

/-- A talk is over when the line is at rest. -/
theorem Talking.silent (h : Talking ids s a m past p j) (hrest : s.AtRest) : Silent ids s := by
  have hj : j = m.sayi := by
    have hresting := hrest.resting a
    cases h.sending with
    | queued task queue message =>
      rw [hresting.queue] at queue
      cases queue
    | working task queue =>
      rw [hresting.task] at task
      exact task
  have hp : p = j := h.pending.eq_of_others fun w hw i hi => hi.pairPos (hrest.pending w hw)
  subst hp
  subst hj
  exact ⟨hrest.resting, h.pending.others, h.expected⟩

/-- What was delivered is what was expected, or it lacks the message that is on its way. -/
theorem NetInv.delivered (h : NetInv ids s) (i : Fin n) :
    (s.stations i).device.delivered = expected ids i s.accepted ∨
      ∃ d, (s.stations i).device.delivered ++ [d] = expected ids i s.accepted := by
  rcases h.phase with hsilent | ⟨a, m, past, p, j, h⟩
  · exact .inl (hsilent.delivered i)
  · by_cases hp : p = m.sayi
    · subst hp
      exact .inl (h.expected i)
    · rw [(h.heard i).delivered, h.accepted, expected_concat, if_neg fun hd => hp hd.2,
        List.append_nil]
      split_ifs
      · exact .inr ⟨_, rfl⟩
      · exact .inl (List.append_nil _).symm

/-! ### Steps -/

@[simp] theorem setSender_self (s : Network n) (k : Fin n) (sd : SenderState) :
    ((s.setSender k sd).stations k).sender = sd := by
  simp [Network.setSender]

theorem setSender_of_ne (s : Network n) {k i : Fin n} (hne : i ≠ k) (sd : SenderState) :
    (s.setSender k sd).stations i = s.stations i := by
  simp [Network.setSender, hne]

@[simp] theorem setSender_device (s : Network n) (k i : Fin n) (sd : SenderState) :
    ((s.setSender k sd).stations i).device = (s.stations i).device := by
  by_cases hik : i = k
  · subst hik
    simp [Network.setSender]
  · rw [setSender_of_ne s hik]

/-- A station with a new sending half, in which no call has ended with an error. -/
theorem Sane.setSender (h : ∀ i, Sane (ids i) (s.stations i)) {k : Fin n} {sd : SenderState}
    (hid : sd.deviceId = (s.stations k).sender.deviceId) (herror : sd.sendPaketError = false)
    (hreturns : ∀ r ∈ sd.returns, r ∈ (s.stations k).sender.returns ∨ r.ret ≠ .hardwareError)
    (i : Fin n) : Sane (ids i) ((s.setSender k sd).stations i) := by
  by_cases hik : i = k
  · subst hik
    refine ⟨?_, ?_, ?_, ?_⟩
    · rw [setSender_self, hid, (h i).sender]
    · rw [setSender_device, (h i).device]
    · rw [setSender_self, herror]
    · rw [setSender_self]
      intro r hr
      exact (hreturns r hr).elim ((h i).returns r) id
  · rw [setSender_of_ne s hik]
    exact h i

theorem resting_setSender {k : Fin n} {sd : SenderState} {i : Fin n}
    (h : Resting (s.stations i).sender) (hk : i = k → Resting sd) :
    Resting ((s.setSender k sd).stations i).sender := by
  by_cases hik : i = k
  · subst hik
    rw [setSender_self]
    exact hk rfl
  · rw [setSender_of_ne s hik]
    exact h

theorem NetInv.setSender (h : NetInv ids s) {k : Fin n} {sd : SenderState}
    (hstep : TaskStep (s.stations k).sender sd) : NetInv ids (s.setSender k sd) := by
  have hno := (h.sane k).error
  have hsane (herror : sd.sendPaketError = false) :=
    Sane.setSender h.sane hstep.deviceId herror (hstep.returns hno)
  rcases h.phase with hsilent | ⟨a, m, past, p, j, htalk⟩
  · obtain ⟨hresting, herror⟩ := hstep.resting (hsilent.resting k)
    refine ⟨hsane (herror.trans hno), .inl ⟨fun i => ?_, hsilent.pending, fun i => ?_⟩⟩
    · exact resting_setSender (hsilent.resting i) fun _ => hresting
    · rw [setSender_device]
      exact hsilent.delivered i
  · have hheard : ∀ i, Heard ids a m past p i ((s.setSender k sd).stations i).device := by
      intro i
      rw [setSender_device]
      exact htalk.heard i
    by_cases hka : k = a
    · subst hka
      obtain ⟨hsending, herror⟩ := hstep.sending m j hno htalk.sending
      refine ⟨hsane herror, .inr ⟨k, m, past, p, j, { htalk with
        sending := ?_
        resting := fun i hi => ?_
        heard := hheard }⟩⟩
      · rw [setSender_self]
        exact hsending
      · exact resting_setSender (htalk.resting i hi) fun hik => absurd hik hi
    · obtain ⟨hresting, herror⟩ := hstep.resting (htalk.resting k hka)
      refine ⟨hsane (herror.trans hno), .inr ⟨a, m, past, p, j, { htalk with
        sending := ?_
        resting := fun i hi => ?_
        heard := hheard }⟩⟩
      · rw [setSender_of_ne s (Ne.symm hka)]
        exact htalk.sending
      · exact resting_setSender (htalk.resting i hi) fun _ => hresting

/-- A call that was not turned down starts to talk. -/
theorem netInv_called (h : NetInv ids s) (hrest : s.AtRest) {k : Fin n} {receiver : UInt8}
    {text : Text} (htext : Deliverable text) (hfree : (s.stations k).sender.busy = false)
    {sd : SenderState} (hcall : senderStep (s.stations k).sender (.call receiver text) = some sd) :
    NetInv ids { s.setSender k sd with accepted := s.accepted ++ [(k, receiver, text)] } := by
  have hsilent : Silent ids s := by
    rcases h.phase with hsilent | ⟨a, m, past, p, j, htalk⟩
    · exact hsilent
    · exact htalk.silent hrest
  obtain ⟨m, hsending, hsender, rfl, htype, rfl, hid, herror, hreturns⟩ :=
    call_queued hfree (hsilent.resting k) hcall
  have hpos : 0 ≠ m.sayi := by
    have hsayi := Message.sayi_of_le (m := m) (by obtain ⟨-, hle⟩ := htext; omega)
    obtain ⟨hpos, -⟩ := htext
    omega
  refine ⟨Sane.setSender h.sane hid herror fun r hr => .inl (hreturns ▸ hr),
    .inr ⟨k, m, s.accepted, 0, 0, ?_⟩⟩
  refine ⟨rfl, hsender.trans (h.sane k).sender, htype, htext, ?_, fun i hi => ?_,
    Carries.of_others 0 hsilent.pending, fun i => ⟨fun _ _ h0 => absurd rfl h0, ?_⟩⟩
  · exact (setSender_self s k sd).symm ▸ hsending
  · exact resting_setSender (hsilent.resting i) fun hik => absurd hik hi
  · rw [if_neg fun hd => hpos hd.2, List.append_nil]
    exact (congrArg Device.delivered (setSender_device s k i sd)).trans (hsilent.delivered i)

/-- Only the station that talks can write a fragment. -/
theorem netInv_write (h : NetInv ids s) {k : Fin n} {pad : Padding} {job : Job} {i counter : Nat}
    (htask : (s.stations k).sender.task = .writing job i counter)
    (hclear : Clear pad job.message i) {sd : SenderState}
    (hwrite : senderStep (s.stations k).sender (.write true) = some sd) :
    NetInv ids { s.setSender k sd with
      pending := s.pending ++ [(k, job.message.paket (paddedLayout pad) i)] } := by
  have hidle {i : Fin n} (hr : Resting (s.stations i).sender) : i ≠ k := by
    rintro rfl
    rw [hr.task] at htask
    cases htask
  rcases h.phase with hsilent | ⟨a, m, past, p, j, htalk⟩
  · exact absurd rfl (hidle (hsilent.resting k))
  obtain rfl : k = a := by
    by_contra hka
    exact absurd rfl (hidle (htalk.resting k hka))
  obtain ⟨rfl, rfl, hlt, hsending, hid, herror, hreturns⟩ :=
    write_sending htask hwrite htalk.sending (h.sane k).error
  refine ⟨Sane.setSender h.sane hid herror fun r hr => .inl (hreturns ▸ hr),
    .inr ⟨k, job.message, past, p, i + 1, { htalk with
      sending := ?_
      resting := fun l hl => ?_
      pending := htalk.pending.append_item ⟨rfl, hlt, pad, hclear, rfl⟩
      heard := fun l => ?_ }⟩⟩
  · exact (setSender_self s k sd).symm ▸ hsending
  · exact resting_setSender (htalk.resting l hl) fun hlk => absurd hlk hl
  · exact (setSender_device s k l sd).symm ▸ htalk.heard l

/-- A header by itself may be written at any moment. -/
theorem netInv_bare (h : NetInv ids s) {stations : Fin n → Station} {k : Fin n} {bytes : List UInt8}
    (hbare : Bare bytes) (hsender : ∀ i, (stations i).sender = (s.stations i).sender)
    (hdevice : ∀ i, (stations i).device = (s.stations i).device) :
    NetInv ids { s with stations, pending := s.pending ++ [(k, bytes)] } := by
  have hbares : ∀ w ∈ [(k, bytes)], Bare w.2 := List.forall_mem_singleton.mpr hbare
  refine ⟨fun i => ?_, ?_⟩
  · obtain ⟨hid, hdev, herror, hreturns⟩ := h.sane i
    exact ⟨hsender i ▸ hid, hdevice i ▸ hdev, hsender i ▸ herror, hsender i ▸ hreturns⟩
  · rcases h.phase with hsilent | ⟨a, m, past, p, j, htalk⟩
    · refine .inl ⟨fun i => hsender i ▸ hsilent.resting i, fun w hw => ?_,
        fun i => hdevice i ▸ hsilent.delivered i⟩
      exact (List.mem_append.mp hw).elim (hsilent.pending w) (hbares w)
    · exact .inr ⟨a, m, past, p, j, { htalk with
        sending := hsender a ▸ htalk.sending
        resting := fun i hi => hsender i ▸ htalk.resting i hi
        pending := htalk.pending.append_others hbares
        heard := fun i => hdevice i ▸ htalk.heard i }⟩

/-! ### The air -/

section Air

variable {shl : UInt8 → UInt64}

theorem air_enabled {k : Fin n} {bytes : List UInt8} {rest : List (Fin n × List UInt8)}
    (hpending : s.pending = (k, bytes) :: rest)
    (h : ∀ i ≠ k, ∃ st' replies, (s.stations i).hear shl bytes = some (st', replies)) :
    ∃ s', s.step shl .air = some s' := by
  have hall : ∀ i, (s.heard shl k bytes i).isSome := by
    intro i
    unfold Network.heard
    split_ifs with hik
    · rfl
    · obtain ⟨st', replies, heq⟩ := h i hik
      rw [heq]
      rfl
  simp only [Network.step, hpending, dif_pos hall]
  exact ⟨_, rfl⟩

/-- All that happens when the oldest write is heard. -/
structure Aired (shl : UInt8 → UInt64) (s s' : Network n) (k : Fin n) (bytes : List UInt8)
    (rest answers : List (Fin n × List UInt8)) : Prop where
  pending : s.pending = (k, bytes) :: rest
  accepted : s'.accepted = s.accepted
  pending' : s'.pending = rest ++ answers
  writer : s'.stations k = s.stations k
  others : ∀ i ≠ k, ∃ replies, (s.stations i).hear shl bytes = some (s'.stations i, replies)
  answers : ∀ w ∈ answers, ∃ i ≠ k, ∃ st' replies,
    (s.stations i).hear shl bytes = some (st', replies) ∧ w.2 ∈ replies

theorem aired {s' : Network n} (h : s.step shl .air = some s') :
    ∃ k bytes rest answers, Aired shl s s' k bytes rest answers := by
  simp only [Network.step] at h
  split at h
  · cases h
  · rename_i k bytes rest hpending
    split_ifs at h with hall
    cases h
    refine ⟨k, bytes, rest, _, hpending, rfl, rfl, ?_, fun i hi => ?_, fun w hw => ?_⟩
    · simp [Network.heard]
    · have hheard : s.heard shl k bytes i = (s.stations i).hear shl bytes := if_neg hi
      refine ⟨((s.heard shl k bytes i).get (hall i)).2, ?_⟩
      rw [← hheard]
      exact (Option.some_get (hall i)).symm
    · obtain ⟨i, -, hw⟩ := List.mem_flatMap.mp hw
      obtain ⟨r, hr, rfl⟩ := List.mem_map.mp hw
      by_cases hi : i = k
      · simp [Network.heard, hi] at hr
      · have hheard : s.heard shl k bytes i = (s.stations i).hear shl bytes := if_neg hi
        refine ⟨i, hi, ((s.heard shl k bytes i).get (hall i)).1,
          ((s.heard shl k bytes i).get (hall i)).2, ?_, hr⟩
        rw [← hheard]
        exact (Option.some_get (hall i)).symm

/-- What hearing a write does to the other stations. -/
theorem Aired.others_of {s' : Network n} {k : Fin n} {bytes : List UInt8}
    {rest answers : List (Fin n × List UInt8)} (h : Aired shl s s' k bytes rest answers)
    {P : Fin n → Station → Prop}
    (hP : ∀ i ≠ k, (s.stations i).sender.giving = false → ∃ st' replies,
      (s.stations i).hear shl bytes = some (st', replies) ∧ P i st' ∧ ∀ r ∈ replies, Bare r) :
    (∀ i ≠ k, P i (s'.stations i)) ∧ ∀ w ∈ answers, Bare w.2 := by
  refine ⟨fun i hi => ?_, fun w hw => ?_⟩
  · obtain ⟨replies, heq⟩ := h.others i hi
    obtain ⟨st', replies', heq', hst', -⟩ := hP i hi (hear_giving heq)
    obtain rfl := (Prod.mk.inj (Option.some.inj (heq.symm.trans heq'))).1
    exact hst'
  · obtain ⟨i, hi, st', replies, heq, hr⟩ := h.answers w hw
    obtain ⟨st'', replies', heq', -, hbare⟩ := hP i hi (hear_giving heq)
    obtain rfl := (Prod.mk.inj (Option.some.inj (heq.symm.trans heq'))).2
    exact hbare w.2 hr

theorem netInv_air_bare (h : NetInv ids s) {s' : Network n} {k : Fin n} {bytes : List UInt8}
    {rest answers : List (Fin n × List UInt8)} (haired : Aired shl s s' k bytes rest answers)
    (hbare : Bare bytes) : NetInv ids s' := by
  obtain ⟨hothers, hanswers⟩ := haired.others_of
    (P := fun i st' => st'.device = (s.stations i).device ∧
      SameSending (s.stations i).sender st'.sender) fun i _ hgiving => by
    obtain ⟨st', replies, heq, hdev, hsame, hreplies⟩ := hear_bare shl hgiving hbare
    exact ⟨st', replies, heq, ⟨hdev, hsame⟩, hreplies⟩
  have hall : ∀ i, (s'.stations i).device = (s.stations i).device ∧
      SameSending (s.stations i).sender (s'.stations i).sender := by
    intro i
    by_cases hi : i = k
    · subst hi
      rw [haired.writer]
      exact ⟨rfl, ⟨rfl, rfl, rfl, rfl, rfl, rfl⟩⟩
    · exact hothers i hi
  refine ⟨fun i => ?_, ?_⟩
  · exact (h.sane i).hear (hall i).2 (congrArg Device.deviceId (hall i).1)
  · rcases h.phase with hsilent | ⟨a, m, past, p, j, htalk⟩
    · have hrest : ∀ w ∈ rest, Bare w.2 := fun w hw =>
        hsilent.pending w (haired.pending ▸ List.mem_cons_of_mem _ hw)
      refine .inl ⟨fun i => (hsilent.resting i).same (hall i).2, fun w hw => ?_, fun i => ?_⟩
      · rw [haired.pending'] at hw
        exact (List.mem_append.mp hw).elim (hrest w) (hanswers w)
      · rw [(hall i).1, haired.accepted]
        exact hsilent.delivered i
    · have hcarries := htalk.pending
      rw [haired.pending] at hcarries
      have hrest : Carries (IsFragment a m) (fun w => Bare w.2) p j rest := by
        cases hcarries with
        | other _ h => exact h
        | item hfrag _ => exact absurd (pairPos_eq_none.mpr hbare.plain) hfrag.pairPos
      refine .inr ⟨a, m, past, p, j, { htalk with
        accepted := haired.accepted.trans htalk.accepted
        sending := htalk.sending.same (hall a).2
        resting := fun i hi => (htalk.resting i hi).same (hall i).2
        pending := haired.pending' ▸ hrest.append_others hanswers
        heard := fun i => (hall i).1 ▸ htalk.heard i }⟩

theorem netInv_air_fragment (h : NetInv ids s) {s' : Network n} {k : Fin n} {bytes : List UInt8}
    {rest answers : List (Fin n × List UInt8)} (haired : Aired shl s s' k bytes rest answers)
    (htalk : Talking ids s a m past p j) (hfrag : IsFragment a m p (k, bytes))
    (hrest : Carries (IsFragment a m) (fun w => Bare w.2) (p + 1) j rest) : NetInv ids s' := by
  obtain ⟨rfl, hp, pad, hclear, rfl⟩ := hfrag
  obtain ⟨hm, -, hshort⟩ := htalk.sendable
  obtain ⟨hothers, hanswers⟩ := haired.others_of
    (P := fun i st' => Fragmented m p (s.stations i).device st'.device ∧
      st'.sender = (s.stations i).sender) fun i hi hgiving => by
    have hst : m.For (s.stations i).device.deviceId → p ≠ 0 →
        Holds m (· < p) (s.stations i).device.decoder := by
      rw [(h.sane i).device]
      exact (htalk.heard i).holds hi
    obtain ⟨st', replies, heq, hfragmented, hsender, hreplies⟩ :=
      hear_fragment shl hm hshort htalk.type hp hclear hgiving hst
    exact ⟨st', replies, heq, ⟨hfragmented, hsender⟩, hreplies⟩
  have hsender : ∀ i, (s'.stations i).sender = (s.stations i).sender := by
    intro i
    by_cases hi : i = k
    · rw [hi, haired.writer]
    · exact (hothers i hi).2
  have hid : ∀ i, (s'.stations i).device.deviceId = (s.stations i).device.deviceId := by
    intro i
    by_cases hi : i = k
    · rw [hi, haired.writer]
    · exact (hothers i hi).1.deviceId
  refine ⟨fun i => ?_, .inr ⟨k, m, past, p + 1, j, { htalk with
    accepted := haired.accepted.trans htalk.accepted
    sending := hsender k ▸ htalk.sending
    resting := fun i hi => hsender i ▸ htalk.resting i hi
    pending := haired.pending' ▸ hrest.append_others hanswers
    heard := fun i => ?_ }⟩⟩
  · obtain ⟨hid', hdev, herror, hreturns⟩ := h.sane i
    exact ⟨hsender i ▸ hid', (hid i).trans hdev, hsender i ▸ herror, hsender i ▸ hreturns⟩
  · have hdelivered := (htalk.heard i).delivered
    rw [if_neg fun hd => absurd hd.2 hp.ne, List.append_nil] at hdelivered
    by_cases hi : i = k
    · refine ⟨fun hne => absurd hi hne, ?_⟩
      rw [if_neg fun hd => hd.1.1 hi, List.append_nil, hi, haired.writer, ← hi]
      exact hdelivered
    · obtain ⟨⟨-, hholds, hnew⟩, -⟩ := hothers i hi
      rw [(h.sane i).device] at hholds hnew
      refine ⟨fun _ hfor _ => hholds hfor, ?_⟩
      rw [hnew, hdelivered]
      simp only [hi, ne_eq, not_false_eq_true, true_and]

/-- Unless a station is still giving its semaphore, the oldest write can be heard. -/
theorem NetInv.hears (h : NetInv ids s) (hpending : s.pending ≠ [])
    (hgiving : ∀ i, (s.stations i).sender.giving = false) : ∃ s', s.step shl .air = some s' := by
  obtain ⟨⟨k, bytes⟩, rest, hpending⟩ := List.exists_cons_of_ne_nil hpending
  have hbares (hbare : Bare bytes) : ∃ s', s.step shl .air = some s' := by
    refine air_enabled hpending fun i _ => ?_
    obtain ⟨st', replies, heq, -⟩ := hear_bare shl (hgiving i) hbare
    exact ⟨st', replies, heq⟩
  rcases h.phase with hsilent | ⟨a, m, past, p, j, htalk⟩
  · exact hbares (hsilent.pending (k, bytes) (hpending ▸ List.mem_cons_self))
  · have hcarries := htalk.pending
    rw [hpending] at hcarries
    cases hcarries with
    | other hbare _ => exact hbares hbare
    | item hfrag _ =>
      obtain ⟨rfl, hp, pad, hclear, rfl⟩ := hfrag
      obtain ⟨hm, -, hshort⟩ := htalk.sendable
      refine air_enabled hpending fun i hi => ?_
      have hst : m.For (s.stations i).device.deviceId → p ≠ 0 →
          Holds m (· < p) (s.stations i).device.decoder := by
        rw [(h.sane i).device]
        exact (htalk.heard i).holds hi
      obtain ⟨st', replies, heq, -⟩ :=
        hear_fragment shl hm hshort htalk.type hp hclear (hgiving i) hst
      exact ⟨st', replies, heq⟩

theorem step_inv (s : Network n) (e : NetEvent n) (s' : Network n) (h : NetInv ids s)
    (horderly : Orderly s e) (hstep : s.step shl e = some s') : NetInv ids s' := by
  cases e with
  | call k receiver text =>
    obtain ⟨sd, hcall, rfl⟩ := Option.map_eq_some_iff.mp hstep
    cases hbusy : (s.stations k).sender.busy with
    | true => exact h.setSender (taskStep_busy hbusy hcall)
    | false =>
      rcases horderly with hbusy' | ⟨hrest, htext⟩
      · rw [hbusy] at hbusy'
        cases hbusy'
      · exact netInv_called h hrest htext hbusy hcall
  | write k pad =>
    simp only [Network.step] at hstep
    split at hstep
    · rename_i job i counter htask
      obtain ⟨sd, hwrite, rfl⟩ := Option.map_eq_some_iff.mp hstep
      exact netInv_write h htask (horderly job i counter htask) hwrite
    · cases hstep
  | task k e =>
    obtain ⟨he, heq⟩ := Option.ite_none_right_eq_some.mp hstep
    obtain ⟨sd, htask, rfl⟩ := Option.map_eq_some_iff.mp heq
    exact h.setSender (taskStep he htask)
  | ping k receiver hd pad =>
    cases hstep
    refine netInv_bare h horderly (fun i => ?_) fun i => ?_
    · by_cases hik : i = k
      · subst hik
        rw [Function.update_self]
      · rw [Function.update_of_ne hik]
    · by_cases hik : i = k
      · subst hik
        rw [Function.update_self]
      · rw [Function.update_of_ne hik]
  | air =>
    obtain ⟨k, bytes, rest, answers, haired⟩ := aired hstep
    rcases h.phase with hsilent | ⟨a, m, past, p, j, htalk⟩
    · have hfront : (k, bytes) ∈ s.pending := haired.pending ▸ List.mem_cons_self
      exact netInv_air_bare h haired (hsilent.pending _ hfront)
    · have hcarries := htalk.pending
      rw [haired.pending] at hcarries
      cases hcarries with
      | other hbare _ => exact netInv_air_bare h haired hbare
      | item hfrag hrest => exact netInv_air_fragment h haired htalk hfrag hrest

theorem networkInit_inv (ids : Fin n → UInt8) : NetInv ids (networkInit ids) where
  sane _ := ⟨rfl, rfl, rfl, fun r hr => by cases hr⟩
  phase := by
    refine .inl ⟨fun _ => ⟨rfl, rfl⟩, ?_, fun _ => rfl⟩
    intro w hw
    cases hw

end Air

end Line

/-- The ids 1, 2 and 3. -/
def threeIds (i : Fin 3) : UInt8 := UInt8.ofNat (i.val + 1)

/-- Station 1 sends to station 2, and station 3 sends to all while it is pinged. -/
def twoCalls : List (NetEvent 3) :=
  [.call 0 2 ⟨[0x68, 0x69], by decide⟩, .task 0 .dequeue, .write 0 noPadding, .task 0 .clear, .air,
    .air, .task 0 .give, .task 0 .take, .task 0 .check, .task 0 .finish, .task 0 .wake,
    .call 2 255 ⟨[0x79, 0x6F], by decide⟩, .task 2 .dequeue,
    .ping 1 3 ((letters 1).head 0) noPadding, .write 2 noPadding, .air, .air, .air,
    .task 2 .finish, .task 2 .wake]

end DaliController.Rs485
