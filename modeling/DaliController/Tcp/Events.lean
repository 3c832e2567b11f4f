import DaliController.Lib.Runs
import DaliController.Lib.Table
import DaliController.Tcp.Framing

/-! From `data_transmit` to `tcp_handler`.  An event holds a pointer into the connection's only
`rx_buffer`, and the handler reads the text when its turn comes.  If the next chunk arrives while an
event waits, the handler finds the new chunk, in a block made for the length of the old one. -/

namespace DaliController.Tcp

open CString Segments Table

/-- Where `data_transmit` is in its loop. -/
inductive TransmitStage
  | receiving
  | posting (c : Chunk)
  | pausing
  | closed

/-- A connection, with its `rx_buffer`. -/
structure Transmission where
  rxBuffer : List UInt8
  stage : TransmitStage

/-- `tcp_events_data_t`: the connection stands for the pointer into its buffer.  `bytes` is what was
received for the event. -/
structure TcpEventsData where
  conn : Nat
  dataLen : Nat
  bytes : List UInt8

/-- The event loop: waiting for an event, about to copy the text of one, or in `data_parse`. -/
inductive EventTask
  | idle
  | taken (ev : TcpEventsData)
  | parsing

/-- A handled event, with the text that was copied. -/
structure Handled where
  dataLen : Nat
  bytes : List UInt8
  copy : Option (List UInt8)

structure EventLoop where
  conns : List Transmission
  queue : List TcpEventsData
  task : EventTask
  posted : List (List UInt8)
  handled : List Handled

def eventLoopInit : EventLoop := ⟨[], [], .idle, [], []⟩

inductive LoopEvent
  | connect (block : List UInt8)
  | recv (i : Nat) (c : Chunk)
  | hangup (i : Nat)
  | post (i : Nat)
  | resume (i : Nat)
  | take
  | copy (freed : List UInt8)
  | done

/-- `recv` into the buffer, and the NUL behind the bytes. -/
def fill (buf : List UInt8) (c : Chunk) : List UInt8 :=
  c.bytes ++ 0 :: buf.drop (c.bytes.length + 1)

/-- What `tcp_handler` or `dali_port` copies from `data`, if it copies anything. -/
def handlerCopy (data : List UInt8) : Option (List UInt8) :=
  if data.head? = some 0x7B then some (cstring data) else none

def EventLoop.setConn (s : EventLoop) (i : Nat) (t : Transmission) : EventLoop :=
  { s with conns := s.conns.set i t }

/-- A step of connection `i` or of the event loop.  A new buffer may hold anything, and so may a
buffer that was freed. -/
def loopStep (s : EventLoop) : LoopEvent → Option EventLoop
  | .connect block => some { s with conns := s.conns ++ [⟨block, .receiving⟩] }
  | .recv i c =>
    match s.conns[i]? with
    | some ⟨buf, .receiving⟩ =>
      -- a chunk with `ping` in it is answered here
      some (s.setConn i ⟨fill buf c, if ping <:+: cstring c.bytes then .receiving else .posting c⟩)
    | _ => none
  | .hangup i =>
    match s.conns[i]? with
    | some ⟨buf, .receiving⟩ => some (s.setConn i ⟨buf, .closed⟩)
    | _ => none
  | .post i =>
    match s.conns[i]? with
    | some ⟨buf, .posting c⟩ => some { s.setConn i ⟨buf, .pausing⟩ with
        queue := s.queue ++ [⟨i, c.bytes.length, c.bytes⟩], posted := s.posted ++ [c.bytes] }
    | _ => none
  | .resume i =>
    match s.conns[i]? with
    | some ⟨buf, .pausing⟩ => some (s.setConn i ⟨buf, .receiving⟩)
    | _ => none
  | .take =>
    match s.task, s.queue with
    | .idle, ev :: queue => some { s with queue := queue, task := .taken ev }
    | _, _ => none
  | .copy freed =>
    match s.task with
    | .taken ev =>
      let data := match s.conns[ev.conn]? with
        | none | some ⟨_, .closed⟩ => freed
        | some ⟨buf, _⟩ => buf
      some { s with
        task := .parsing
        handled := s.handled ++ [⟨ev.dataLen, ev.bytes, handlerCopy data⟩] }
    | _ => none
  | .done =>
    match s.task with
    | .parsing => some { s with task := .idle }
    | _ => none

/-- The text that an event for `bytes` is to be handled with.  Nothing is copied if it does not
begin with a brace. -/
def textOf (bytes : List UInt8) : Option (List UInt8) :=
  if bytes.head? = some 0x7B then some bytes else none

/-- The copied text is the one that was received, and it fits, with its NUL, in a block of
`data_len + 1` bytes. -/
structure Handled.Right (h : Handled) : Prop where
  text : h.copy = textOf h.bytes
  nul_free : ∀ t ∈ h.copy, 0 ∉ t
  fits : ∀ t ∈ h.copy, t.length + 1 ≤ h.dataLen + 1

/-- The events whose text is still to be copied, the oldest first. -/
def EventLoop.waiting (s : EventLoop) : List TcpEventsData :=
  match s.task with
  | .taken ev => ev :: s.queue
  | .idle | .parsing => s.queue

/-- A connection receives or ends only when the texts of its events have been copied, or when the
new chunk leaves the same text for them.  A chunk that is handled has no NUL in it. -/
def Unhurried (s : EventLoop) : LoopEvent → Prop
  | .recv i c => (ping <:+: cstring c.bytes ∨ c.bytes.head? ≠ some 0x7B ∨ 0 ∉ c.bytes) ∧
      ∀ ev ∈ s.waiting, ev.conn = i → textOf (cstring c.bytes) = textOf ev.bytes
  | .hangup i => ∀ ev ∈ s.waiting, ev.conn ≠ i
  | _ => True

instance (s : EventLoop) : ∀ e, Decidable (Unhurried s e)
  | .recv _ _ => inferInstanceAs (Decidable (_ ∧ _))
  | .hangup _ => inferInstanceAs (Decidable (∀ ev ∈ s.waiting, _))
  | .connect _ | .post _ | .resume _ | .take | .copy _ | .done => inferInstanceAs (Decidable True)

/-! ### Texts -/

/-- The handler finds the text of the chunk received last. -/
theorem handlerCopy_fill (buf : List UInt8) (c : Chunk) :
    handlerCopy (fill buf c) = textOf (cstring c.bytes) := by
  have hhead : (fill buf c).head? = c.bytes.head? := List.head?_append_of_ne_nil _ c.ne
  have hbrace := @head?_cstring c.bytes 0x7B (by decide)
  unfold handlerCopy textOf
  rw [hhead, fill, cstring_append_nul]
  by_cases h : c.bytes.head? = some 0x7B
  · rw [if_pos h, if_pos (hbrace.mpr h)]
  · rw [if_neg h, if_neg fun he => h (hbrace.mp he)]

theorem textOf_cstring {bytes : List UInt8} (h : bytes.head? ≠ some 0x7B ∨ 0 ∉ bytes) :
    textOf (cstring bytes) = textOf bytes := by
  rcases h with h | h
  · have hbrace := @head?_cstring bytes 0x7B (by decide)
    rw [textOf, textOf, if_neg h, if_neg fun he => h (hbrace.mp he)]
  · rw [cstring_eq_self h]

theorem nul_free_handlerCopy (data : List UInt8) : ∀ t ∈ handlerCopy data, 0 ∉ t := by
  intro t ht
  rw [handlerCopy] at ht
  split at ht
  · obtain rfl := Option.some.inj ht
    exact zero_not_mem_cstring data
  · cases ht

/-- The handler copies from the buffer what an event for `bytes` is to be handled with. -/
structure Transmission.Holds (t : Transmission) (bytes : List UInt8) : Prop where
  live : t.stage ≠ .closed
  text : handlerCopy t.rxBuffer = textOf bytes

def Held (conns : List Transmission) (ev : TcpEventsData) : Prop :=
  ev.dataLen = ev.bytes.length ∧ ∃ t, conns[ev.conn]? = some t ∧ t.Holds ev.bytes

/-- Each waiting event finds its text, and the others were handled with theirs, in order. -/
structure Sound (s : EventLoop) : Prop where
  held : ∀ ev ∈ s.waiting, Held s.conns ev
  posting : ∀ (i : Nat) (buf : List UInt8) (c : Chunk), s.conns[i]? = some ⟨buf, .posting c⟩ →
    handlerCopy buf = textOf c.bytes
  right : ∀ h ∈ s.handled, h.Right
  order : s.posted = s.handled.map Handled.bytes ++ s.waiting.map TcpEventsData.bytes

/-- A connection that still holds the texts of its waiting events. -/
theorem held_set {conns : List Transmission} {evs : List TcpEventsData} {i : Nat}
    {t t' : Transmission} (h : ∀ ev ∈ evs, Held conns ev) (ht : conns[i]? = some t)
    (hnew : ∀ ev ∈ evs, ev.conn = i → t.Holds ev.bytes → t'.Holds ev.bytes) :
    ∀ ev ∈ evs, Held (conns.set i t') ev := by
  intro ev hev
  obtain ⟨hlen, u, hu, hholds⟩ := h ev hev
  refine ⟨hlen, ?_⟩
  by_cases hi : ev.conn = i
  · rw [hi, ht] at hu
    obtain rfl := Option.some.inj hu
    refine ⟨t', ?_, hnew ev hev hi hholds⟩
    rw [hi, List.getElem?_set_self (List.getElem?_eq_some_iff.mp ht).1]
  · exact ⟨u, by rw [List.getElem?_set_ne (Ne.symm hi), hu], hholds⟩

theorem posting_set {s : EventLoop} (h : Sound s) {i : Nat} {t' : Transmission}
    (hnew : ∀ c, t'.stage = .posting c → handlerCopy t'.rxBuffer = textOf c.bytes) (j : Nat)
    (buf : List UInt8) (c : Chunk) (hj : (s.conns.set i t')[j]? = some ⟨buf, .posting c⟩) :
    handlerCopy buf = textOf c.bytes := by
  obtain ⟨-, rfl⟩ | ⟨-, hj⟩ := set_cases hj
  · exact hnew c rfl
  · exact h.posting j buf c hj

/-- Moving the oldest event from the queue to the handler changes nothing that matters. -/
theorem Sound.congr {s s' : EventLoop} (h : Sound s) (hwaiting : s'.waiting = s.waiting)
    (hconns : s'.conns = s.conns) (hposted : s'.posted = s.posted)
    (hhandled : s'.handled = s.handled) : Sound s' where
  held := by
    rw [hwaiting, hconns]
    exact h.held
  posting := by
    rw [hconns]
    exact h.posting
  right := by
    rw [hhandled]
    exact h.right
  order := by
    rw [hwaiting, hposted, hhandled]
    exact h.order

/-- A connection that goes on, while the event loop rests. -/
theorem Sound.setConn {s : EventLoop} (h : Sound s) {i : Nat} {t t' : Transmission}
    (ht : s.conns[i]? = some t)
    (hnew : ∀ ev ∈ s.waiting, ev.conn = i → t.Holds ev.bytes → t'.Holds ev.bytes)
    (hposting : ∀ c, t'.stage = .posting c → handlerCopy t'.rxBuffer = textOf c.bytes) :
    Sound (s.setConn i t') where
  held := held_set h.held ht hnew
  posting := posting_set h hposting
  right := h.right
  order := h.order

theorem sound_recv {s : EventLoop} (h : Sound s) {i : Nat} {c : Chunk} {buf : List UInt8}
    (ht : s.conns[i]? = some ⟨buf, .receiving⟩) (hC : Unhurried s (.recv i c)) :
    Sound (s.setConn i
      ⟨fill buf c, if ping <:+: cstring c.bytes then .receiving else .posting c⟩) := by
  refine h.setConn ht ?_ ?_
  · intro ev hev hi _
    refine ⟨?_, ?_⟩
    · show (if ping <:+: cstring c.bytes then TransmitStage.receiving else .posting c) ≠ .closed
      split <;> exact nofun
    · rw [handlerCopy_fill]
      exact hC.2 ev hev hi
  · intro d hd
    change (if ping <:+: cstring c.bytes then TransmitStage.receiving else .posting c) = _ at hd
    split at hd
    · cases hd
    · rename_i hping
      cases hd
      rw [handlerCopy_fill]
      exact textOf_cstring (hC.1.resolve_left hping)

/-- The new event finds its text in the buffer. -/
theorem sound_post {s : EventLoop} (h : Sound s) {i : Nat} {c : Chunk} {buf : List UInt8}
    (ht : s.conns[i]? = some ⟨buf, .posting c⟩) :
    Sound { s.setConn i ⟨buf, .pausing⟩ with
      queue := s.queue ++ [⟨i, c.bytes.length, c.bytes⟩], posted := s.posted ++ [c.bytes] } := by
  have hset : Sound (s.setConn i ⟨buf, .pausing⟩) :=
    h.setConn ht (fun ev _ _ hev => ⟨nofun, hev.text⟩) nofun
  have hwaiting : ({ s.setConn i ⟨buf, .pausing⟩ with
      queue := s.queue ++ [⟨i, c.bytes.length, c.bytes⟩], posted := s.posted ++ [c.bytes] } :
      EventLoop).waiting = s.waiting ++ [⟨i, c.bytes.length, c.bytes⟩] := by
    obtain ⟨conns, queue, task, posted, handled⟩ := s
    cases task <;> rfl
  have hself : (s.conns.set i ⟨buf, .pausing⟩)[i]? = some ⟨buf, .pausing⟩ :=
    List.getElem?_set_self (List.getElem?_eq_some_iff.mp ht).1
  refine ⟨?_, hset.posting, h.right, ?_⟩
  · rw [hwaiting]
    intro ev hev
    rcases List.mem_append.mp hev with hev | hev
    · exact hset.held ev hev
    · obtain rfl := List.mem_singleton.mp hev
      exact ⟨rfl, _, hself, nofun, h.posting i buf c ht⟩
  · rw [hwaiting, List.map_append, ← List.append_assoc]
    show s.posted ++ [c.bytes] = s.handled.map Handled.bytes ++ _ ++ _
    rw [← h.order]
    rfl

/-- The handler copies the text that the event was posted for. -/
theorem sound_copy {s : EventLoop} (h : Sound s) {ev : TcpEventsData} (ht : s.task = .taken ev)
    (freed : List UInt8) :
    Sound { s with
      task := .parsing
      handled := s.handled ++ [⟨ev.dataLen, ev.bytes, handlerCopy
        (match s.conns[ev.conn]? with
          | none | some ⟨_, .closed⟩ => freed
          | some ⟨buf, _⟩ => buf)⟩] } := by
  have hwaiting : s.waiting = ev :: s.queue := by simp [EventLoop.waiting, ht]
  obtain ⟨hlen, ⟨buf, stage⟩, hconn, hlive, htext⟩ := h.held ev (hwaiting ▸ List.mem_cons_self)
  have hcopy : handlerCopy (match s.conns[ev.conn]? with
      | none | some ⟨_, .closed⟩ => freed
      | some ⟨buf, _⟩ => buf) = textOf ev.bytes := by
    rw [hconn]
    cases stage with
    | closed => exact absurd rfl hlive
    | receiving | posting | pausing => exact htext
  refine ⟨?_, h.posting, ?_, ?_⟩
  · intro e he
    exact h.held e (hwaiting ▸ List.mem_cons_of_mem ev he)
  · intro g hg
    rcases List.mem_append.mp hg with hg | hg
    · exact h.right g hg
    · obtain rfl := List.mem_singleton.mp hg
      refine ⟨hcopy, nul_free_handlerCopy _, fun t hmem => ?_⟩
      rw [hcopy, textOf] at hmem
      split at hmem
      · obtain rfl := Option.some.inj hmem
        exact Nat.le_of_eq (congrArg (· + 1) hlen.symm)
      · cases hmem
  · rw [List.map_append, List.append_assoc, h.order, hwaiting]
    rfl

theorem loopStep_sound (s : EventLoop) (e : LoopEvent) (s' : EventLoop) (h : Sound s)
    (hC : Unhurried s e) (hstep : loopStep s e = some s') : Sound s' := by
  cases e with
  | connect block =>
    cases hstep
    refine ⟨?_, ?_, h.right, h.order⟩
    · intro ev hev
      obtain ⟨hlen, t, ht, hholds⟩ := h.held ev hev
      refine ⟨hlen, t, ?_, hholds⟩
      rw [List.getElem?_append_left (List.getElem?_eq_some_iff.mp ht).1, ht]
    · intro i buf c hi
      obtain ⟨-, hnew⟩ | ⟨-, hi⟩ := concat_cases hi
      · cases hnew
      · exact h.posting i buf c hi
  | recv i c =>
    simp only [loopStep] at hstep
    split at hstep
    · cases hstep
      exact sound_recv h ‹_› hC
    · cases hstep
  | hangup i =>
    simp only [loopStep] at hstep
    split at hstep
    · cases hstep
      exact h.setConn ‹_› (fun ev hev hi _ => absurd hi (hC ev hev)) nofun
    · cases hstep
  | post i =>
    simp only [loopStep] at hstep
    split at hstep
    · cases hstep
      exact sound_post h ‹_›
    · cases hstep
  | resume i =>
    simp only [loopStep] at hstep
    split at hstep
    · rename_i ht
      cases hstep
      exact h.setConn ht (fun ev _ _ hev => ⟨nofun, hev.text⟩) nofun
    · cases hstep
  | take =>
    simp only [loopStep] at hstep
    split at hstep
    · rename_i ev queue htask hqueue
      cases hstep
      have hwaiting : s.waiting = ev :: queue := by simp [EventLoop.waiting, htask, hqueue]
      exact h.congr hwaiting.symm rfl rfl rfl
    · cases hstep
  | copy freed =>
    simp only [loopStep] at hstep
    split at hstep
    · cases hstep
      exact sound_copy h ‹_› freed
    · cases hstep
  | done =>
    simp only [loopStep] at hstep
    split at hstep
    · rename_i htask
      cases hstep
      have hwaiting : s.waiting = s.queue := by simp [EventLoop.waiting, htask]
      exact h.congr hwaiting.symm rfl rfl rfl
    · cases hstep

theorem eventLoopInit_sound : Sound eventLoopInit := ⟨nofun, nofun, nofun, rfl⟩

/-- Every event is handled with its own text, in the order of posting, and the copy fits. -/
theorem events_handled {es : List LoopEvent} {s : EventLoop}
    (hC : Runs.Meets loopStep Unhurried eventLoopInit es)
    (hrun : Runs.run loopStep eventLoopInit es = some s) :
    s.posted = s.handled.map Handled.bytes ++ s.waiting.map TcpEventsData.bytes ∧
      ∀ h ∈ s.handled, h.Right := by
  have hs := Runs.run_invariant_of_meets loopStep_sound eventLoopInit_sound hC hrun
  exact ⟨hs.order, hs.right⟩

/-- The arguments that `data_parse` is called with, and where they are in the text. -/
def Handled.calls (port : UInt16) (h : Handled) : List (Nat × List UInt8) :=
  match h.copy with
  | some text => if port = 5718 then [] else tokens (· == 0x26) 0 text
  | none => []

/-- Such an event leads to the calls of `tcp_handler` on the chunk itself. -/
theorem Handled.Right.calls {h : Handled} (hr : h.Right) (port : UInt16) :
    h.calls port = tcpHandler port 0 h.bytes := by
  have htext := hr.text
  have hnul := hr.nul_free
  unfold Handled.calls tcpHandler
  rw [htext] at hnul ⊢
  unfold textOf at hnul ⊢
  by_cases hbrace : h.bytes.head? = some 0x7B
  · rw [if_pos hbrace] at hnul ⊢
    rw [cstring_eq_self (hnul h.bytes rfl)]
    simp [hbrace]
  · simp [hbrace]

/-- A search on the cable, and a longer command. -/
def araCable : Chunk where
  bytes := [0x7B, 0x61, 0x7D, 0x26]
  ne := by decide
  le := by decide

def listNumber : Chunk where
  bytes := [0x7B, 0x6C, 0x69, 0x73, 0x74, 0x7D, 0x26]
  ne := by decide
  le := by decide

/-- Each command is copied before the next one arrives. -/
def unhurried : List LoopEvent :=
  [.connect [], .recv 0 araCable, .post 0, .take, .copy [], .resume 0, .recv 0 listNumber, .post 0,
    .done, .take, .copy [], .resume 0, .done, .hangup 0]

theorem events_handled_unhurried : ∃ s, Runs.run loopStep eventLoopInit unhurried = some s ∧
    s.posted = s.handled.map Handled.bytes ++ s.waiting.map TcpEventsData.bytes ∧
    ∀ h ∈ s.handled, h.Right := by
  have hC : Runs.Meets loopStep Unhurried eventLoopInit unhurried := by decide
  exact ⟨_, rfl, events_handled hC rfl⟩

/-- The second command arrives while the first one waits. -/
def hurried : List LoopEvent :=
  [.connect [], .recv 0 araCable, .post 0, .resume 0, .recv 0 listNumber, .take, .copy []]

/-- The handler copies the second command in place of the first, past the end of its block. -/
theorem event_overwritten : ∃ s, Runs.run loopStep eventLoopInit hurried = some s ∧
    s.handled = [⟨4, araCable.bytes, some listNumber.bytes⟩] ∧
    4 + 1 < listNumber.bytes.length + 1 :=
  ⟨_, rfl, rfl, by decide⟩

end DaliController.Tcp
