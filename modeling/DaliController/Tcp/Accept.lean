import DaliController.Lib.Runs
import DaliController.Lib.Table
import Mathlib.Data.List.Infix
import Mathlib.Logic.Function.Basic

/-! From `accept` to `wait_data`.  `server_task` passes each socket on in the one field
`last_socket`, and the task it creates reads that field when it first runs.  If the next socket is
stored before that, two tasks serve the later socket and none the earlier one. -/

namespace DaliController.Tcp

open Table

/-- A `wait_data` task, with its `sck`: it receives until `recv` returns no data, then calls
`delete_client` and `close`. -/
inductive WaitData
  | created
  | reading (sck : UInt8)
  | received (sck : UInt8)
  | deleted (sck : UInt8)
  | closed (sck : UInt8)
  deriving DecidableEq, Repr

/-- An accepted connection and the task that was created for it. -/
structure Accepted where
  sock : Nat
  ip : UInt32
  task : Option WaitData
  deriving DecidableEq, Repr

/-- `tcp_client_t`, with the connection that it was last filled in for. -/
structure TcpClient where
  sock : Nat
  ip : UInt32
  active : Bool
  conn : Nat
  deriving DecidableEq, Repr

/-- Where `server_task` is in its loop, and with which connection. -/
inductive ServerTask
  | listening
  | accepted (k : Nat)
  | registered (k : Nat)
  | stored (k : Nat)
  | ended
  deriving DecidableEq, Repr

inductive SocketAct
  | read
  | mark
  | close
  deriving DecidableEq, Repr

/-- `openAt` says which connection a socket number stands for, and `log` which task did what to
which connection. -/
structure TcpServer where
  server : ServerTask
  conns : List Accepted
  clientHandle : List TcpClient
  lastSocket : UInt8
  openAt : Nat → Option Nat
  log : List (Nat × SocketAct × Option Nat)

def tcpServerInit : TcpServer := ⟨.listening, [], [], 0, fun _ => none, []⟩

/-- The search of `server_task`: a client with the same address and socket becomes active again, and
otherwise there is a new one. -/
def registerClient (k sock : Nat) (ip : UInt32) : List TcpClient → Option (List TcpClient)
  | [] => none
  | x :: xs =>
    if x.ip = ip ∧ x.sock = sock then some ({ x with active := true, conn := k } :: xs)
    else (registerClient k sock ip xs).map (x :: ·)

def register (k sock : Nat) (ip : UInt32) (clients : List TcpClient) : List TcpClient :=
  (registerClient k sock ip clients).getD (⟨sock, ip, true, k⟩ :: clients)

/-- `delete_client`: the first active client with the socket, with the connection it was for. -/
def deleteClient (sock : Nat) : List TcpClient → List TcpClient × Option Nat
  | [] => ([], none)
  | x :: xs =>
    if x.sock = sock ∧ x.active = true then ({ x with active := false } :: xs, some x.conn)
    else
      let r := deleteClient sock xs
      (x :: r.1, r.2)

inductive TcpEvent
  | accept (sock : Nat) (ip : UInt32)
  | refuse
  | register
  | store
  | create (ok : Bool)
  | start (j : Nat)
  | recv (j : Nat) (more : Bool)
  | delete (j : Nat)
  | close (j : Nat)
  deriving DecidableEq, Repr

def TcpServer.setTask (s : TcpServer) (j : Nat) (t : WaitData) : TcpServer :=
  { s with conns := s.conns.modify j fun c => { c with task := some t } }

/-- A step of `server_task`, or of the task of connection `j`.  `accept` returns a number that no
open socket has. -/
def tcpStep (s : TcpServer) : TcpEvent → Option TcpServer
  | .accept sock ip =>
    match s.server, s.openAt sock with
    | .listening, none => some { s with
        server := .accepted s.conns.length
        conns := s.conns ++ [⟨sock, ip, none⟩]
        openAt := Function.update s.openAt sock (some s.conns.length) }
    | _, _ => none
  | .refuse => if s.server = .listening then some { s with server := .ended } else none
  | .register =>
    match s.server with
    | .accepted k => (s.conns[k]?).map fun c => { s with
        server := .registered k, clientHandle := register k c.sock c.ip s.clientHandle }
    | _ => none
  | .store =>
    match s.server with
    | .registered k => (s.conns[k]?).map fun c => { s with
        server := .stored k, lastSocket := UInt8.ofNat c.sock }
    | _ => none
  | .create ok =>
    match s.server with
    | .stored k => (s.conns[k]?).map fun _ =>
      -- the result of `xTaskCreate` is not looked at
      if ok then { s.setTask k .created with server := .listening }
      else { s with server := .listening }
    | _ => none
  | .start j =>
    match s.conns[j]? with
    | some ⟨_, _, some .created⟩ => some (s.setTask j (.reading s.lastSocket))
    | _ => none
  | .recv j more =>
    match s.conns[j]? with
    | some ⟨_, _, some (.reading sck)⟩ => some
      { s.setTask j (if more then .reading sck else .received sck) with
        log := s.log ++ [(j, .read, s.openAt sck.toNat)] }
    | _ => none
  | .delete j =>
    match s.conns[j]? with
    | some ⟨_, _, some (.received sck)⟩ =>
      let r := deleteClient sck.toNat s.clientHandle
      some { s.setTask j (.deleted sck) with
        clientHandle := r.1, log := s.log ++ [(j, .mark, r.2)] }
    | _ => none
  | .close j =>
    match s.conns[j]? with
    | some ⟨_, _, some (.deleted sck)⟩ => some
      { s.setTask j (.closed sck) with
        openAt := Function.update s.openAt sck.toNat none
        log := s.log ++ [(j, .close, s.openAt sck.toNat)] }
    | _ => none

/-- `last_socket` is overwritten only when every task has read it.  It holds the whole socket
number, and `xTaskCreate` succeeds. -/
def HandedOver (s : TcpServer) : TcpEvent → Prop
  | .accept sock _ => sock < 256
  | .store => ∀ c ∈ s.conns, c.task ≠ some .created
  | .create ok => ok = true
  | _ => True

instance (s : TcpServer) : ∀ e, Decidable (HandedOver s e)
  | .accept _ _ => inferInstanceAs (Decidable (_ < _))
  | .store => inferInstanceAs (Decidable (∀ c ∈ s.conns, _))
  | .create _ => inferInstanceAs (Decidable (_ = _))
  | .refuse | .register | .start _ | .recv _ _ | .delete _ | .close _ =>
    inferInstanceAs (Decidable True)

/-- The task has received all data, marked its client, closed its socket. -/
def Accepted.drained (c : Accepted) : Bool :=
  match c.task with
  | some (.received _) | some (.deleted _) | some (.closed _) => true
  | _ => false

def Accepted.marked (c : Accepted) : Bool :=
  match c.task with
  | some (.deleted _) | some (.closed _) => true
  | _ => false

def Accepted.closed (c : Accepted) : Bool :=
  match c.task with
  | some (.closed _) => true
  | _ => false

/-- Connection `k` is read, marked inactive and closed by its own task and by no other one, marked
and closed once each. -/
structure Served (s : TcpServer) (k : Nat) (c : Accepted) : Prop where
  own : ∀ j a, (j, a, some k) ∈ s.log → j = k
  read : c.drained → (k, .read, some k) ∈ s.log
  mark : s.log.count (k, .mark, some k) = if c.marked then 1 else 0
  close : s.log.count (k, .close, some k) = if c.closed then 1 else 0
  task : c.task = none → s.server = .accepted k ∨ s.server = .registered k ∨ s.server = .stored k

/-! ### Steps -/

/-- What each step finds and leaves.  The task of connection `j` has `c` as its connection. -/
inductive TcpStep (s : TcpServer) : TcpEvent → TcpServer → Prop
  | accept {sock : Nat} {ip : UInt32} : s.server = .listening → s.openAt sock = none →
      TcpStep s (.accept sock ip) { s with
        server := .accepted s.conns.length
        conns := s.conns ++ [⟨sock, ip, none⟩]
        openAt := Function.update s.openAt sock (some s.conns.length) }
  | refuse : s.server = .listening → TcpStep s .refuse { s with server := .ended }
  | register {k : Nat} {c : Accepted} : s.server = .accepted k → s.conns[k]? = some c →
      TcpStep s .register { s with
        server := .registered k, clientHandle := register k c.sock c.ip s.clientHandle }
  | store {k : Nat} {c : Accepted} : s.server = .registered k → s.conns[k]? = some c →
      TcpStep s .store { s with server := .stored k, lastSocket := UInt8.ofNat c.sock }
  | create {k : Nat} {c : Accepted} : s.server = .stored k → s.conns[k]? = some c →
      TcpStep s (.create true) { s.setTask k .created with server := .listening }
  | fail : TcpStep s (.create false) { s with server := .listening }
  | start {j : Nat} {c : Accepted} : s.conns[j]? = some c → c.task = some .created →
      TcpStep s (.start j) (s.setTask j (.reading s.lastSocket))
  | recv {j : Nat} {c : Accepted} {sck : UInt8} {more : Bool} : s.conns[j]? = some c →
      c.task = some (.reading sck) →
      TcpStep s (.recv j more) { s.setTask j (if more then .reading sck else .received sck) with
        log := s.log ++ [(j, .read, s.openAt sck.toNat)] }
  | delete {j : Nat} {c : Accepted} {sck : UInt8} : s.conns[j]? = some c →
      c.task = some (.received sck) →
      TcpStep s (.delete j) { s.setTask j (.deleted sck) with
        clientHandle := (deleteClient sck.toNat s.clientHandle).1
        log := s.log ++ [(j, .mark, (deleteClient sck.toNat s.clientHandle).2)] }
  | close {j : Nat} {c : Accepted} {sck : UInt8} : s.conns[j]? = some c →
      c.task = some (.deleted sck) →
      TcpStep s (.close j) { s.setTask j (.closed sck) with
        openAt := Function.update s.openAt sck.toNat none
        log := s.log ++ [(j, .close, s.openAt sck.toNat)] }

theorem tcpStep_sound {s s' : TcpServer} {e : TcpEvent} (h : tcpStep s e = some s') :
    TcpStep s e s' := by
  cases e with
  | accept sock ip =>
    simp only [tcpStep] at h
    split at h
    · cases h
      exact .accept ‹_› ‹_›
    · cases h
  | refuse =>
    simp only [tcpStep] at h
    split at h
    · cases h
      exact .refuse ‹_›
    · cases h
  | register =>
    simp only [tcpStep] at h
    split at h
    · obtain ⟨c, hc, rfl⟩ := Option.map_eq_some_iff.mp h
      exact .register ‹_› hc
    · cases h
  | store =>
    simp only [tcpStep] at h
    split at h
    · obtain ⟨c, hc, rfl⟩ := Option.map_eq_some_iff.mp h
      exact .store ‹_› hc
    · cases h
  | create ok =>
    simp only [tcpStep] at h
    split at h
    · obtain ⟨c, hc, rfl⟩ := Option.map_eq_some_iff.mp h
      cases ok with
      | true => exact .create ‹_› hc
      | false => exact .fail
    · cases h
  | start j =>
    simp only [tcpStep] at h
    split at h
    · cases h
      exact .start ‹_› rfl
    · cases h
  | recv j more =>
    simp only [tcpStep] at h
    split at h
    · cases h
      exact .recv ‹_› rfl
    · cases h
  | delete j =>
    simp only [tcpStep] at h
    split at h
    · cases h
      exact .delete ‹_› rfl
    · cases h
  | close j =>
    simp only [tcpStep] at h
    split at h
    · cases h
      exact .close ‹_› rfl
    · cases h

@[simp] theorem setTask_server (s : TcpServer) (j : Nat) (t : WaitData) :
    (s.setTask j t).server = s.server := rfl

@[simp] theorem setTask_openAt (s : TcpServer) (j : Nat) (t : WaitData) :
    (s.setTask j t).openAt = s.openAt := rfl

@[simp] theorem setTask_lastSocket (s : TcpServer) (j : Nat) (t : WaitData) :
    (s.setTask j t).lastSocket = s.lastSocket := rfl

@[simp] theorem setTask_clientHandle (s : TcpServer) (j : Nat) (t : WaitData) :
    (s.setTask j t).clientHandle = s.clientHandle := rfl

@[simp] theorem setTask_log (s : TcpServer) (j : Nat) (t : WaitData) :
    (s.setTask j t).log = s.log := rfl

@[simp] theorem setTask_length (s : TcpServer) (j : Nat) (t : WaitData) :
    (s.setTask j t).conns.length = s.conns.length := List.length_modify _ _ _

theorem setTask_self {s : TcpServer} {j : Nat} {c : Accepted} (hc : s.conns[j]? = some c)
    (t : WaitData) : (s.setTask j t).conns[j]? = some { c with task := some t } := by
  simp [TcpServer.setTask, hc]

theorem setTask_of_ne (s : TcpServer) {j k : Nat} (t : WaitData) (h : k ≠ j) :
    (s.setTask j t).conns[k]? = s.conns[k]? := by
  simp [TcpServer.setTask, Ne.symm h]

/-- A connection of the changed list is the changed one or an old one. -/
theorem setTask_cases {s : TcpServer} {j k : Nat} {c d : Accepted} {t : WaitData}
    (hc : s.conns[j]? = some c) (h : (s.setTask j t).conns[k]? = some d) :
    (k = j ∧ d = { c with task := some t }) ∨ (k ≠ j ∧ s.conns[k]? = some d) := by
  rcases eq_or_ne k j with rfl | hk
  · rw [setTask_self hc] at h
    exact Or.inl ⟨rfl, (Option.some.inj h).symm⟩
  · rw [setTask_of_ne s t hk] at h
    exact Or.inr ⟨hk, h⟩

/-! ### Socket numbers -/

/-- The connection that `server_task` has not yet created a task for. -/
def ServerTask.hand : ServerTask → Option Nat
  | .accepted k | .registered k | .stored k => some k
  | .listening | .ended => none

/-- Socket numbers fit in `last_socket` and stand for the connections that are open. -/
structure Numbered (s : TcpServer) : Prop where
  small : ∀ (k : Nat) (c : Accepted), s.conns[k]? = some c → c.sock < 256
  held : ∀ (k : Nat) (c : Accepted), s.conns[k]? = some c → c.closed = false →
    s.openAt c.sock = some k
  sock : ∀ n k, s.openAt n = some k → ∃ c : Accepted, s.conns[k]? = some c ∧ c.sock = n
  hand : ∀ (k : Nat) (c : Accepted), s.conns[k]? = some c → (c.task = none ↔ s.server.hand = some k)

/-- The variables `sck` hold the sockets of their tasks' connections, and `last_socket` the one that
its reader is to have. -/
structure Passed (s : TcpServer) : Prop where
  sck : ∀ (k : Nat) (c : Accepted) (sck : UInt8), s.conns[k]? = some c →
    (c.task = some (.reading sck) ∨ c.task = some (.received sck) ∨ c.task = some (.deleted sck)) →
    sck.toNat = c.sock
  created : ∀ (k : Nat) (c : Accepted), s.conns[k]? = some c → c.task = some .created →
    s.lastSocket.toNat = c.sock
  stored : ∀ (k : Nat) (c : Accepted), s.server = .stored k → s.conns[k]? = some c →
    s.lastSocket.toNat = c.sock

theorem small_setTask {s : TcpServer} (h : Numbered s) {j : Nat} {c : Accepted}
    (hc : s.conns[j]? = some c) (t : WaitData) (k : Nat) (d : Accepted)
    (hd : (s.setTask j t).conns[k]? = some d) : d.sock < 256 := by
  obtain ⟨rfl, rfl⟩ | ⟨-, hd⟩ := setTask_cases hc hd
  · exact h.small _ c hc
  · exact h.small k d hd

theorem held_setTask {s : TcpServer} (h : Numbered s) {j : Nat} {c : Accepted}
    (hc : s.conns[j]? = some c) (hopen : c.closed = false) (t : WaitData) (k : Nat) (d : Accepted)
    (hd : (s.setTask j t).conns[k]? = some d) (hk : d.closed = false) :
    s.openAt d.sock = some k := by
  obtain ⟨rfl, rfl⟩ | ⟨-, hd⟩ := setTask_cases hc hd
  · exact h.held _ c hc hopen
  · exact h.held k d hd hk

theorem sock_setTask {s : TcpServer} (h : Numbered s) {j : Nat} {c : Accepted}
    (hc : s.conns[j]? = some c) (t : WaitData) (n k : Nat) (hn : s.openAt n = some k) :
    ∃ d : Accepted, (s.setTask j t).conns[k]? = some d ∧ d.sock = n := by
  obtain ⟨d, hd, rfl⟩ := h.sock n k hn
  rcases eq_or_ne k j with rfl | hk
  · obtain rfl : c = d := Option.some.inj (hc.symm.trans hd)
    exact ⟨_, setTask_self hc t, rfl⟩
  · exact ⟨d, by rw [setTask_of_ne s t hk, hd], rfl⟩

theorem hand_setTask {s : TcpServer} (h : Numbered s) {j : Nat} {c : Accepted}
    (hc : s.conns[j]? = some c) (hsome : c.task ≠ none) (t : WaitData) (k : Nat) (d : Accepted)
    (hd : (s.setTask j t).conns[k]? = some d) : d.task = none ↔ s.server.hand = some k := by
  obtain ⟨rfl, rfl⟩ | ⟨-, hd⟩ := setTask_cases hc hd
  · exact iff_of_false nofun fun hh => hsome ((h.hand _ c hc).mpr hh)
  · exact h.hand k d hd

/-- Two connections that are open have different sockets. -/
theorem Numbered.sock_ne {s : TcpServer} (h : Numbered s) {j k : Nat} {c d : Accepted}
    (hc : s.conns[j]? = some c) (hd : s.conns[k]? = some d) (hcopen : c.closed = false)
    (hdopen : d.closed = false) (hne : k ≠ j) : d.sock ≠ c.sock := by
  intro he
  have hk := h.held k d hd hdopen
  rw [he, h.held j c hc hcopen] at hk
  exact hne (Option.some.inj hk).symm

/-- A number that is not the socket of connection `j` stands for another one. -/
theorem Numbered.ne_of_sock {s : TcpServer} (h : Numbered s) {j k n : Nat} {c : Accepted}
    (hc : s.conns[j]? = some c) (hk : s.openAt n = some k) (hn : n ≠ c.sock) : k ≠ j := by
  rintro rfl
  obtain ⟨d, hd, hdn⟩ := h.sock n k hk
  obtain rfl : c = d := Option.some.inj (hc.symm.trans hd)
  exact hn hdn.symm

/-- A task that goes on, or starts, keeps the socket open. -/
theorem Numbered.setTask {s : TcpServer} (h : Numbered s) {j : Nat} {c : Accepted}
    (hc : s.conns[j]? = some c) (hopen : c.closed = false) (hsome : c.task ≠ none)
    (t : WaitData) : Numbered (s.setTask j t) :=
  ⟨small_setTask h hc t, held_setTask h hc hopen t, sock_setTask h hc t, hand_setTask h hc hsome t⟩

/-- A socket that is not open gets the number of the new connection. -/
theorem Numbered.accept {s : TcpServer} (h : Numbered s) {sock : Nat} {ip : UInt32}
    (hserver : s.server = .listening) (hfree : s.openAt sock = none) (hsmall : sock < 256) :
    Numbered { s with
      server := .accepted s.conns.length
      conns := s.conns ++ [⟨sock, ip, none⟩]
      openAt := Function.update s.openAt sock (some s.conns.length) } := by
  constructor
  case small =>
    intro k c hc
    obtain ⟨-, rfl⟩ | ⟨-, hc⟩ := concat_cases hc
    · exact hsmall
    · exact h.small k c hc
  case held =>
    intro k c hc hopen
    obtain ⟨rfl, rfl⟩ | ⟨-, hc⟩ := concat_cases hc
    · exact Function.update_self ..
    · have hne : c.sock ≠ sock := by
        intro he
        have hheld := h.held k c hc hopen
        rw [he, hfree] at hheld
        cases hheld
      show Function.update s.openAt sock _ c.sock = _
      rw [Function.update_of_ne hne]
      exact h.held k c hc hopen
  case sock =>
    intro n k hn
    change Function.update s.openAt sock _ n = _ at hn
    rcases eq_or_ne n sock with rfl | hne
    · rw [Function.update_self] at hn
      obtain rfl := Option.some.inj hn
      exact ⟨_, List.getElem?_concat_length, rfl⟩
    · rw [Function.update_of_ne hne] at hn
      obtain ⟨c, hc, hcn⟩ := h.sock n k hn
      exact ⟨c, by rw [List.getElem?_append_left (List.getElem?_eq_some_iff.mp hc).1, hc], hcn⟩
  case hand =>
    intro k c hc
    obtain ⟨rfl, rfl⟩ | ⟨hlt, hc⟩ := concat_cases hc
    · exact iff_of_true rfl rfl
    · rw [h.hand k c hc, hserver]
      apply iff_of_false nofun
      intro he
      exact absurd (Option.some.inj he) (Nat.ne_of_gt hlt)

/-- A task that closes its socket leaves the others open. -/
theorem Numbered.close {s : TcpServer} (h : Numbered s) {j : Nat} {c : Accepted} {sck : UInt8}
    (hc : s.conns[j]? = some c) (ht : c.task = some (.deleted sck)) (hsck : sck.toNat = c.sock)
    (log : List (Nat × SocketAct × Option Nat)) :
    Numbered { s.setTask j (.closed sck) with
      openAt := Function.update s.openAt sck.toNat none
      log } := by
  have hopen : c.closed = false := by simp [Accepted.closed, ht]
  constructor
  case small => exact small_setTask h hc _
  case held =>
    intro k d hd hk
    obtain ⟨rfl, rfl⟩ | ⟨hne, hd⟩ := setTask_cases hc hd
    · cases hk
    · show Function.update s.openAt _ none d.sock = some k
      rw [hsck, Function.update_of_ne (h.sock_ne hc hd hopen hk hne)]
      exact h.held k d hd hk
  case sock =>
    intro n k hn
    change Function.update s.openAt _ none n = some k at hn
    rw [hsck] at hn
    rcases eq_or_ne n c.sock with rfl | hne
    · rw [Function.update_self] at hn
      cases hn
    · rw [Function.update_of_ne hne] at hn
      exact sock_setTask h hc _ n k hn
  case hand => exact hand_setTask h hc (by simp [ht]) _

/-- The tasks change, but `server_task` and its socket numbers do not. -/
theorem numbered_step {s s' : TcpServer} {e : TcpEvent} (h : Numbered s) (hp : Passed s)
    (hC : HandedOver s e) (hstep : TcpStep s e s') : Numbered s' := by
  cases hstep with
  | accept hserver hfree => exact h.accept hserver hfree hC
  | refuse hserver =>
    refine ⟨h.small, h.held, h.sock, fun k c hc => ?_⟩
    rw [h.hand k c hc, hserver]
    rfl
  | register hserver hc =>
    refine ⟨h.small, h.held, h.sock, fun k c hc => ?_⟩
    rw [h.hand k c hc, hserver]
    rfl
  | store hserver hc =>
    refine ⟨h.small, h.held, h.sock, fun k c hc => ?_⟩
    rw [h.hand k c hc, hserver]
    rfl
  | @create j c hserver hc =>
    have hnone : c.task = none := (h.hand j c hc).mpr (by rw [hserver]; rfl)
    have hopen : c.closed = false := by simp [Accepted.closed, hnone]
    refine ⟨small_setTask h hc _, held_setTask h hc hopen _, sock_setTask h hc _, ?_⟩
    intro k d hd
    obtain ⟨rfl, rfl⟩ | ⟨hne, hd⟩ := setTask_cases hc hd
    · exact iff_of_false nofun nofun
    · rw [h.hand k d hd, hserver]
      exact iff_of_false (fun he => hne (Option.some.inj he).symm) nofun
  | fail => cases hC
  | start hc ht => exact h.setTask hc (by simp [Accepted.closed, ht]) (by simp [ht]) _
  | recv hc ht =>
    exact { h.setTask hc (by simp [Accepted.closed, ht]) (by simp [ht]) _ with }
  | delete hc ht =>
    exact { h.setTask hc (by simp [Accepted.closed, ht]) (by simp [ht]) _ with }
  | close hc ht => exact h.close hc ht (hp.sck _ _ _ hc (Or.inr (Or.inr ht))) _

/-- A task that goes on keeps its `sck`. -/
theorem Passed.setTask {s : TcpServer} (hp : Passed s) {j : Nat} {c : Accepted}
    (hc : s.conns[j]? = some c) {t : WaitData} (hcreated : t ≠ .created)
    (ht : ∀ sck, (t = .reading sck ∨ t = .received sck ∨ t = .deleted sck) →
      sck.toNat = c.sock) : Passed (s.setTask j t) where
  sck k d sck hd hd' := by
    obtain ⟨rfl, rfl⟩ | ⟨-, hd⟩ := setTask_cases hc hd
    · exact ht sck (by simpa using hd')
    · exact hp.sck k d sck hd hd'
  created k d hd hd' := by
    obtain ⟨rfl, rfl⟩ | ⟨-, hd⟩ := setTask_cases hc hd
    · exact absurd (Option.some.inj hd') hcreated
    · exact hp.created k d hd hd'
  stored k d hk hd := by
    obtain ⟨rfl, rfl⟩ | ⟨-, hd⟩ := setTask_cases hc hd
    · exact hp.stored _ c hk hc
    · exact hp.stored k d hk hd

/-- Each new task reads the socket of its connection. -/
theorem passed_step {s s' : TcpServer} {e : TcpEvent} (h : Numbered s) (hp : Passed s)
    (hC : HandedOver s e) (hstep : TcpStep s e s') : Passed s' := by
  cases hstep with
  | accept hserver hfree =>
    refine ⟨?_, ?_, nofun⟩
    · intro k c sck hc ht
      obtain ⟨-, rfl⟩ | ⟨-, hc⟩ := concat_cases hc
      · simp at ht
      · exact hp.sck k c sck hc ht
    · intro k c hc ht
      obtain ⟨-, rfl⟩ | ⟨-, hc⟩ := concat_cases hc
      · cases ht
      · exact hp.created k c hc ht
  | refuse => exact ⟨hp.sck, hp.created, nofun⟩
  | register => exact ⟨hp.sck, hp.created, nofun⟩
  | @store j c hserver hc =>
    refine ⟨hp.sck, ?_, ?_⟩
    · intro k d hd ht
      exact absurd ht (hC d (List.mem_of_getElem? hd))
    · intro k d hk hd
      obtain rfl : j = k := by cases hk; rfl
      obtain rfl : c = d := Option.some.inj (hc.symm.trans hd)
      exact UInt8.toNat_ofNat_of_lt' (h.small _ c hc)
  | @create j c hserver hc =>
    refine ⟨?_, ?_, nofun⟩
    · intro k d sck hd ht
      obtain ⟨rfl, rfl⟩ | ⟨-, hd⟩ := setTask_cases hc hd
      · simp at ht
      · exact hp.sck k d sck hd ht
    · intro k d hd ht
      obtain ⟨rfl, rfl⟩ | ⟨-, hd⟩ := setTask_cases hc hd
      · exact hp.stored _ c hserver hc
      · exact hp.created k d hd ht
  | fail => cases hC
  | start hc ht => exact hp.setTask hc nofun (by simpa using hp.created _ _ hc ht)
  | @recv j c sck more hc ht =>
    have hsck : sck.toNat = c.sock := hp.sck j c sck hc (Or.inl ht)
    obtain ⟨h1, h2, h3⟩ := hp.setTask hc (t := if more then .reading sck else .received sck)
      (by split <;> exact nofun) (by split <;> simpa using hsck)
    exact ⟨h1, h2, h3⟩
  | @delete j c sck hc ht =>
    have hsck : sck.toNat = c.sock := hp.sck j c sck hc (Or.inr (Or.inl ht))
    obtain ⟨h1, h2, h3⟩ := hp.setTask hc (t := .deleted sck) nofun (by simpa using hsck)
    exact ⟨h1, h2, h3⟩
  | close hc ht =>
    obtain ⟨h1, h2, h3⟩ := hp.setTask hc (t := .closed _) nofun (by simp)
    exact ⟨h1, h2, h3⟩

/-! ### Clients -/

/-- The connections of the active clients with a socket. -/
def activeAt (clients : List TcpClient) (n : Nat) : List Nat :=
  (clients.filter fun x => x.active && decide (x.sock = n)).map TcpClient.conn

theorem activeAt_cons (x : TcpClient) (xs : List TcpClient) (n : Nat) :
    activeAt (x :: xs) n =
      if x.active = true ∧ x.sock = n then x.conn :: activeAt xs n else activeAt xs n := by
  by_cases h : x.active = true ∧ x.sock = n
  · simp [activeAt, h]
  · have hb : (x.active && decide (x.sock = n)) = false := by simpa using h
    simp [activeAt, h, hb]

theorem activeAt_registerClient {k sock : Nat} {ip : UInt32} {clients clients' : List TcpClient}
    (hfree : activeAt clients sock = []) (h : registerClient k sock ip clients = some clients')
    (n : Nat) : activeAt clients' n = if n = sock then [k] else activeAt clients n := by
  induction clients generalizing clients' with
  | nil => cases h
  | cons x xs ih =>
    rw [activeAt_cons] at hfree
    rw [activeAt_cons]
    simp only [registerClient] at h
    split at h
    · rename_i hx
      have hidle : ¬(x.active = true ∧ x.sock = sock) := by
        intro ha
        rw [if_pos ha] at hfree
        cases hfree
      rw [if_neg hidle] at hfree
      cases h
      rw [activeAt_cons]
      by_cases hn : n = sock
      · rw [hn, if_pos ⟨rfl, hx.2⟩, if_pos rfl, hfree]
      · have hxn : x.sock ≠ n := fun he => hn (he.symm.trans hx.2)
        rw [if_neg fun ha => hxn ha.2, if_neg hn, if_neg fun ha => hxn ha.2]
    · obtain ⟨ys, hys, rfl⟩ := Option.map_eq_some_iff.mp h
      rw [activeAt_cons]
      split at hfree
      · cases hfree
      · rename_i hx
        rw [ih hfree hys]
        by_cases hn : n = sock
        · rw [hn, if_neg hx, if_pos rfl, if_pos rfl]
        · rw [if_neg hn, if_neg hn]

/-- A socket without an active client has one after `register`. -/
theorem activeAt_register {k sock : Nat} {ip : UInt32} {clients : List TcpClient}
    (hfree : activeAt clients sock = []) (n : Nat) :
    activeAt (register k sock ip clients) n = if n = sock then [k] else activeAt clients n := by
  unfold register
  cases h : registerClient k sock ip clients with
  | some clients' => exact activeAt_registerClient hfree h n
  | none =>
    rw [Option.getD_none, activeAt_cons]
    by_cases hn : n = sock
    · rw [hn, if_pos ⟨rfl, rfl⟩, if_pos rfl, hfree]
    · rw [if_neg fun ha => hn ha.2.symm, if_neg hn]

theorem deleteClient_conn (sock : Nat) (clients : List TcpClient) :
    (deleteClient sock clients).2 = (activeAt clients sock).head? := by
  induction clients with
  | nil => rfl
  | cons x xs ih =>
    rw [activeAt_cons]
    simp only [deleteClient]
    by_cases hx : x.active = true ∧ x.sock = sock
    · rw [if_pos hx, if_pos hx.symm]
      rfl
    · rw [if_neg hx, if_neg fun h => hx h.symm]
      exact ih

theorem activeAt_deleteClient (sock : Nat) (clients : List TcpClient) (n : Nat) :
    activeAt (deleteClient sock clients).1 n =
      if n = sock then (activeAt clients n).tail else activeAt clients n := by
  induction clients with
  | nil => split <;> rfl
  | cons x xs ih =>
    simp only [deleteClient]
    by_cases hx : x.active = true ∧ x.sock = sock
    · rw [if_pos hx.symm, activeAt_cons, activeAt_cons, if_neg fun h => absurd h.1 nofun]
      by_cases hn : n = sock
      · rw [if_pos hn, if_pos (hn ▸ hx)]
        rfl
      · rw [if_neg hn, if_neg fun h => hn (h.2.symm.trans hx.2)]
    · rw [if_neg fun h => hx h.symm, activeAt_cons, activeAt_cons, ih]
      by_cases hn : n = sock
      · rw [if_pos hn, if_pos hn, if_neg (hn ▸ hx), if_neg (hn ▸ hx)]
      · rw [if_neg hn, if_neg hn]

/-- The connection is registered, and its task has not yet marked its client. -/
def TcpServer.listed (s : TcpServer) (k : Nat) : Bool :=
  match s.conns[k]? with
  | some c => !c.marked && !decide (s.server = .accepted k)
  | none => false

def TcpServer.clientsAt (s : TcpServer) (n : Nat) : List Nat :=
  match s.openAt n with
  | some k => if s.listed k then [k] else []
  | none => []

/-- The active clients are the connections that are registered and not yet marked. -/
def Listed (s : TcpServer) : Prop := ∀ n, activeAt s.clientHandle n = s.clientsAt n

theorem clientsAt_congr {s s' : TcpServer} {n : Nat} (hopen : s'.openAt n = s.openAt n)
    (hlisted : ∀ k, s.openAt n = some k → s'.listed k = s.listed k) :
    s'.clientsAt n = s.clientsAt n := by
  unfold TcpServer.clientsAt
  rw [hopen]
  split
  · rename_i k hk
    rw [hlisted k hk]
  · rfl

/-- A task that goes on without marking stays listed, and the others do in any case. -/
theorem listed_setTask {s s' : TcpServer} {j : Nat} {c : Accepted} {t : WaitData}
    (hc : s.conns[j]? = some c) (hconns : s'.conns = (s.setTask j t).conns)
    (hserver : ∀ k, s'.server = .accepted k ↔ s.server = .accepted k) (k : Nat)
    (ht : k = j → Accepted.marked { c with task := some t } = c.marked) :
    s'.listed k = s.listed k := by
  unfold TcpServer.listed
  rw [hconns, decide_eq_decide.mpr (hserver k)]
  rcases eq_or_ne k j with rfl | hk
  · rw [setTask_self hc, hc]
    simp only
    rw [ht rfl]
  · rw [setTask_of_ne s t hk]

theorem Listed.congr {s s' : TcpServer} (hl : Listed s)
    (hclients : s'.clientHandle = s.clientHandle) (hopen : s'.openAt = s.openAt)
    (hlisted : ∀ k, s'.listed k = s.listed k) : Listed s' := by
  intro n
  rw [hclients, hl n]
  exact (clientsAt_congr (congrFun hopen n) fun k _ => hlisted k).symm

/-- A task that keeps its mark leaves the clients in order. -/
theorem Listed.setTask {s s' : TcpServer} (hl : Listed s) {j : Nat} {c : Accepted} {t : WaitData}
    (hc : s.conns[j]? = some c) (hconns : s'.conns = (s.setTask j t).conns)
    (hserver : ∀ k, s'.server = .accepted k ↔ s.server = .accepted k)
    (ht : Accepted.marked { c with task := some t } = c.marked)
    (hclients : s'.clientHandle = s.clientHandle) (hopen : s'.openAt = s.openAt) : Listed s' :=
  hl.congr hclients hopen fun k => listed_setTask hc hconns hserver k fun _ => ht

theorem clientsAt_of_held {s : TcpServer} {n k : Nat} (h : s.openAt n = some k) :
    s.clientsAt n = if s.listed k then [k] else [] := by
  simp [TcpServer.clientsAt, h]

theorem listed_of_task {s : TcpServer} (h : Numbered s) {j : Nat} {c : Accepted}
    (hc : s.conns[j]? = some c) (hsome : c.task ≠ none) : s.listed j = !c.marked := by
  have hserver : s.server ≠ .accepted j := by
    intro he
    exact hsome ((h.hand j c hc).mpr (by rw [he]; rfl))
  simp [TcpServer.listed, hc, hserver]

/-- The client that `delete_client` finds is the one of the task's own connection. -/
theorem activeAt_of_received {s : TcpServer} (h : Numbered s) (hl : Listed s) {j : Nat}
    {c : Accepted} {sck : UInt8} (hc : s.conns[j]? = some c)
    (ht : c.task = some (.received sck)) : activeAt s.clientHandle c.sock = [j] := by
  have hopen : c.closed = false := by simp [Accepted.closed, ht]
  have hmark : c.marked = false := by simp [Accepted.marked, ht]
  rw [hl c.sock, clientsAt_of_held (h.held j c hc hopen), listed_of_task h hc (by simp [ht]), hmark]
  rfl

theorem Listed.accept {s : TcpServer} (hl : Listed s) (h : Numbered s) {sock : Nat} {ip : UInt32}
    (hserver : s.server = .listening) (hfree : s.openAt sock = none) :
    Listed { s with
      server := .accepted s.conns.length
      conns := s.conns ++ [⟨sock, ip, none⟩]
      openAt := Function.update s.openAt sock (some s.conns.length) } := by
  intro n
  rw [hl n]
  rcases eq_or_ne n sock with rfl | hn
  · refine Eq.trans ?_ (clientsAt_of_held (Function.update_self ..)).symm
    simp [TcpServer.clientsAt, hfree, TcpServer.listed]
  · refine (clientsAt_congr (Function.update_of_ne hn ..) fun k hk => ?_).symm
    obtain ⟨c, hc, -⟩ := h.sock n k hk
    have hlt : k < s.conns.length := (List.getElem?_eq_some_iff.mp hc).1
    have hne : s.conns.length ≠ k := Nat.ne_of_gt hlt
    simp [TcpServer.listed, hserver, List.getElem?_append_left hlt, hne]

/-- The list has no active client with the socket yet, so `register` adds the connection. -/
theorem Listed.register {s : TcpServer} (hl : Listed s) (h : Numbered s) {j : Nat} {c : Accepted}
    (hserver : s.server = .accepted j) (hc : s.conns[j]? = some c) :
    Listed { s with
      server := .registered j, clientHandle := register j c.sock c.ip s.clientHandle } := by
  have hnone : c.task = none := (h.hand j c hc).mpr (by rw [hserver]; rfl)
  have hopen : s.openAt c.sock = some j := h.held j c hc (by simp [Accepted.closed, hnone])
  have hfree : activeAt s.clientHandle c.sock = [] := by
    rw [hl c.sock, clientsAt_of_held hopen]
    simp [TcpServer.listed, hc, hserver]
  intro n
  show activeAt (Tcp.register j c.sock c.ip s.clientHandle) n = _
  rw [activeAt_register hfree n]
  by_cases hn : n = c.sock
  · rw [if_pos hn, hn]
    refine Eq.trans ?_ (clientsAt_of_held (k := j) ?_).symm
    · simp [TcpServer.listed, hc, Accepted.marked, hnone]
    · exact hopen
  · rw [if_neg hn, hl n]
    refine (clientsAt_congr ?_ fun k hk => ?_).symm
    · rfl
    · have hne : k ≠ j := h.ne_of_sock hc hk hn
      simp [TcpServer.listed, hserver, Ne.symm hne]

/-- The active client with the socket is the connection of the task, so that one is deleted. -/
theorem Listed.delete {s : TcpServer} (hl : Listed s) (h : Numbered s) {j : Nat} {c : Accepted}
    {sck : UInt8} (hc : s.conns[j]? = some c) (ht : c.task = some (.received sck))
    (hsck : sck.toNat = c.sock) (log : List (Nat × SocketAct × Option Nat)) :
    Listed { s.setTask j (.deleted sck) with
      clientHandle := (deleteClient sck.toNat s.clientHandle).1
      log } := by
  have hopen : s.openAt c.sock = some j := h.held j c hc (by simp [Accepted.closed, ht])
  intro n
  show activeAt (deleteClient sck.toNat s.clientHandle).1 n = _
  rw [activeAt_deleteClient, hsck]
  by_cases hn : n = c.sock
  · rw [if_pos hn, hn, activeAt_of_received h hl hc ht]
    refine Eq.trans ?_ (clientsAt_of_held (k := j) ?_).symm
    · simp [TcpServer.listed, setTask_self hc, Accepted.marked]
    · exact hopen
  · rw [if_neg hn, hl n]
    refine (clientsAt_congr ?_ fun k hk => ?_).symm
    · rfl
    · exact listed_setTask hc rfl (fun _ => Iff.rfl) k fun he =>
        absurd he (h.ne_of_sock hc hk hn)

theorem Listed.close {s : TcpServer} (hl : Listed s) (h : Numbered s) {j : Nat} {c : Accepted}
    {sck : UInt8} (hc : s.conns[j]? = some c) (ht : c.task = some (.deleted sck))
    (hsck : sck.toNat = c.sock) (log : List (Nat × SocketAct × Option Nat)) :
    Listed { s.setTask j (.closed sck) with
      openAt := Function.update s.openAt sck.toNat none
      log } := by
  have hopen : s.openAt c.sock = some j := h.held j c hc (by simp [Accepted.closed, ht])
  intro n
  show activeAt s.clientHandle n = _
  rw [hl n]
  rcases eq_or_ne n sck.toNat with rfl | hn
  · rw [hsck, clientsAt_of_held hopen, listed_of_task h hc (by simp [ht])]
    simp [TcpServer.clientsAt, Accepted.marked, ht]
  · refine (clientsAt_congr (Function.update_of_ne hn ..) fun k _ => ?_).symm
    apply listed_setTask hc rfl (fun _ => Iff.rfl) k
    intro _
    simp [Accepted.marked, ht]

theorem listed_step {s s' : TcpServer} {e : TcpEvent} (h : Numbered s) (hp : Passed s)
    (hl : Listed s) (hC : HandedOver s e) (hstep : TcpStep s e s') : Listed s' := by
  cases hstep with
  | accept hserver hfree => exact hl.accept h hserver hfree
  | refuse hserver => exact hl.congr rfl rfl fun k => by simp [TcpServer.listed, hserver]
  | register hserver hc => exact hl.register h hserver hc
  | store hserver hc => exact hl.congr rfl rfl fun k => by simp [TcpServer.listed, hserver]
  | @create j c hserver hc =>
    have hnone : c.task = none := (h.hand j c hc).mpr (by rw [hserver]; rfl)
    refine hl.setTask hc rfl (fun k => ?_) (by simp [Accepted.marked, hnone]) rfl rfl
    rw [hserver]
    exact iff_of_false nofun nofun
  | fail => cases hC
  | start hc ht =>
    exact hl.setTask hc rfl (fun _ => Iff.rfl) (by simp [Accepted.marked, ht]) rfl rfl
  | @recv j c sck more hc ht =>
    refine hl.setTask hc rfl (fun _ => Iff.rfl) ?_ rfl rfl
    cases more <;> simp [Accepted.marked, ht]
  | delete hc ht => exact hl.delete h hc ht (hp.sck _ _ _ hc (Or.inr (Or.inl ht))) _
  | close hc ht => exact hl.close h hc ht (hp.sck _ _ _ hc (Or.inr (Or.inr ht))) _

/-! ### What the tasks did -/

/-- Every task acted on its own connection, and the log holds what its stage says. -/
structure Logged (s : TcpServer) : Prop where
  own : ∀ e ∈ s.log, e.2.2 = some e.1
  early : ∀ e ∈ s.log, e.1 < s.conns.length
  read : ∀ (k : Nat) (c : Accepted), s.conns[k]? = some c → c.drained →
    (k, .read, some k) ∈ s.log
  mark : ∀ (k : Nat) (c : Accepted), s.conns[k]? = some c →
    s.log.count (k, .mark, some k) = if c.marked then 1 else 0
  close : ∀ (k : Nat) (c : Accepted), s.conns[k]? = some c →
    s.log.count (k, .close, some k) = if c.closed then 1 else 0

/-- A step of the task of connection `j` that logs `act`. -/
theorem Logged.act {s s' : TcpServer} (h : Logged s) {j : Nat} {c : Accepted} {t : WaitData}
    (act : SocketAct) (hc : s.conns[j]? = some c) (hconns : s'.conns = (s.setTask j t).conns)
    (hlog : s'.log = s.log ++ [(j, act, some j)])
    (hread : Accepted.drained { c with task := some t } → c.drained ∨ act = .read)
    (hmark : (if Accepted.marked { c with task := some t } then 1 else 0) =
      (if c.marked then 1 else 0) + if act = .mark then 1 else 0)
    (hclose : (if Accepted.closed { c with task := some t } then 1 else 0) =
      (if c.closed then 1 else 0) + if act = .close then 1 else 0) : Logged s' := by
  have hcount (k : Nat) (a : SocketAct) : s'.log.count (k, a, some k) =
      s.log.count (k, a, some k) + if j = k ∧ act = a then 1 else 0 := by
    rw [hlog, List.count_append, List.count_singleton]
    congr 1
    by_cases hk : j = k ∧ act = a
    · simp [hk]
    · simp only [beq_iff_eq, Prod.mk.injEq, Option.some.injEq, if_neg hk]
      exact if_neg fun he => hk ⟨he.1, he.2.1⟩
  refine ⟨?_, ?_, ?_, ?_, ?_⟩
  · intro e he
    rw [hlog] at he
    rcases List.mem_append.mp he with he | he
    · exact h.own e he
    · obtain rfl := List.mem_singleton.mp he
      rfl
  · intro e he
    rw [hlog] at he
    rw [hconns, setTask_length]
    rcases List.mem_append.mp he with he | he
    · exact h.early e he
    · obtain rfl := List.mem_singleton.mp he
      exact (List.getElem?_eq_some_iff.mp hc).1
  · intro k d hd hdrained
    rw [hconns] at hd
    rw [hlog]
    obtain ⟨rfl, rfl⟩ | ⟨-, hd⟩ := setTask_cases hc hd
    · rcases hread hdrained with hr | rfl
      · exact List.mem_append_left _ (h.read k c hc hr)
      · exact List.mem_append_right _ (List.mem_singleton_self _)
    · exact List.mem_append_left _ (h.read k d hd hdrained)
  · intro k d hd
    rw [hconns] at hd
    rw [hcount]
    obtain ⟨rfl, rfl⟩ | ⟨hk, hd⟩ := setTask_cases hc hd
    · rw [hmark, h.mark k c hc]
      simp
    · rw [if_neg fun he => hk he.1.symm, h.mark k d hd, Nat.add_zero]
  · intro k d hd
    rw [hconns] at hd
    rw [hcount]
    obtain ⟨rfl, rfl⟩ | ⟨hk, hd⟩ := setTask_cases hc hd
    · rw [hclose, h.close k c hc]
      simp
    · rw [if_neg fun he => hk he.1.symm, h.close k d hd, Nat.add_zero]

/-- A step that changes the stage of a task before it has received everything. -/
theorem Logged.setTask {s s' : TcpServer} (h : Logged s) {j : Nat} {c : Accepted} {t : WaitData}
    (hc : s.conns[j]? = some c) (hconns : s'.conns = (s.setTask j t).conns) (hlog : s'.log = s.log)
    (hread : Accepted.drained { c with task := some t } = false)
    (hmark : Accepted.marked { c with task := some t } = c.marked)
    (hclose : Accepted.closed { c with task := some t } = c.closed) : Logged s' := by
  refine ⟨?_, ?_, ?_, ?_, ?_⟩
  · rw [hlog]
    exact h.own
  · rw [hlog, hconns, setTask_length]
    exact h.early
  · intro k d hd hdrained
    rw [hconns] at hd
    obtain ⟨rfl, rfl⟩ | ⟨-, hd⟩ := setTask_cases hc hd
    · rw [hread] at hdrained
      cases hdrained
    · exact hlog ▸ h.read k d hd hdrained
  · intro k d hd
    rw [hconns] at hd
    rw [hlog]
    obtain ⟨rfl, rfl⟩ | ⟨-, hd⟩ := setTask_cases hc hd
    · rw [hmark, h.mark k c hc]
    · exact h.mark k d hd
  · intro k d hd
    rw [hconns] at hd
    rw [hlog]
    obtain ⟨rfl, rfl⟩ | ⟨-, hd⟩ := setTask_cases hc hd
    · rw [hclose, h.close k c hc]
    · exact h.close k d hd

theorem logged_accept {s s' : TcpServer} (h : Logged s) (sock : Nat) (ip : UInt32)
    (hconns : s'.conns = s.conns ++ [⟨sock, ip, none⟩]) (hlog : s'.log = s.log) : Logged s' := by
  have hnew (a : SocketAct) :
      s.log.count (s.conns.length, a, some s.conns.length) = 0 := by
    rw [List.count_eq_zero]
    exact fun he => absurd (h.early _ he) (Nat.lt_irrefl _)
  refine ⟨?_, ?_, ?_, ?_, ?_⟩
  · rw [hlog]
    exact h.own
  · rw [hlog, hconns, List.length_append]
    exact fun e he => Nat.lt_succ_of_lt (h.early e he)
  · intro k d hd hdrained
    rw [hconns] at hd
    obtain ⟨-, rfl⟩ | ⟨-, hd⟩ := concat_cases hd
    · cases hdrained
    · exact hlog ▸ h.read k d hd hdrained
  · intro k d hd
    rw [hconns] at hd
    rw [hlog]
    obtain ⟨rfl, rfl⟩ | ⟨-, hd⟩ := concat_cases hd
    · exact hnew .mark
    · exact h.mark k d hd
  · intro k d hd
    rw [hconns] at hd
    rw [hlog]
    obtain ⟨rfl, rfl⟩ | ⟨-, hd⟩ := concat_cases hd
    · exact hnew .close
    · exact h.close k d hd

theorem logged_step {s s' : TcpServer} {e : TcpEvent} (h : Numbered s) (hp : Passed s)
    (hl : Listed s) (hlog : Logged s) (hC : HandedOver s e) (hstep : TcpStep s e s') :
    Logged s' := by
  have hquiet {s' : TcpServer} (h1 : s'.conns = s.conns) (h2 : s'.log = s.log) : Logged s' := by
    obtain ⟨h3, h4, h5, h6, h7⟩ := hlog
    exact ⟨h2 ▸ h3, h2 ▸ h1 ▸ h4, h2 ▸ h1 ▸ h5, h2 ▸ h1 ▸ h6, h2 ▸ h1 ▸ h7⟩
  cases hstep with
  | @accept sock ip hserver hfree => exact logged_accept hlog sock ip rfl rfl
  | refuse => exact hquiet rfl rfl
  | register => exact hquiet rfl rfl
  | store => exact hquiet rfl rfl
  | @create j c hserver hc =>
    have hnone : c.task = none := (h.hand j c hc).mpr (by rw [hserver]; rfl)
    exact hlog.setTask hc rfl rfl rfl (by simp [Accepted.marked, hnone])
      (by simp [Accepted.closed, hnone])
  | fail => cases hC
  | @start j c hc ht =>
    exact hlog.setTask hc rfl rfl rfl (by simp [Accepted.marked, ht])
      (by simp [Accepted.closed, ht])
  | @recv j c sck more hc ht =>
    have hsck : sck.toNat = c.sock := hp.sck j c sck hc (Or.inl ht)
    have hopen : s.openAt sck.toNat = some j := by
      rw [hsck]
      exact h.held j c hc (by simp [Accepted.closed, ht])
    refine hlog.act .read hc rfl ?_ (fun _ => Or.inr rfl) ?_ ?_
    · rw [hopen]
    · cases more <;> simp [Accepted.marked, ht]
    · cases more <;> simp [Accepted.closed, ht]
  | @delete j c sck hc ht =>
    have hsck : sck.toNat = c.sock := hp.sck j c sck hc (Or.inr (Or.inl ht))
    refine hlog.act .mark hc rfl ?_ (fun _ => Or.inl ?_) ?_ ?_
    · rw [deleteClient_conn, hsck, activeAt_of_received h hl hc ht]
      rfl
    · simp [Accepted.drained, ht]
    · simp [Accepted.marked, ht]
    · simp [Accepted.closed, ht]
  | @close j c sck hc ht =>
    have hsck : sck.toNat = c.sock := hp.sck j c sck hc (Or.inr (Or.inr ht))
    have hopen : s.openAt sck.toNat = some j := by
      rw [hsck]
      exact h.held j c hc (by simp [Accepted.closed, ht])
    refine hlog.act .close hc rfl ?_ (fun _ => Or.inl ?_) ?_ ?_
    · rw [hopen]
    · simp [Accepted.drained, ht]
    · simp [Accepted.marked, ht]
    · simp [Accepted.closed, ht]

/-! ### Runs -/

structure Handover (s : TcpServer) : Prop where
  numbered : Numbered s
  passed : Passed s
  listed : Listed s
  logged : Logged s

theorem tcpStep_handover (s : TcpServer) (e : TcpEvent) (s' : TcpServer) (h : Handover s)
    (hC : HandedOver s e) (hstep : tcpStep s e = some s') : Handover s' := by
  obtain ⟨hn, hp, hl, hlog⟩ := h
  have hs := tcpStep_sound hstep
  exact ⟨numbered_step hn hp hC hs, passed_step hn hp hC hs, listed_step hn hp hl hC hs,
    logged_step hn hp hl hlog hC hs⟩

theorem handover_init : Handover tcpServerInit :=
  ⟨⟨nofun, nofun, nofun, nofun⟩, ⟨nofun, nofun, nofun⟩, fun _ => rfl, ⟨nofun, nofun, nofun, nofun,
    nofun⟩⟩

/-- Every accepted socket has its own task, in every state of a run that hands all of them over. -/
theorem sockets_served {es : List TcpEvent} {s : TcpServer}
    (hC : Runs.Meets tcpStep HandedOver tcpServerInit es)
    (hrun : Runs.run tcpStep tcpServerInit es = some s) {k : Nat} {c : Accepted}
    (hc : s.conns[k]? = some c) : Served s k c := by
  obtain ⟨hn, -, -, hlog⟩ := Runs.run_invariant_of_meets tcpStep_handover handover_init hC hrun
  refine ⟨?_, hlog.read k c hc, hlog.mark k c hc, hlog.close k c hc, fun ht => ?_⟩
  · intro j a he
    exact (Option.some.inj (hlog.own _ he)).symm
  · have hhand := (hn.hand k c hc).mp ht
    cases hserver : s.server <;> rw [hserver] at hhand <;> simp_all [ServerTask.hand]

/-- `server_task` hands a socket over, and its task serves it. -/
def handOver (sock : Nat) : List TcpEvent :=
  [.accept sock 0x0100007F, .register, .store, .create true]

def serve (j : Nat) : List TcpEvent := [.start j, .recv j true, .recv j false, .delete j, .close j]

/-- One connection after another, with the same socket number. -/
def inTurn : List TcpEvent := handOver 54 ++ serve 0 ++ handOver 54 ++ serve 1

theorem sockets_served_twice : ∃ s, Runs.run tcpStep tcpServerInit inTurn = some s ∧
    Served s 0 ⟨54, 0x0100007F, some (.closed 54)⟩ ∧
    Served s 1 ⟨54, 0x0100007F, some (.closed 54)⟩ := by
  have hC : Runs.Meets tcpStep HandedOver tcpServerInit inTurn := by decide
  exact ⟨_, rfl, sockets_served hC rfl rfl, sockets_served hC rfl rfl⟩

/-- Two sockets are accepted before the first task runs.  Both tasks end, and neither has touched
the first connection. -/
theorem socket_forgotten : ∃ s,
    Runs.run tcpStep tcpServerInit (handOver 54 ++ handOver 55 ++ serve 0 ++ serve 1) = some s ∧
    s.server = .listening ∧ (∀ c ∈ s.conns, c.closed) ∧ s.conns.length = 2 ∧
    ∀ e ∈ s.log, e.2.2 ≠ some 0 :=
  ⟨_, rfl, rfl, by decide, rfl, by decide⟩

end DaliController.Tcp
