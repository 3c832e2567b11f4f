import DaliController.Tcp.Accept
import DaliController.Lib.CString
import Mathlib.Data.List.Nodup

/-! The clients that `Send` writes to.  An entry of `client_handle` is never removed: it becomes
inactive when its connection ends, and active again for a later connection with the same address
and socket.  `delete_client` goes by the socket alone, which is enough: an accepted socket is not
open, so none of its entries is active.

A step stands for what `server_task` and the task of the connection do between two states in which
every open connection has its task. -/

namespace DaliController.Tcp

open CString

/-- An open connection.  The connections are counted as they are accepted. -/
structure OpenConn where
  id : Nat
  sock : Nat
  ip : UInt32
  deriving DecidableEq, Repr

/-- The clients, beside the connections that are open. -/
structure ClientServer where
  clientHandle : List TcpClient
  senderBusy : Bool
  accepted : Nat
  conns : List OpenConn
  deriving DecidableEq, Repr

def clientServerInit : ClientServer := ⟨[], false, 0, []⟩

/-! ### The code -/

/-- The loop of `Send`: the sockets that it writes to, with the bytes. -/
def sendLoop (dt : List UInt8) : List TcpClient → List (Nat × List UInt8)
  | [] => []
  | target :: next =>
    if target.active = true then (target.sock, dt) :: sendLoop dt next else sendLoop dt next

/-- `Send`, with what it writes. -/
def ClientServer.send (s : ClientServer) (data : List UInt8) :
    List (Nat × List UInt8) × ClientServer :=
  if s.senderBusy then ([], s)
  else
    let s := { s with senderBusy := true }
    (sendLoop (cstring data ++ [0x26]) s.clientHandle, { s with senderBusy := false })

inductive ClientEvent
  | connect (sock : Nat) (ip : UInt32)
  | disconnect (id : Nat)
  | send (data : List UInt8)
  deriving DecidableEq, Repr

/-- A connection is accepted and registered, or its task calls `delete_client` and `close`, or a
message is sent.  `accept` returns a number that no open socket has. -/
def clientStep (s : ClientServer) : ClientEvent → Option ClientServer
  | .connect sock ip =>
    if sock < 256 ∧ ∀ c ∈ s.conns, c.sock ≠ sock then some { s with
      clientHandle := register s.accepted sock ip s.clientHandle
      accepted := s.accepted + 1
      conns := s.conns ++ [⟨s.accepted, sock, ip⟩] }
    else none
  | .disconnect id =>
    (s.conns.find? fun c => c.id = id).map fun c =>
      let sck := UInt8.ofNat c.sock
      { s with
        clientHandle := (deleteClient sck.toNat s.clientHandle).1
        conns := s.conns.filter fun d => d.sock ≠ sck.toNat }
  | .send data => some (s.send data).2

/-! ### Active entries -/

/-- The connections that the active entries are for. -/
def activeConns (clients : List TcpClient) : List OpenConn :=
  (clients.filter (·.active)).map fun x => ⟨x.conn, x.sock, x.ip⟩

@[simp] theorem activeConns_cons (x : TcpClient) (xs : List TcpClient) :
    activeConns (x :: xs) =
      if x.active = true then ⟨x.conn, x.sock, x.ip⟩ :: activeConns xs else activeConns xs := by
  unfold activeConns
  cases h : x.active <;> simp [h]

theorem sendLoop_eq (dt : List UInt8) (clients : List TcpClient) :
    sendLoop dt clients = (activeConns clients).map fun c => (c.sock, dt) := by
  induction clients with
  | nil => rfl
  | cons x xs ih =>
    rw [sendLoop, activeConns_cons]
    split
    · rw [ih, List.map_cons]
    · exact ih

/-- An inactive entry becomes the one of the new connection. -/
theorem activeConns_registerClient {k sock : Nat} {ip : UInt32}
    {clients clients' : List TcpClient} (hfree : ∀ c ∈ activeConns clients, c.sock ≠ sock)
    (h : registerClient k sock ip clients = some clients') :
    (activeConns clients').Perm (⟨k, sock, ip⟩ :: activeConns clients) := by
  induction clients generalizing clients' with
  | nil => cases h
  | cons x xs ih =>
    rw [activeConns_cons] at hfree
    rw [registerClient] at h
    by_cases hactive : x.active = true
    · rw [if_pos hactive] at hfree
      have hx : ¬(x.ip = ip ∧ x.sock = sock) := fun he => hfree _ List.mem_cons_self he.2
      rw [if_neg hx] at h
      obtain ⟨ys, hys, rfl⟩ := Option.map_eq_some_iff.mp h
      have hrest := ih (fun c hc => hfree c (List.mem_cons_of_mem _ hc)) hys
      rw [activeConns_cons, activeConns_cons, if_pos hactive, if_pos hactive]
      exact (hrest.cons _).trans (List.Perm.swap _ _ _)
    · rw [if_neg hactive] at hfree
      by_cases hx : x.ip = ip ∧ x.sock = sock
      · rw [if_pos hx] at h
        cases h
        rw [activeConns_cons, activeConns_cons, if_pos rfl, if_neg hactive, hx.1, hx.2]
      · rw [if_neg hx] at h
        obtain ⟨ys, hys, rfl⟩ := Option.map_eq_some_iff.mp h
        rw [activeConns_cons, activeConns_cons, if_neg hactive, if_neg hactive]
        exact ih hfree hys

theorem activeConns_register {k sock : Nat} {ip : UInt32} {clients : List TcpClient}
    (hfree : ∀ c ∈ activeConns clients, c.sock ≠ sock) :
    (activeConns (register k sock ip clients)).Perm (⟨k, sock, ip⟩ :: activeConns clients) := by
  unfold register
  cases h : registerClient k sock ip clients with
  | some clients' => exact activeConns_registerClient hfree h
  | none =>
    rw [Option.getD_none, activeConns_cons, if_pos rfl]

/-- With one active entry for a socket, the first one is the only one. -/
theorem activeConns_deleteClient {clients : List TcpClient} (sock : Nat)
    (h : ((activeConns clients).map OpenConn.sock).Nodup) :
    activeConns (deleteClient sock clients).1 =
      (activeConns clients).filter fun c => c.sock ≠ sock := by
  induction clients with
  | nil => rfl
  | cons x xs ih =>
    rw [activeConns_cons] at h
    rw [deleteClient, activeConns_cons]
    by_cases hactive : x.active = true
    · rw [if_pos hactive, List.map_cons, List.nodup_cons] at h
      obtain ⟨hnew, hnodup⟩ := h
      rw [if_pos hactive]
      by_cases hsock : x.sock = sock
      · have hothers : ∀ c ∈ activeConns xs, decide (c.sock ≠ sock) = true := by
          intro c hc
          refine decide_eq_true fun he => hnew ?_
          exact List.mem_map.mpr ⟨c, hc, he.trans hsock.symm⟩
        rw [if_pos ⟨hsock, hactive⟩, activeConns_cons, if_neg Bool.false_ne_true,
          List.filter_cons_of_neg (by simpa using hsock), List.filter_eq_self.mpr hothers]
      · rw [if_neg fun he => hsock he.1, activeConns_cons, if_pos hactive,
          List.filter_cons_of_pos (by simpa using hsock), ih hnodup]
    · rw [if_neg hactive] at h
      rw [if_neg fun he => hactive he.2, activeConns_cons, if_neg hactive, if_neg hactive, ih h]

/-! ### Runs -/

/-- The active entries are for the open connections, one for each. -/
structure OneToOne (s : ClientServer) : Prop where
  active : (activeConns s.clientHandle).Perm s.conns
  socks : (s.conns.map OpenConn.sock).Nodup
  ids : (s.conns.map OpenConn.id).Nodup
  small : ∀ c ∈ s.conns, c.sock < 256
  counted : ∀ c ∈ s.conns, c.id < s.accepted
  idle : s.senderBusy = false

theorem nodup_map_concat {f : OpenConn → Nat} {conns : List OpenConn} {c : OpenConn}
    (h : (conns.map f).Nodup) (hnew : ∀ d ∈ conns, f d ≠ f c) : ((conns ++ [c]).map f).Nodup := by
  rw [List.map_append, List.map_singleton, List.nodup_append_comm, List.singleton_append,
    List.nodup_cons, List.mem_map]
  refine ⟨?_, h⟩
  rintro ⟨d, hd, he⟩
  exact hnew d hd he

theorem oneToOne_connect {s : ClientServer} (h : OneToOne s) {sock : Nat} (ip : UInt32)
    (hsmall : sock < 256) (hfree : ∀ c ∈ s.conns, c.sock ≠ sock) :
    OneToOne { s with
      clientHandle := register s.accepted sock ip s.clientHandle
      accepted := s.accepted + 1
      conns := s.conns ++ [⟨s.accepted, sock, ip⟩] } := by
  have hactive : ∀ c ∈ activeConns s.clientHandle, c.sock ≠ sock :=
    fun c hc => hfree c (h.active.mem_iff.mp hc)
  constructor
  case active =>
    have hnew : (activeConns (register s.accepted sock ip s.clientHandle)).Perm
        (⟨s.accepted, sock, ip⟩ :: activeConns s.clientHandle) := activeConns_register hactive
    exact hnew.trans ((h.active.cons _).trans (List.perm_append_singleton _ _).symm)
  case socks => exact nodup_map_concat h.socks hfree
  case ids => exact nodup_map_concat h.ids fun c hc => Nat.ne_of_lt (h.counted c hc)
  case small =>
    intro c hc
    rcases List.mem_append.mp hc with hc | hc
    · exact h.small c hc
    · rw [List.mem_singleton.mp hc]
      exact hsmall
  case counted =>
    intro c hc
    rcases List.mem_append.mp hc with hc | hc
    · exact Nat.lt_succ_of_lt (h.counted c hc)
    · rw [List.mem_singleton.mp hc]
      exact Nat.lt_succ_self _
  case idle => exact h.idle

theorem oneToOne_disconnect {s : ClientServer} (h : OneToOne s) (sock : Nat) :
    OneToOne { s with
      clientHandle := (deleteClient sock s.clientHandle).1
      conns := s.conns.filter fun d => d.sock ≠ sock } := by
  have hsub : (s.conns.filter fun d => d.sock ≠ sock).Sublist s.conns := List.filter_sublist
  constructor
  case active =>
    have hnodup : ((activeConns s.clientHandle).map OpenConn.sock).Nodup :=
      (h.active.map OpenConn.sock).nodup_iff.mpr h.socks
    show (activeConns (deleteClient sock s.clientHandle).1).Perm _
    rw [activeConns_deleteClient sock hnodup]
    exact h.active.filter _
  case socks => exact (hsub.map _).nodup h.socks
  case ids => exact (hsub.map _).nodup h.ids
  case small => exact fun c hc => h.small c (hsub.subset hc)
  case counted => exact fun c hc => h.counted c (hsub.subset hc)
  case idle => exact h.idle

theorem oneToOne_send {s : ClientServer} (h : OneToOne s) (data : List UInt8) :
    OneToOne (s.send data).2 := by
  unfold ClientServer.send
  rw [h.idle, if_neg Bool.false_ne_true]
  exact { h with idle := rfl }

theorem clientStep_oneToOne (s : ClientServer) (e : ClientEvent) (s' : ClientServer)
    (h : OneToOne s) (hstep : clientStep s e = some s') : OneToOne s' := by
  cases e with
  | connect sock ip =>
    rw [clientStep] at hstep
    split at hstep
    · rename_i hfree
      cases hstep
      exact oneToOne_connect h ip hfree.1 hfree.2
    · cases hstep
  | disconnect id =>
    obtain ⟨c, -, rfl⟩ := Option.map_eq_some_iff.mp hstep
    exact oneToOne_disconnect h _
  | send data =>
    cases hstep
    exact oneToOne_send h data

theorem clientServerInit_oneToOne : OneToOne clientServerInit :=
  ⟨.nil, List.nodup_nil, List.nodup_nil, nofun, nofun, rfl⟩

/-- A message is written to the sockets of the open connections, once to each. -/
theorem OneToOne.send {s : ClientServer} (h : OneToOne s) (data : List UInt8) :
    (s.send data).1.Perm (s.conns.map fun c => (c.sock, cstring data ++ [0x26])) := by
  unfold ClientServer.send
  rw [h.idle, if_neg Bool.false_ne_true]
  show (sendLoop _ _).Perm _
  rw [sendLoop_eq]
  exact h.active.map _

/-- In every state of a run, the active entries are those of the open connections, and a message
is written once to each of them and to no other socket. -/
theorem clients_match_connections {es : List ClientEvent} {s : ClientServer}
    (hrun : Runs.run clientStep clientServerInit es = some s) :
    (activeConns s.clientHandle).Perm s.conns ∧ (s.conns.map OpenConn.id).Nodup ∧
      (s.conns.map OpenConn.sock).Nodup ∧
      ∀ data, (s.send data).1.Perm (s.conns.map fun c => (c.sock, cstring data ++ [0x26])) := by
  have h : OneToOne s := Runs.run_invariant clientStep_oneToOne clientServerInit_oneToOne hrun
  exact ⟨h.active, h.ids, h.socks, h.send⟩

/-- Socket 54 goes from one address to another and back to the entry of the first. -/
def reused : List ClientEvent :=
  [.connect 54 0x0100007F, .connect 55 0x0200007F, .disconnect 0, .connect 54 0x0200007F,
    .disconnect 2, .send [0x7B, 0x7D], .connect 54 0x0100007F]

theorem clients_match_reused : ∃ s, Runs.run clientStep clientServerInit reused = some s ∧
    s.conns = [⟨1, 55, 0x0200007F⟩, ⟨3, 54, 0x0100007F⟩] ∧ s.clientHandle.length = 3 ∧
    (s.send [0x7B, 0x7D]).1.Perm [(55, [0x7B, 0x7D, 0x26]), (54, [0x7B, 0x7D, 0x26])] := by
  have hrun : ∃ s, Runs.run clientStep clientServerInit reused = some s ∧
      s.conns = [⟨1, 55, 0x0200007F⟩, ⟨3, 54, 0x0100007F⟩] ∧ s.clientHandle.length = 3 :=
    ⟨_, rfl, rfl, rfl⟩
  obtain ⟨s, hrun, hconns, hlength⟩ := hrun
  have hsend := (clients_match_connections hrun).2.2.2 [0x7B, 0x7D]
  rw [hconns] at hsend
  exact ⟨s, hrun, hconns, hlength, hsend⟩

/-! ### The steps of the tasks -/

/-- What `server_task` and the task of the connection do in a step. -/
def ClientEvent.steps (accepted : Nat) : ClientEvent → List TcpEvent
  | .connect sock ip => [.accept sock ip, .register, .store, .create true, .start accepted]
  | .disconnect id => [.recv id false, .delete id, .close id]
  | .send _ => []

/-- Between the steps, every open connection has a task that reads from its socket. -/
structure Refines (t : TcpServer) (s : ClientServer) : Prop where
  server : t.server = .listening
  clients : t.clientHandle = s.clientHandle
  accepted : t.conns.length = s.accepted
  sockets : ∀ n k, t.openAt n = some k ↔ ∃ c ∈ s.conns, c.sock = n ∧ c.id = k
  tasks : ∀ c ∈ s.conns,
    t.conns[c.id]? = some ⟨c.sock, c.ip, some (.reading (UInt8.ofNat c.sock))⟩

/-- The entry of the new connection changes. -/
theorem modify_concat (conns : List Accepted) (c : Accepted) (f : Accepted → Accepted) :
    (conns ++ [c]).modify conns.length f = conns ++ [f c] := by
  induction conns with
  | nil => rfl
  | cons d conns ih => exact congrArg (d :: ·) ih

theorem refines_connect {t : TcpServer} {s : ClientServer} (h : Refines t s) {sock : Nat}
    (ip : UInt32) (hfree : ∀ c ∈ s.conns, c.sock ≠ sock)
    (hcounted : ∀ c ∈ s.conns, c.id < s.accepted) :
    ∃ t', Runs.run tcpStep t ((ClientEvent.connect sock ip).steps s.accepted) = some t' ∧
      Refines t' { s with
        clientHandle := register s.accepted sock ip s.clientHandle
        accepted := s.accepted + 1
        conns := s.conns ++ [⟨s.accepted, sock, ip⟩] } := by
  have hnone : t.openAt sock = none := by
    rw [Option.eq_none_iff_forall_ne_some]
    intro k hk
    obtain ⟨c, hc, hsock, -⟩ := (h.sockets sock k).mp hk
    exact hfree c hc hsock
  obtain ⟨task, htask⟩ : ∃ task, task = some (WaitData.reading (UInt8.ofNat sock)) := ⟨_, rfl⟩
  have hrun : Runs.run tcpStep t ((ClientEvent.connect sock ip).steps s.accepted) =
      some { t with
        conns := t.conns ++ [⟨sock, ip, task⟩]
        clientHandle := register s.accepted sock ip s.clientHandle
        lastSocket := UInt8.ofNat sock
        openAt := Function.update t.openAt sock (some s.accepted) } := by
    simp [ClientEvent.steps, tcpStep, h.server, hnone, ← h.accepted, h.clients, htask,
      TcpServer.setTask, modify_concat]
  refine ⟨_, hrun, ?_⟩
  constructor
  case server => exact h.server
  case clients => rfl
  case accepted =>
    show (t.conns ++ [_]).length = s.accepted + 1
    rw [List.length_append, List.length_singleton, h.accepted]
  case sockets =>
    intro n k
    show Function.update t.openAt sock (some s.accepted) n = some k ↔
      ∃ c ∈ s.conns ++ [⟨s.accepted, sock, ip⟩], c.sock = n ∧ c.id = k
    simp only [List.mem_append, List.mem_singleton, or_and_right, exists_or, exists_eq_left]
    rcases eq_or_ne n sock with rfl | hne
    · have hnot : ¬∃ c ∈ s.conns, c.sock = n ∧ c.id = k := by
        rintro ⟨c, hc, hsock, -⟩
        exact hfree c hc hsock
      rw [Function.update_self, Option.some_inj, or_iff_right hnot, and_iff_right rfl]
    · rw [Function.update_of_ne hne, h.sockets n k, or_iff_left fun hnew => hne hnew.1.symm]
  case tasks =>
    intro c hc
    rcases List.mem_append.mp hc with hc | hc
    · have hlt : c.id < t.conns.length := by
        rw [h.accepted]
        exact hcounted c hc
      show (t.conns ++ [_])[c.id]? = _
      rw [List.getElem?_append_left hlt]
      exact h.tasks c hc
    · rw [List.mem_singleton.mp hc, htask, ← h.accepted]
      exact List.getElem?_concat_length

/-- Only the connection that ends leaves its task. -/
theorem refines_disconnect {t : TcpServer} {s : ClientServer} (h : Refines t s) (hs : OneToOne s)
    {c : OpenConn} (hc : c ∈ s.conns) :
    ∃ t', Runs.run tcpStep t ((ClientEvent.disconnect c.id).steps s.accepted) = some t' ∧
      Refines t' { s with
        clientHandle := (deleteClient c.sock s.clientHandle).1
        conns := s.conns.filter fun d => d.sock ≠ c.sock } := by
  have htask := h.tasks c hc
  have hsck : (UInt8.ofNat c.sock).toNat = c.sock := UInt8.toNat_ofNat_of_lt' (hs.small c hc)
  obtain ⟨log, hrun⟩ : ∃ log, Runs.run tcpStep t
      ((ClientEvent.disconnect c.id).steps s.accepted) = some { t with
        conns := t.conns.modify c.id fun d => ⟨d.sock, d.ip, some (.closed (UInt8.ofNat c.sock))⟩
        clientHandle := (deleteClient c.sock s.clientHandle).1
        openAt := Function.update t.openAt c.sock none
        log } := by
    simp [ClientEvent.steps, tcpStep, htask, TcpServer.setTask, h.clients, hsck,
      List.modify_modify_eq, Function.comp_def]
  refine ⟨_, hrun, ?_⟩
  constructor
  case server => exact h.server
  case clients => rfl
  case accepted => exact (List.length_modify ..).trans h.accepted
  case sockets =>
    intro n k
    show Function.update t.openAt c.sock none n = some k ↔
      ∃ d ∈ s.conns.filter fun d => d.sock ≠ c.sock, d.sock = n ∧ d.id = k
    simp only [List.mem_filter, decide_eq_true_eq, and_assoc]
    rcases eq_or_ne n c.sock with rfl | hne
    · rw [Function.update_self]
      constructor
      · intro hnone
        cases hnone
      · rintro ⟨d, -, hother, hsock, -⟩
        exact absurd hsock hother
    · rw [Function.update_of_ne hne, h.sockets n k]
      refine exists_congr fun d => and_congr_right fun _ => (and_iff_right_of_imp ?_).symm
      rintro ⟨rfl, -⟩
      exact hne
  case tasks =>
    intro d hd
    obtain ⟨hd, hother⟩ := List.mem_filter.mp hd
    have hid : c.id ≠ d.id := by
      intro he
      obtain rfl : c = d := List.inj_on_of_nodup_map hs.ids hc hd he
      exact absurd rfl (of_decide_eq_true hother)
    show (t.conns.modify c.id _)[d.id]? = _
    rw [List.getElem?_modify_ne _ _ hid]
    exact h.tasks d hd

/-- Each step of the clients is one of the tasks, if they are served one after the other. -/
theorem refines_step {t : TcpServer} {s s' : ClientServer} (h : Refines t s) (hs : OneToOne s)
    {e : ClientEvent} (hstep : clientStep s e = some s') :
    ∃ t', Runs.run tcpStep t (e.steps s.accepted) = some t' ∧ Refines t' s' := by
  cases e with
  | connect sock ip =>
    rw [clientStep] at hstep
    split at hstep
    · rename_i hfree
      cases hstep
      exact refines_connect h ip hfree.2 hs.counted
    · cases hstep
  | disconnect id =>
    obtain ⟨c, hc, rfl⟩ := Option.map_eq_some_iff.mp hstep
    have hmem : c ∈ s.conns := List.mem_of_find?_eq_some hc
    have hid : c.id = id := by simpa using List.find?_some hc
    have hsck : (UInt8.ofNat c.sock).toNat = c.sock := UInt8.toNat_ofNat_of_lt' (hs.small c hmem)
    rw [← hid]
    simp only [hsck]
    exact refines_disconnect h hs hmem
  | send data =>
    cases hstep
    refine ⟨t, rfl, ?_⟩
    unfold ClientServer.send
    rw [hs.idle, if_neg Bool.false_ne_true]
    exact ⟨h.server, h.clients, h.accepted, h.sockets, h.tasks⟩

/-- Every run of the clients is a run of the tasks, with the same list of clients. -/
theorem clients_refine {es : List ClientEvent} {s : ClientServer}
    (hrun : Runs.run clientStep clientServerInit es = some s) :
    ∃ es' t, Runs.run tcpStep tcpServerInit es' = some t ∧ Refines t s := by
  have hinit : Refines tcpServerInit clientServerInit :=
    ⟨rfl, rfl, rfl, fun n k => iff_of_false nofun nofun, nofun⟩
  have hstep : ∀ s e s', (OneToOne s ∧
      ∃ es' t, Runs.run tcpStep tcpServerInit es' = some t ∧ Refines t s) →
      clientStep s e = some s' → OneToOne s' ∧
        ∃ es' t, Runs.run tcpStep tcpServerInit es' = some t ∧ Refines t s' := by
    rintro s e s' ⟨hs, es', t, ht, h⟩ hstep
    obtain ⟨t', ht', h'⟩ := refines_step h hs hstep
    exact ⟨clientStep_oneToOne s e s' hs hstep, _, t', Runs.run_append_of ht ht', h'⟩
  exact (Runs.run_invariant hstep ⟨clientServerInit_oneToOne, [], _, rfl, hinit⟩ hrun).2

end DaliController.Tcp
