import DaliController.Lib.Runs
import DaliController.Rs485.Packet

/-! Sending a message.  `Sender` waits for `_sender_task`, which writes one fragment after another
and waits for each acknowledgement on a semaphore that any packet for this device gives.  The task
reports only fragments that were never written completely. -/

namespace DaliController.Rs485

open CString

inductive ReturnType
  | ok
  | hardwareError
  | busy
  deriving DecidableEq, Repr

/-- A call of `Sender`. -/
structure Call where
  id : Nat
  receiver : UInt8
  text : Text

/-- A call that `_sender_task` took from the queue, with the message it sends. -/
structure Job where
  call : Call
  message : Message

/-- Where `_sender_task` is: at `xQueueReceive`, or at fragment `i` with `send_counter`. -/
inductive Task
  | idle
  | writing (job : Job) (i counter : Nat)
  | clearing (job : Job) (i counter : Nat)
  | waiting (job : Job) (i counter : Nat)
  | checking (job : Job) (i counter : Nat)
  | finishing (job : Job)

/-- A write of a fragment of a call. -/
structure Attempt where
  call : Nat
  index : Nat
  head : Header
  complete : Bool
  deriving DecidableEq

/-- The writes so far, and those whose acknowledgement arrived after them. -/
structure Trace where
  attempted : List Attempt
  acked : List Attempt

/-- A value that `Sender` returned, with the trace at that time. -/
structure Return where
  call : Call
  ret : ReturnType
  trace : Trace

/-- The sending side of `RS485`.  `giving` holds while `_event_task` is between its two statements;
`caller` is the call that waits for `send_paket_sem`. -/
structure SenderState where
  deviceId : UInt8
  paketCounter : UInt16
  queue : List Call
  task : Task
  ackOk : Bool
  ackSem : Bool
  giving : Bool
  busy : Bool
  caller : Option Call
  sendPaketSem : Option Bool
  sendPaketError : Bool
  calls : Nat
  trace : Trace
  returns : List Return

inductive SenderEvent
  | call (receiver : UInt8) (text : Text)
  | dequeue
  | write (complete : Bool)
  | clear
  | packet (hd : Header)
  | give
  | take
  | ackTimeout
  | check
  | finish
  | wake
  | giveUp

/-- The header that the receiver of a fragment sends back. -/
def Header.echo (hd : Header) : Header := { hd with sender := hd.receiver, receiver := hd.sender }

/-- What `_event_task` takes for an acknowledgement. -/
def Header.forMe (hd : Header) (id : UInt8) : Bool :=
  decide (hd.receiver = id ∧ hd.paketType = .normal)

namespace Trace

variable (tr : Trace)

def attempt (a : Attempt) : Trace := { tr with attempted := tr.attempted ++ [a] }

/-- A header on the line acknowledges what was written before with the same header. -/
def hear (hd : Header) : Trace :=
  { tr with
    acked := tr.acked ++ tr.attempted.filter fun a => a.complete && decide (a.head.echo = hd) }

end Trace

/-- The next fragment of a message, if there is one. -/
def Job.next (job : Job) (i : Nat) : Task :=
  if i + 1 < job.message.sayi then .writing job (i + 1) 0 else .finishing job

/-- The end of a round of the retry loop in which `sended` became false. -/
def SenderState.sended (s : SenderState) (job : Job) (i counter : Nat) : SenderState :=
  { s with
    sendPaketError := s.sendPaketError || decide (3 < counter)
    task := job.next i }

/-- The end of `_Sender`, after its wait. -/
def SenderState.return (s : SenderState) (c : Call) : SenderState :=
  { s with
    busy := false
    caller := none
    sendPaketSem := none
    returns := s.returns ++ [⟨c, if s.sendPaketError then .hardwareError else .ok, s.trace⟩] }

def senderStep (s : SenderState) : SenderEvent → Option SenderState
  | .call receiver text =>
    let c : Call := ⟨s.calls, receiver, text⟩
    if s.busy then
      some { s with calls := s.calls + 1, returns := s.returns ++ [⟨c, .busy, s.trace⟩] }
    else
      some { s with
        calls := s.calls + 1
        busy := true
        caller := some c
        sendPaketSem := some false
        sendPaketError := false
        -- `xQueueSend` without a wait
        queue := if s.queue.length < 5 then s.queue ++ [c] else s.queue }
  | .dequeue =>
    match s.task, s.queue with
    | .idle, c :: rest =>
      let job : Job := ⟨c, ⟨s.deviceId, c.receiver, .normal, s.paketCounter, c.text⟩⟩
      some { s with
        queue := rest
        paketCounter := s.paketCounter + 1
        task := if 0 < job.message.sayi then .writing job 0 0 else .finishing job }
    | _, _ => none
  | .write complete =>
    match s.task with
    | .writing job i counter =>
      let s :=
        { s with trace := s.trace.attempt ⟨job.call.id, i, job.message.head i, complete⟩ }
      if complete then
        if job.message.receiver ≠ 255 then some { s with task := .clearing job i (counter + 1) }
        else some (s.sended job i (counter + 1))
      else if 3 < counter + 1 then some (s.sended job i (counter + 1))
      else some { s with task := .writing job i (counter + 1) }
    | _ => none
  | .clear =>
    match s.task with
    | .clearing job i counter => some { s with ackOk := false, task := .waiting job i counter }
    | _ => none
  | .packet hd =>
    if s.giving then none
    else
      let forMe := hd.forMe s.deviceId
      some { s with
        ackOk := s.ackOk || forMe
        giving := forMe
        trace := s.trace.hear hd }
  | .give => if s.giving then some { s with ackSem := true, giving := false } else none
  | .take =>
    match s.task with
    | .waiting job i counter =>
      if s.ackSem then some { s with ackSem := false, task := .checking job i counter } else none
    | _ => none
  | .ackTimeout =>
    match s.task with
    | .waiting job i counter =>
      if s.ackSem then none else some { s with task := .checking job i counter }
    | _ => none
  | .check =>
    match s.task with
    | .checking job i counter =>
      -- Without `ack_ok` the `break` leaves `send_paket_error` as it is.
      if s.ackOk then some (s.sended job i counter) else some { s with task := job.next i }
    | _ => none
  | .finish =>
    match s.task with
    | .finishing _ =>
      some { s with sendPaketSem := s.sendPaketSem.map fun _ => true, task := .idle }
    | _ => none
  | .wake =>
    match s.caller, s.sendPaketSem with
    | some c, some true => some (s.return c)
    | _, _ => none
  | .giveUp =>
    match s.caller, s.sendPaketSem with
    | some c, some false => some (s.return c)
    | _, _ => none

def senderInit (id : UInt8) : SenderState :=
  ⟨id, 0, [], .idle, false, false, false, false, none, none, false, 0, ⟨[], []⟩, []⟩

abbrev senderRun (s : SenderState) (es : List SenderEvent) : Option SenderState :=
  Runs.run senderStep s es

end DaliController.Rs485
