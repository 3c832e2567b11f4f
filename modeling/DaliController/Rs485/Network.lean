import DaliController.Rs485.Delivery
import DaliController.Rs485.Sender
import DaliController.Rs485.Transparency

/-! Several stations on one line.  What a station writes is heard by all others, one write after
another, and each write reaches `_event_task` as one event: `UART_PATTERN_DET` when there is a
pattern in it, otherwise `UART_DATA`.  The driver does not lose bytes, and a write is complete. -/

namespace DaliController.Rs485

open CString Pattern

/-- Both halves of `RS485`, with what `ping` waits for. -/
structure Station where
  sender : SenderState
  device : Device
  pingOk : Bool
  pingSem : Bool

/-- What the receiver of a fragment writes back: the header with sender and receiver exchanged. -/
def answerBytes (id : UInt8) (header : List UInt8) : List UInt8 :=
  id :: header.getD 0 0 :: header.drop 2

/-- The answer to a ping.  Only the four bits of `paket_type` change in the byte of the flags. -/
def pongBytes (header : List UInt8) : List UInt8 :=
  header.getD 1 0 :: header.getD 0 0 :: header.getD 2 0 :: header.getD 3 0 ::
    ((header.getD 4 0 &&& 0xF0) ||| 2) :: header.drop 5

/-- `_event_task` for one write of another station, with what it writes itself.  There is no result
when something stays behind in the driver's buffer, or while the task is still giving `ack_sem`. -/
def Station.hear (shl : UInt8 → UInt64) (st : Station) (bytes : List UInt8) :
    Option (Station × List (List UInt8)) :=
  if st.sender.giving then none
  else match pairPos 0x23 bytes with
    | some pos =>
      if pos + 2 ≠ bytes.length then none
      else if pos = 0 then some (st, [])
      else
        let header := (bytes.take pos ++ List.replicate (bufSize - pos) 0).take espLayout.size
        (patternDet espLayout shl st.device (bytes.take pos)).map fun device =>
          ({ st with device }, if (espLayout.read header).receiver = st.device.deviceId
            then [answerBytes st.device.deviceId header] else [])
    | none =>
      if bytes.length < espLayout.size then some (st, [])
      else
        let header := bytes.take espLayout.size
        let hd := espLayout.read header
        let forMe := decide (hd.receiver = st.device.deviceId)
        (senderStep st.sender (.packet hd)).map fun sender =>
          ({ st with
              sender
              pingOk := st.pingOk || forMe && decide (hd.paketType = .pong)
              pingSem := st.pingSem || forMe && decide (hd.paketType = .pong) },
            if forMe ∧ hd.paketType = .ping then [pongBytes header] else [])

/-- The stations, the writes that are on their way, and the calls of `Sender` that were not turned
down. -/
structure Network (n : Nat) where
  stations : Fin n → Station
  pending : List (Fin n × List UInt8)
  accepted : List (Fin n × UInt8 × Text)

inductive NetEvent (n : Nat)
  | call (k : Fin n) (receiver : UInt8) (text : Text)
  /-- `_sender_task` writes a fragment.  The bytes of the header that no field occupies hold what
  `malloc` has left there. -/
  | write (k : Fin n) (pad : Padding)
  /-- Any other step of the tasks of one station. -/
  | task (k : Fin n) (e : SenderEvent)
  /-- `ping` writes its header.  It sets four fields and the type. -/
  | ping (k : Fin n) (receiver : UInt8) (hd : Header) (pad : Padding)
  /-- The oldest write is heard by all other stations. -/
  | air

def SenderEvent.ofTask : SenderEvent → Bool
  | .call _ _ | .write _ | .packet _ => false
  | .dequeue | .clear | .give | .take | .ackTimeout | .check | .finish | .wake | .giveUp => true

/-- The header of a ping. -/
def pingHeader (id receiver : UInt8) (hd : Header) : Header :=
  { hd with
    paketType := .ping
    sender := id
    receiver
    id := 0
    totalPk := 1
    currentPk := 1
    dataLen := 0 }

namespace Network

variable {n : Nat} (shl : UInt8 → UInt64) (s : Network n)

def setSender (k : Fin n) (sender : SenderState) : Network n :=
  { s with stations := Function.update s.stations k { s.stations k with sender } }

/-- What becomes of station `i` when it hears a write of station `k`. -/
def heard (k : Fin n) (bytes : List UInt8) (i : Fin n) : Option (Station × List (List UInt8)) :=
  if i = k then some (s.stations i, []) else (s.stations i).hear shl bytes

def step : NetEvent n → Option (Network n)
  | .call k receiver text =>
    (senderStep (s.stations k).sender (.call receiver text)).map fun sender =>
      { s.setSender k sender with
        accepted := if (s.stations k).sender.busy then s.accepted
          else s.accepted ++ [(k, receiver, text)] }
  | .write k pad =>
    match (s.stations k).sender.task with
    | .writing job i _ => (senderStep (s.stations k).sender (.write true)).map fun sender =>
      { s.setSender k sender with
        pending := s.pending ++ [(k, job.message.paket (paddedLayout pad) i)] }
    | _ => none
  | .task k e =>
    if e.ofTask then (senderStep (s.stations k).sender e).map (s.setSender k) else none
  | .ping k receiver hd pad =>
    let header := pingHeader (s.stations k).device.deviceId receiver hd
    some { s with
      stations := Function.update s.stations k { s.stations k with pingOk := false }
      pending := s.pending ++ [(k, paddedWrite pad header)] }
  | .air =>
    match s.pending with
    | [] => none
    | (k, bytes) :: rest =>
      if h : ∀ i, (s.heard shl k bytes i).isSome then some { s with
        stations := fun i => ((s.heard shl k bytes i).get (h i)).1
        pending := rest ++ (List.finRange n).flatMap fun i =>
          ((s.heard shl k bytes i).get (h i)).2.map (Prod.mk i) }
      else none

end Network

def Station.init (id : UInt8) : Station := ⟨senderInit id, (lineInit id).device, false, false⟩

/-- A line after start-up. -/
def networkInit {n : Nat} (ids : Fin n → UInt8) : Network n :=
  ⟨fun i => .init (ids i), [], []⟩

end DaliController.Rs485
