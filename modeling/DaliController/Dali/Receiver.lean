import DaliController.Dali.Package
import DaliController.Lib.Runs

/-! The receiver of `Dali`: the two gptimers, the edge interrupt `int_handler`, the alarm
`timer_alarm_cb` that ends a frame, and what `paket_task` makes of the queued frame.  Time is in
microseconds, which is the resolution of both timers. -/

namespace DaliController.Dali

def halfPeriod : Nat := 416
def fullPeriod : Nat := 832
def halfPeriodDown : Nat := halfPeriod - 125
def halfPeriodUp : Nat := halfPeriod + 125
def fullPeriodDown : Nat := fullPeriod - 250
def fullPeriodUp : Nat := fullPeriod + 250
def fullPeriodDown3 : Nat := 1746
def parazit : Nat := 100

/-- `alarm_count` of `per_timer`. -/
def perAlarm : Nat := fullPeriodUp * 2

theorem halfPeriodDown_eq : halfPeriodDown = 291 := rfl

theorem halfPeriodUp_eq : halfPeriodUp = 541 := rfl

theorem fullPeriodDown_eq : fullPeriodDown = 582 := rfl

theorem perAlarm_eq : perAlarm = 2164 := rfl

/-- `alarm_count` of `kom_timer`, where it reloads to 0. -/
def komAlarm : Nat := 1000000

/-- The length of `paket_queue`. -/
def paketQueueLength : Nat := 300

structure GpTimer where
  running : Bool
  count : Nat
  deriving DecidableEq, Repr

/-- `paket_queue_element_t`. -/
structure PaketQueueElement where
  bitCnt : UInt8
  gln : BitVec 32
  deriving DecidableEq, Repr

/-- The members of `Dali` that the interrupt and the alarm share, with the static `gec`. -/
structure Receiver where
  startBitBegin : Bool
  hgelen : BitVec 32
  bitCount : UInt8
  gec : Bool
  perTimer : GpTimer
  komTimer : GpTimer
  paketQueue : List PaketQueueElement
  deriving DecidableEq, Repr

/-- `xQueueSendFromISR`, which drops the element when the queue is full. -/
def queueSend (q : List PaketQueueElement) (gg : PaketQueueElement) : List PaketQueueElement :=
  if q.length < paketQueueLength then q ++ [gg] else q

/-- `timer_alarm_cb`. -/
def timerAlarmCb (r : Receiver) : Receiver :=
  { r with
    komTimer := { r.komTimer with count := 0 }
    perTimer := { r.perTimer with running := false }
    startBitBegin := false
    paketQueue := queueSend r.paketQueue ⟨r.bitCount, r.hgelen⟩ }

/-- `dt` microseconds in which no alarm of `per_timer` falls. -/
def advance (dt : Nat) (r : Receiver) : Receiver :=
  { r with
    perTimer := if r.perTimer.running then { r.perTimer with count := r.perTimer.count + dt }
      else r.perTimer
    komTimer := { r.komTimer with count := (r.komTimer.count + dt) % komAlarm } }

/-- `dt` microseconds without an edge.  `per_timer` has no reload, so its alarm fires once and
`timer_alarm_cb` stops it. -/
def elapse (dt : Nat) (r : Receiver) : Receiver :=
  if r.perTimer.running ∧ perAlarm ≤ r.perTimer.count + dt then
    advance (dt - (perAlarm - r.perTimer.count))
      (timerAlarmCb (advance (perAlarm - r.perTimer.count) r))
  else advance dt r

/-- `gptimer_start`, which fails on a running timer. -/
def GpTimer.start (t : GpTimer) : Option GpTimer :=
  if t.running then none else some { t with running := true }

/-- `int_handler` on an edge to `level`; `none` is the abort of an `ESP_ERROR_CHECK`. -/
def intHandler (level : Bool) (r : Receiver) : Option Receiver :=
  if r.startBitBegin = false ∧ level = false then
    let kt := r.komTimer.count
    if kt > fullPeriodDown3 then
      ({ r.perTimer with count := 0 } : GpTimer).start.map fun per =>
        { r with
          perTimer := per
          bitCount := 0
          komTimer := { r.komTimer with count := 0 }
          hgelen := 0 }
    else some { r with komTimer := { r.komTimer with count := 0 }, hgelen := 0 }
  else if r.startBitBegin = false ∧ level = true then
    let kk := r.perTimer.count
    if kk > halfPeriodDown ∧ kk < halfPeriodUp then
      some { r with
        perTimer := { r.perTimer with count := 0 }
        startBitBegin := true
        bitCount := 0 }
    else some r
  else
    let kk := r.perTimer.count
    let gec := decide (kk ≤ parazit)
    if kk > parazit ∧ gec = false then
      let bitCount := if kk > fullPeriodDown then r.bitCount + 2 else r.bitCount + 1
      some { r with
        gec := false
        bitCount := bitCount
        hgelen := if bitCount % 2 = 0 then (r.hgelen <<< 1) ||| (BitVec.ofBool level).setWidth 32
          else r.hgelen
        perTimer := { r.perTimer with count := 0 } }
    else some { r with gec := gec }

/-- An edge to a level, with the time since the edge before it. -/
structure Edge where
  dt : Nat
  level : Bool
  deriving DecidableEq, Repr

def edgeStep (r : Receiver) (e : Edge) : Option Receiver := intHandler e.level (elapse e.dt r)

/-- The receiver after a sequence of edges. -/
abbrev receive (r : Receiver) (es : List Edge) : Option Receiver := Runs.run edgeStep r es

/-- The local `g0` of `paket_task` for a queue element, up to where it is stored. -/
def paketClassify (top : TopByte) (gg : PaketQueueElement) : Package :=
  let g0 : Package := { Package.ofWord top gg.gln with type := .blockErr }
  let g0 := if gg.bitCnt = 17 ∨ gg.bitCnt = 16 then
      { Package.ofWord top (g0.word top <<< 16) with type := .block8 } else g0
  let g0 := if gg.bitCnt = 32 ∨ gg.bitCnt = 33 then
      { Package.ofWord top (g0.word top <<< 8) with type := .block16 } else g0
  let g0 := if gg.bitCnt > 40 then { g0 with type := .block24 } else g0
  if g0.type = .blockErr ∧ gg.bitCnt < 32 then
    { Package.ofWord top (0xFF <<< 16) with type := .block8 }
  else g0

/-- What `paket_task` leaves in `gelen` before it triggers anything. -/
def paketStore (top : TopByte) (gg : PaketQueueElement) : Package :=
  { paketClassify top gg with error := 0 }

/-- What `paket_task` triggers once `gelen` is stored. -/
inductive PaketTrigger
  | backSem
  | callback
  | nothing
  deriving DecidableEq, Repr

def paketTrigger (gelen : Package) : PaketTrigger :=
  match gelen.type with
  | .block8 => .backSem
  | .block16 => .callback
  | .block24 | .blockErr => .nothing

end DaliController.Dali
