import DaliController.Search.Bus

/-! The search for the smallest random address: comparisons on the bus, and the search for one
nibble after another. -/

namespace DaliController.Search

open Dali

inductive SndNible
  | sndH
  | sndM
  | sndL
  | sndA
  deriving DecidableEq, Repr

/-- `gear_t`. -/
structure Gear where
  shortAddr : UInt8
  type : UInt8
  extType : UInt8
  deriving DecidableEq, Repr

/-- The bus, `GEAR_FILE`, the device numbers that the `init` messages reported so far, and the
static `retry` of `send_compare`. -/
structure World (σ : Type) where
  bus : σ
  gear : Nat → Gear
  init : List UInt8
  retry : Nat

/-- The bytes `h`, `m` and `l` that the functions of the search share by reference. -/
structure Hml where
  h : UInt8
  m : UInt8
  l : UInt8
  deriving DecidableEq, Repr

def Hml.set (r : Hml) (x : UInt8) : SndNible → Hml
  | .sndH => { r with h := x }
  | .sndM => { r with m := x }
  | .sndL => { r with l := x }
  | .sndA => r

def Hml.get (r : Hml) : SndNible → UInt8
  | .sndH => r.h
  | .sndM => r.m
  | .sndL => r.l
  | .sndA => 0

def Hml.addr (r : Hml) : Nat := addressOf r.h r.m r.l

section Program

variable {σ : Type} (ops : BusOps σ)

def send (f : Forward) : StateM (World σ) Unit :=
  modify fun w => { w with bus := ops.send f w.bus }

def exchange (f : Forward) : StateM (World σ) (Option UInt8) :=
  modifyGet fun w => ((ops.exchange f w.bus).1, { w with bus := (ops.exchange f w.bus).2 })

@[simp] theorem send_run (f : Forward) (w : World σ) :
    (send ops f).run w = pure ((), { w with bus := ops.send f w.bus }) := rfl

@[simp] theorem exchange_run (f : Forward) (w : World σ) :
    (exchange ops f).run w =
      pure ((ops.exchange f w.bus).1, { w with bus := (ops.exchange f w.bus).2 }) := rfl

/-- The value of `send_receive` for the last `_send_receive`. -/
def backward : Option UInt8 → Backword
  | none => .timeout
  | some data => if data = 0xFF then .yes else if data = 0x00 then .no else ops.cast data

/-- Another `_send_receive` if the last one timed out. -/
def exchangeAgain (f : Forward) (kk : Option UInt8) : StateM (World σ) (Option UInt8) :=
  if kk = none then exchange ops f else pure kk

def sendReceive (f : Forward) : StateM (World σ) Backword := do
  let kk ← exchange ops f
  let kk ← exchangeAgain ops f kk
  let kk ← exchangeAgain ops f kk
  return backward ops kk

def sendWhen (p : Prop) [Decidable p] (f : Forward) : StateM (World σ) Unit :=
  if p then send ops f else pure ()

def loadSearch (r : Hml) (snd : SndNible) : StateM (World σ) Unit := do
  sendWhen ops (snd = .sndA ∨ snd = .sndH) (specialCommand 0x08 r.h)
  sendWhen ops (snd = .sndA ∨ snd = .sndM) (specialCommand 0x09 r.m)
  sendWhen ops (snd = .sndA ∨ snd = .sndL) (specialCommand 0x0A r.l)

def setRetry (retry : Nat) : StateM (World σ) Unit := modify fun w => { w with retry := retry }

/-- One call of `send_compare`, with what it does when the reply is neither yes nor no. -/
def compareOnce (r : Hml) (snd : SndNible) (again : StateM (World σ) Backword) :
    StateM (World σ) Backword := do
  loadSearch ops r snd
  let rr ← sendReceive ops (specialCommand 0x04 0x00)
  let rr := if rr = .timeout then .no else rr
  if rr = .yes ∨ rr = .no then
    setRetry 0
    return rr
  else again

/-- `send_compare` while `retry` is so far below 5: it gives up when `++retry` passes 5. -/
def sendCompareFrom (r : Hml) (snd : SndNible) : Nat → StateM (World σ) Backword
  | 0 => compareOnce ops r snd do
    setRetry 0
    return .timeout
  | left + 1 => compareOnce ops r snd do
    modify fun w => { w with retry := w.retry + 1 }
    sendCompareFrom r snd left

def sendCompare (r : Hml) (snd : SndNible) : StateM (World σ) Backword := do
  let w ← get
  sendCompareFrom ops r snd (5 - w.retry)

/-- The comparison of the nibble searches: one of the bytes is replaced by `sayi`.  For `sndA` they
make no comparison, and `rr` keeps its first value. -/
def compareNible (r : Hml) (snd : SndNible) (sayi : UInt8) : StateM (World σ) Backword :=
  if snd = .sndA then pure .busy else sendCompare ops (r.set sayi snd) snd

end Program

/-! ### The search for one nibble

`sayi` has the nibble `ek` in its upper half when `H`, else in its lower half. -/

def sayiOf (H : Bool) (ust alt ek : UInt8) : UInt8 :=
  if H then ek <<< 4 ||| alt else ek ||| ust <<< 4

section Nibble

variable {σ : Type} (compare : UInt8 → StateM (World σ) Backword) (H : Bool) (ust alt : UInt8)

/-- One round of the inner loop of `q_upH0`. -/
def qUpAraRound (ek1 ek : Nat) (next : StateM (World σ) (Option UInt8)) :
    StateM (World σ) (Option UInt8) := do
  if ek1 ≤ ek then
    let rr ← compare (sayiOf H ust alt (UInt8.ofNat ek))
    if rr = .no then return some (sayiOf H ust alt (UInt8.ofNat ek)) else next
  else return none

/-- The inner loop of `q_upH0`, which returns the first `sayi` that is not answered.  `ek` does not
wrap below zero, because `ek1` is never zero. -/
def qUpAra (ek1 : Nat) : Nat → StateM (World σ) (Option UInt8)
  | 0 => qUpAraRound compare H ust alt ek1 0 (pure none)
  | ek + 1 => qUpAraRound compare H ust alt ek1 (ek + 1) (qUpAra ek1 ek)

/-- One round of the outer loop of `q_upH0`. -/
def qUpRound (count : Nat) (ek : UInt8) (next : StateM (World σ) UInt8) :
    StateM (World σ) UInt8 := do
  let rr ← compare (sayiOf H ust alt ek)
  if rr = .yes then
    let sayi ← qUpAra compare H ust alt (ek - 1 <<< UInt8.ofNat (count + 1)).toNat ek.toNat
    return sayi.getD (if H then 0xF ||| alt else ust <<< 4 ||| 0x0F)
  else next

def qUp : Nat → UInt8 → StateM (World σ) UInt8
  | 0, ek => qUpRound compare H ust alt 0 (ek ||| 1)
      (pure (if H then 0xF0 ||| alt else ust <<< 4 ||| 0x0F))
  | count + 1, ek => qUpRound compare H ust alt (count + 1) (ek ||| 1 <<< UInt8.ofNat (count + 1))
      (qUp count (ek ||| 1 <<< UInt8.ofNat (count + 1)))

/-- The inner loop of `q_downH0` with as many rounds left until `ek` passes `ek1`.  It returns the
last `sayi` before the first that is answered. -/
def qDownAra (ek old : UInt8) : Nat → StateM (World σ) (Option UInt8)
  | 0 => pure none
  | left + 1 => do
    let rr ← compare (sayiOf H ust alt ek)
    if rr = .yes then return some old
    else qDownAra (ek + 1) (sayiOf H ust alt ek) left

/-- One round of the outer loop of `q_downH0`. -/
def qDownRound (count : Nat) (next : StateM (World σ) UInt8) : StateM (World σ) UInt8 := do
  let ek := 1 <<< UInt8.ofNat count
  let rr ← compare (sayiOf H ust alt ek)
  if rr = .no then
    let sayi ← qDownAra compare H ust alt ek (sayiOf H ust alt ek) (2 ^ (count + 1) + 1 - ek.toNat)
    return sayi.getD (if H then 0x00 ||| alt else ust <<< 4 ||| 0x00)
  else next

def qDown : Nat → StateM (World σ) UInt8
  | 0 => qDownRound compare H ust alt 0 (pure (if H then 0x00 ||| alt else ust <<< 4 ||| 0x00))
  | count + 1 => qDownRound compare H ust alt (count + 1) (qDown count)

end Nibble

section Program

variable {σ : Type} (ops : BusOps σ)

def qUpH0 (r : Hml) (H : Bool) (snd : SndNible) : StateM (World σ) UInt8 :=
  qUp (compareNible ops r snd) H (r.get snd >>> 4) (r.get snd &&& 0x0F) 3 0

def qDownH0 (r : Hml) (H : Bool) (snd : SndNible) : StateM (World σ) UInt8 :=
  qDown (compareNible ops r snd) H (r.get snd >>> 4) (r.get snd &&& 0x0F) 3

def qH0 (r : Hml) (H : Bool) (snd : SndNible) : StateM (World σ) UInt8 := do
  let rr ← sendCompare ops r .sndA
  if rr = .no then qUpH0 ops r H snd else qDownH0 ops r H snd

def findBlock (r : Hml) (snd : SndNible) : StateM (World σ) Hml := do
  let r := r.set 0x80 snd
  let sayi ← qH0 ops r true snd
  let r := r.set (sayi ||| 0x08) snd
  let sayi ← qH0 ops r false snd
  return r.set sayi snd

def findMinNumber (r : Hml) : StateM (World σ) Hml := do
  let r ← findBlock ops r .sndH
  let r ← findBlock ops r .sndM
  findBlock ops r .sndL

end Program

end DaliController.Search
