import DaliController.Dali.Package
import Mathlib.Algebra.Ring.Nat
import Mathlib.Data.Finset.Basic

/-! The bus as the addressing procedure sees it: forward frames with special commands, and replies
to `COMPARE` and `VERIFY`.  The program is written over any bus that sends and exchanges frames.
Two buses follow: one without noise, and one on which any reply may be lost. -/

namespace DaliController.Search

open Dali

/-- `backword_tt`, declared outside this repository.  `other` is a byte cast to it. -/
inductive Backword
  | none
  | busy
  | data
  | timeout
  | yes
  | no
  | other (code : UInt8)
  deriving DecidableEq, Repr

/-- `address_t`.  `package_address` turns it into the first byte of a frame. -/
structure Address where
  shortAdr : Bool
  groupAdr : Bool
  broadcastAdr : Bool
  special : Bool
  data : UInt8
  deriving DecidableEq, Repr

/-- A `package_t` to send, before `package_address`. -/
structure Forward where
  address : Address
  data1 : UInt8
  type : BlockType
  deriving DecidableEq, Repr

def specialCommand (com dat : UInt8) : Forward where
  address :=
    { shortAdr := false
      groupAdr := false
      broadcastAdr := false
      special := true
      data := com }
  data1 := dat
  type := .block16

/-- `Dali::send` and `Dali::_send_receive`, which returns the data of a reply or times out. -/
structure BusOps (σ : Type) where
  send : Forward → σ → σ
  exchange : Forward → σ → Option UInt8 × σ
  cast : UInt8 → Backword

/-! ### Devices -/

/-- The random addresses of the devices on the bus, which tell them apart. -/
structure Population where
  devices : Finset Nat
  random_lt : ∀ a ∈ devices, a < 2 ^ 24

/-- The search address last loaded, and the state of the device with each random address. -/
structure Net where
  high : UInt8
  mid : UInt8
  low : UInt8
  withdrawn : Nat → Bool
  short : Nat → Option UInt8

/-- The number that three bytes of an address stand for. -/
def addressOf (h m l : UInt8) : Nat := h.toNat * 65536 + m.toNat * 256 + l.toNat

def Net.search (n : Net) : Nat := addressOf n.high n.mid n.low

def Net.load (n : Net) (h m l : UInt8) : Net := { n with high := h, mid := m, low := l }

/-- What a forward frame does to the devices. -/
def netSend (f : Forward) (n : Net) : Net :=
  if f.address.special then
    -- `INITIALISE` with 0xFF addresses only the devices without a short address.
    if f.address.data = 0x02 then
      { n with withdrawn := fun a => decide (f.data1 = 0xFF) && (n.short a).isSome }
    else if f.address.data = 0x05 then
      { n with withdrawn := fun a => n.withdrawn a || decide (a = n.search) }
    else if f.address.data = 0x08 then { n with high := f.data1 }
    else if f.address.data = 0x09 then { n with mid := f.data1 }
    else if f.address.data = 0x0A then { n with low := f.data1 }
    else if f.address.data = 0x0B then
      { n with short := fun a => if a = n.search then some (f.data1 >>> 1) else n.short a }
    else n
  else n

/-- Some device that is not withdrawn has a random address up to the search address. -/
def Net.Compares (P : Population) (n : Net) : Prop :=
  ∃ a ∈ P.devices, n.withdrawn a = false ∧ a ≤ n.search

def Net.Holds (P : Population) (n : Net) (k : UInt8) : Prop :=
  ∃ a ∈ P.devices, n.short a = some k

instance (P : Population) (n : Net) : Decidable (n.Compares P) :=
  inferInstanceAs (Decidable (∃ a ∈ P.devices, _ ∧ _))

instance (P : Population) (n : Net) (k : UInt8) : Decidable (n.Holds P k) :=
  inferInstanceAs (Decidable (∃ a ∈ P.devices, _ = _))

/-- The reply of the devices to a forward frame. -/
def netReply (P : Population) (f : Forward) (n : Net) : Option UInt8 :=
  if f.address.special then
    if f.address.data = 0x04 then if n.Compares P then some 0xFF else none
    else if f.address.data = 0x0C then if n.Holds P (f.data1 >>> 1) then some 0xFF else none
    else none
  else none

/-- The bus without noise. -/
def netOps (P : Population) (cast : UInt8 → Backword) : BusOps Net where
  send := netSend
  exchange f n := (netReply P f n, netSend f n)
  cast := cast

/-! ### Lost replies -/

/-- A frame on the bus, with the state in which it found the devices and the number of exchanges
before it. -/
structure BusStep where
  frame : Forward
  exchanges : Nat
  net : Net

def BusStep.after (st : BusStep) : Net := netSend st.frame st.net

/-- The devices, with the number of exchanges so far and the frames of the run. -/
structure LossyNet where
  net : Net
  exchanges : Nat
  steps : List BusStep

/-- The states reached so far, one after each frame. -/
def LossyNet.past (s : LossyNet) : List Net := s.steps.map BusStep.after

def isProgram (f : Forward) : Bool := f.address.special && decide (f.address.data = 0x0B)

def lossySend (f : Forward) (s : LossyNet) : LossyNet where
  net := netSend f s.net
  exchanges := s.exchanges
  steps := s.steps ++ [⟨f, s.exchanges, s.net⟩]

/-- The frame reaches every device.  The reply of exchange `i` is lost when `lost i`. -/
def lossyExchange (P : Population) (lost : Nat → Bool) (f : Forward) (s : LossyNet) :
    Option UInt8 × LossyNet :=
  (if lost s.exchanges then none else netReply P f s.net,
    { lossySend f s with exchanges := s.exchanges + 1 })

def lossyOps (P : Population) (lost : Nat → Bool) (cast : UInt8 → Backword) : BusOps LossyNet where
  send := lossySend
  exchange := lossyExchange P lost
  cast := cast

/-! ### The special commands of the addressing procedure -/

section Commands

variable (n : Net) (dat : UInt8)

@[simp] theorem netSend_initialise : netSend (specialCommand 0x02 dat) n =
    { n with withdrawn := fun a => decide (dat = 0xFF) && (n.short a).isSome } := rfl

@[simp] theorem netSend_terminate : netSend (specialCommand 0x00 dat) n = n := rfl

@[simp] theorem netSend_randomise : netSend (specialCommand 0x03 dat) n = n := rfl

@[simp] theorem netSend_compare : netSend (specialCommand 0x04 dat) n = n := rfl

@[simp] theorem netSend_withdraw : netSend (specialCommand 0x05 dat) n =
    { n with withdrawn := fun a => n.withdrawn a || decide (a = n.search) } := rfl

@[simp] theorem netSend_high : netSend (specialCommand 0x08 dat) n = { n with high := dat } := rfl

@[simp] theorem netSend_mid : netSend (specialCommand 0x09 dat) n = { n with mid := dat } := rfl

@[simp] theorem netSend_low : netSend (specialCommand 0x0A dat) n = { n with low := dat } := rfl

@[simp] theorem netSend_program : netSend (specialCommand 0x0B dat) n =
    { n with short := fun a => if a = n.search then some (dat >>> 1) else n.short a } := rfl

@[simp] theorem netSend_verify : netSend (specialCommand 0x0C dat) n = n := rfl

variable (P : Population)

@[simp] theorem netReply_compare :
    netReply P (specialCommand 0x04 dat) n = if n.Compares P then some 0xFF else none := rfl

@[simp] theorem netReply_verify : netReply P (specialCommand 0x0C dat) n =
    if n.Holds P (dat >>> 1) then some 0xFF else none := rfl

end Commands

end DaliController.Search
