import DaliController.Dali.Package
import DaliController.Lib.Manchester
import Mathlib.Tactic.Ring

/-! The transmitter of `Dali`: the levels that `send` puts on the TX pin, one for each half period.
A frame is the Manchester wave of a start bit 1 and its bytes, then the stop level. -/

namespace DaliController.Dali

open Manchester

def sendOne : List Bool := [false, true]

def sendZero : List Bool := [true, false]

/-- The stop level.  It lasts four half periods, and the line stays at it afterwards. -/
def sendStop : List Bool := [true]

/-- The loop of `_send_byte` with `n` shifts of `ii` to go. -/
def sendByteLoop : Nat → UInt8 → List Bool
  | 0, _ => []
  | n + 1, tmp => (if tmp &&& 0x80 = 0x80 then sendOne else sendZero) ++ sendByteLoop n (tmp <<< 1)

/-- `ii` starts at 0xFF, and eight shifts make it 0. -/
def sendByte (data : UInt8) : List Bool := sendByteLoop 8 data

/-- The levels of `Dali::send`. -/
def send (p : Package) : List Bool :=
  sendOne ++ sendByte p.data0 ++
    (if p.type = .block24 ∨ p.type = .block16 then sendByte p.data1 else []) ++
    (if p.type = .block24 then sendByte p.data2 else []) ++ sendStop

/-- The `n` top bits of a byte, the most significant first. -/
def topBits : Nat → UInt8 → List Bool
  | 0, _ => []
  | n + 1, tmp => decide (tmp &&& 0x80 = 0x80) :: topBits n (tmp <<< 1)

@[simp] theorem length_topBits (n : Nat) (tmp : UInt8) : (topBits n tmp).length = n := by
  induction n generalizing tmp with
  | zero => rfl
  | succ n ih => simp [topBits, ih]

theorem sendByteLoop_eq_wave (n : Nat) (tmp : UInt8) :
    sendByteLoop n tmp = wave (topBits n tmp) := by
  induction n generalizing tmp with
  | zero => rfl
  | succ n ih =>
    by_cases h : tmp &&& 0x80 = 0x80 <;>
      simp [sendByteLoop, topBits, halves, sendOne, sendZero, h, ih]

/-- The data bits of a package's frame. -/
def frameBits (p : Package) : List Bool := p.bytes.flatMap (topBits 8)

theorem length_frameBits (p : Package) : (frameBits p).length = 8 * p.bytes.length := by
  unfold frameBits
  induction p.bytes with
  | nil => rfl
  | cons d ds ih => simp [ih]; omega

/-- A frame is the start bit, its data bits in Manchester code, and the stop level. -/
theorem send_eq_wave (p : Package) :
    send p = halves true ++ (wave (frameBits p) ++ [true]) := by
  have hwave (d : UInt8) : sendByte d = wave (topBits 8 d) := sendByteLoop_eq_wave 8 d
  obtain ⟨d0, d1, d2, type, error⟩ := p
  cases type <;>
    simp [send, frameBits, Package.bytes, hwave, sendOne, sendStop, halves, wave_append]

/-- The number that a bit string writes, the most significant bit first. -/
def bitsValue (v : Nat) (bits : List Bool) : Nat := bits.foldl (fun v b => 2 * v + b.toNat) v

@[simp] theorem bitsValue_nil (v : Nat) : bitsValue v [] = v := rfl

theorem bitsValue_append (v : Nat) (as bs : List Bool) :
    bitsValue v (as ++ bs) = bitsValue (bitsValue v as) bs := by
  simp [bitsValue]

theorem bitsValue_eq (v : Nat) (bits : List Bool) :
    bitsValue v bits = v * 2 ^ bits.length + bitsValue 0 bits := by
  induction bits generalizing v with
  | nil => simp [bitsValue]
  | cons b bs ih =>
    have h1 : bitsValue v (b :: bs) = bitsValue (2 * v + b.toNat) bs := rfl
    have h2 : bitsValue 0 (b :: bs) = bitsValue b.toNat bs := by simp [bitsValue]
    rw [h1, h2, ih (2 * v + b.toNat), ih b.toNat, List.length_cons, Nat.pow_succ]
    ring

/-- The bits of a byte write that byte. -/
theorem bitsValue_topBits (d : UInt8) : bitsValue 0 (topBits 8 d) = d.toNat := by
  obtain ⟨⟨d⟩⟩ := d
  revert d
  decide +kernel

end DaliController.Dali
