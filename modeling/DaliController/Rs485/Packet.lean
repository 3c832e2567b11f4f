import DaliController.Lib.Blocks
import DaliController.Lib.CString
import Mathlib.Algebra.Ring.Nat
import Mathlib.Data.List.Range

/-! Packets on the RS485 line.  `_sender_task` cuts a message into fragments of 50 bytes, each after
a header and a zero byte and before the pattern `##`; `paket_decode` copies fragments into one
buffer.  The header is copied byte by byte, so all that matters about its layout is that reading it
gives back what was written. -/

namespace DaliController.Rs485

open Blocks CString

/-- `RS485_paket_type_t`, a field of four bits. -/
inductive PaketType
  | normal
  | ping
  | pong
  | ack
  | response
  | start
  | fin
  | reserved (code : Fin 9)
  deriving DecidableEq, Repr

/-- `RS485_header_t`. -/
structure Header where
  sender : UInt8
  receiver : UInt8
  paketType : PaketType
  paketAck : Bool
  frameAck : Bool
  totalPk : UInt8
  currentPk : UInt8
  id : UInt8
  dataLen : UInt8
  deriving DecidableEq, Repr

/-- How the compiler lays out `RS485_header_t`.  A packet's length fits `uint8_t`. -/
structure Layout where
  size : Nat
  write : Header → List UInt8
  read : List UInt8 → Header
  fits : size + 53 < 256
  length_write : ∀ h, (write h).length = size
  read_write : ∀ h, read (write h) = h

/-! ### The layout of the ESP32's compiler

The flags share a word of their own, and the words are aligned. -/

def PaketType.code : PaketType → Nat
  | .normal => 0
  | .ping => 1
  | .pong => 2
  | .ack => 3
  | .response => 4
  | .start => 5
  | .fin => 6
  | .reserved code => 7 + code

def PaketType.ofCode : Nat → PaketType
  | 0 => .normal
  | 1 => .ping
  | 2 => .pong
  | 3 => .ack
  | 4 => .response
  | 5 => .start
  | 6 => .fin
  | n => .reserved (Fin.ofNat 9 (n - 7))

theorem PaketType.ofCode_code (t : PaketType) : ofCode t.code = t := by
  cases t with
  | reserved code => decide +revert
  | _ => rfl

theorem PaketType.code_lt (t : PaketType) : t.code < 16 := by
  cases t with
  | reserved code => exact Nat.add_lt_add_left code.isLt 7
  | _ => decide

def flagByte (h : Header) : UInt8 :=
  UInt8.ofNat (h.paketType.code + 16 * h.paketAck.toNat + 32 * h.frameAck.toNat)

theorem flagByte_toNat (h : Header) : (flagByte h).toNat =
    h.paketType.code + 16 * h.paketAck.toNat + 32 * h.frameAck.toNat := by
  have hcode := h.paketType.code_lt
  have hack := h.paketAck.toNat_le
  have hframe := h.frameAck.toNat_le
  exact UInt8.toNat_ofNat_of_lt' (show _ < 256 by omega)

def espLayout : Layout where
  size := 12
  write h := [h.sender, h.receiver, 0, 0, flagByte h, 0, 0, 0, h.totalPk, h.currentPk, h.id,
    h.dataLen]
  read bytes :=
    let flags := (bytes.getD 4 0).toNat
    { sender := bytes.getD 0 0
      receiver := bytes.getD 1 0
      paketType := PaketType.ofCode (flags % 16)
      paketAck := decide (flags / 16 % 2 = 1)
      frameAck := decide (flags / 32 % 2 = 1)
      totalPk := bytes.getD 8 0
      currentPk := bytes.getD 9 0
      id := bytes.getD 10 0
      dataLen := bytes.getD 11 0 }
  fits := by decide
  length_write _ := rfl
  read_write h := by
    have hcode := h.paketType.code_lt
    have hack := h.paketAck.toNat_le
    have hframe := h.frameAck.toNat_le
    have htype : (flagByte h).toNat % 16 = h.paketType.code := by
      rw [flagByte_toNat]
      omega
    have hackbit : (flagByte h).toNat / 16 % 2 = h.paketAck.toNat := by
      rw [flagByte_toNat]
      omega
    have hframebit : (flagByte h).toNat / 32 % 2 = h.frameAck.toNat := by
      rw [flagByte_toNat]
      omega
    simp [htype, hackbit, hframebit, PaketType.ofCode_code]

def paketSize : Nat := 50

/-- A `Data_t` taken from the queue, with the sender's id and its `paket_counter`. -/
structure Message where
  sender : UInt8
  receiver : UInt8
  paketType : PaketType
  counter : UInt16
  text : Text

namespace Message

variable (m : Message)

/-- `uint16_t size`. -/
def size : Nat := m.text.bytes.length % 2 ^ 16

/-- `paket_sayisi`, a `uint8_t`. -/
def sayi : Nat := (m.size / paketSize + if m.size % paketSize = 0 then 0 else 1) % 2 ^ 8

/-- `uint16_t start`. -/
def start (i : Nat) : Nat := i * paketSize % 2 ^ 16

def uzn (i : Nat) : Nat :=
  if m.size < start i + paketSize then (m.size - start i) % 2 ^ 8 else paketSize

def head (i : Nat) : Header where
  sender := m.sender
  receiver := m.receiver
  paketType := m.paketType
  paketAck := true
  frameAck := false
  totalPk := UInt8.ofNat m.sayi
  currentPk := UInt8.ofNat (i + 1)
  id := UInt8.ofNat m.counter.toNat
  dataLen := UInt8.ofNat (m.uzn i)

def chunk (i : Nat) : List UInt8 := (m.text.bytes.drop (start i)).take (m.uzn i)

/-- The bytes of fragment `i` up to its pattern. -/
def fragment (layout : Layout) (i : Nat) : List UInt8 :=
  layout.write (m.head i) ++ 0 :: m.chunk i

/-- The bytes that `_sender_task` writes for fragment `i`. -/
def paket (layout : Layout) (i : Nat) : List UInt8 := m.fragment layout i ++ [0x23, 0x23]

def pakets (layout : Layout) : List (List UInt8) := (List.range m.sayi).map (m.paket layout)

end Message

/-! ### Decoding -/

/-- The fields of `RS485` that `paket_decode` uses. -/
structure Decoder where
  paketBuffer : Option (List UInt8)
  paketLength : UInt16
  paketHeader : UInt32

/-- `1ULL << n`.  For 64 and more the language leaves the result open. -/
def oneShl (shl : UInt8 → UInt64) (n : UInt8) : UInt64 :=
  if n.toNat < 64 then 1 <<< n.toUInt64 else shl n

/-- `paket_decode`, without a result when it would read or write outside its buffers. -/
def paketDecode (layout : Layout) (shl : UInt8 → UInt64) (s : Decoder) (data : List UInt8) :
    Option (Bool × Decoder) :=
  let hd := layout.read (data.take layout.size)
  let s := if hd.currentPk = 1 then { s with
    paketBuffer := some (List.replicate (hd.totalPk.toNat * paketSize + 2) 0)
    paketLength := 0 } else s
  match s.paketBuffer with
  | none => some (false, s)
  | some buf =>
    let pos := (hd.currentPk.toNat - 1) * paketSize
    let xs := (data.drop (layout.size + 1)).take hd.dataLen.toNat
    if hd.currentPk = 0 ∨ xs.length < hd.dataLen.toNat ∨ buf.length < pos + xs.length then none
    else
      let paketHeader := (oneShl shl hd.currentPk).toUInt32
      some (decide (2 ^ hd.totalPk.toNat = paketHeader.toNat),
        { paketBuffer := some (splice buf pos xs)
          paketLength := s.paketLength + hd.dataLen.toUInt16
          paketHeader := paketHeader })

/-! ### Fragments -/

namespace Message

variable {m : Message}

theorem size_le : m.size ≤ m.text.bytes.length := Nat.mod_le _ _

theorem size_of_le (h : m.text.bytes.length ≤ 12750) : m.size = m.text.bytes.length :=
  Nat.mod_eq_of_lt (by omega)

/-- A text of at most 255 fragments is sent in as many as it takes. -/
theorem sayi_of_le (h : m.text.bytes.length ≤ 12750) :
    m.sayi = (m.text.bytes.length + 49) / 50 := by
  unfold sayi paketSize
  rw [size_of_le h]
  split <;> omega

theorem sayi_lt : m.sayi < 256 := Nat.mod_lt _ (by omega)

theorem start_of_lt {i : Nat} (hi : i < m.sayi) : start i = i * 50 := by
  have hlt := m.sayi_lt
  rw [start, paketSize, Nat.mod_eq_of_lt (by omega)]

/-- A fragment that is sent begins inside the text. -/
theorem start_lt {i : Nat} (hi : i < m.sayi) : i * 50 < m.size := by
  have hle : m.sayi ≤ m.size / 50 + if m.size % 50 = 0 then 0 else 1 := Nat.mod_le _ _
  split at hle <;> omega

theorem uzn_eq {i : Nat} (hi : i < m.sayi) : m.uzn i = min 50 (m.size - i * 50) := by
  have hlt := start_lt hi
  unfold uzn
  rw [start_of_lt hi, paketSize]
  split <;> omega

theorem chunk_eq {i : Nat} (hi : i < m.sayi) :
    m.chunk i = block 50 (m.text.bytes.take m.size) i := by
  have hlt := start_lt hi
  rw [chunk, start_of_lt hi, uzn_eq hi, block, List.drop_take, List.take_take]

theorem length_chunk {i : Nat} (hi : i < m.sayi) : (m.chunk i).length = m.uzn i := by
  have hle := m.size_le
  rw [chunk_eq hi, length_block, uzn_eq hi, List.length_take]
  omega

theorem dataLen_toNat {i : Nat} (hi : i < m.sayi) :
    (m.head i).dataLen.toNat = (m.chunk i).length := by
  rw [length_chunk hi, head, UInt8.toNat_ofNat', uzn_eq hi]
  omega

theorem currentPk_toNat {i : Nat} (hi : i < m.sayi) : (m.head i).currentPk.toNat = i + 1 := by
  have hlt := m.sayi_lt
  exact UInt8.toNat_ofNat_of_lt' (show _ < 256 by omega)

theorem totalPk_toNat (i : Nat) : (m.head i).totalPk.toNat = m.sayi := by
  have hlt := m.sayi_lt
  exact UInt8.toNat_ofNat_of_lt' (show _ < 256 by omega)

end Message

/-! ### One step of the decoder -/

section Step

variable (layout : Layout) (shl : UInt8 → UInt64)

theorem read_fragment (m : Message) (i : Nat) (rest : List UInt8) :
    layout.read ((m.fragment layout i ++ rest).take layout.size) = m.head i := by
  have htake : (m.fragment layout i ++ rest).take layout.size = layout.write (m.head i) := by
    rw [Message.fragment, List.append_assoc, List.take_append_of_le_length
      (by rw [layout.length_write]), List.take_of_length_le (by rw [layout.length_write])]
  rw [htake, layout.read_write]

theorem data_fragment {m : Message} {i : Nat} (hi : i < m.sayi) (rest : List UInt8) :
    ((m.fragment layout i ++ rest).drop (layout.size + 1)).take (m.head i).dataLen.toNat =
      m.chunk i := by
  have hsplit : m.fragment layout i ++ rest =
      (layout.write (m.head i) ++ [0]) ++ (m.chunk i ++ rest) := by
    simp [Message.fragment]
  have hlen : (layout.write (m.head i) ++ [0]).length = layout.size + 1 := by
    rw [List.length_append, layout.length_write]
    rfl
  rw [hsplit, ← hlen, List.drop_left, Message.dataLen_toNat hi, List.take_left]

/-- The buffer that a fragment is copied into. -/
def bufferFor (s : Decoder) (m : Message) (i : Nat) : Option (List UInt8) :=
  if i = 0 then some (List.replicate (m.sayi * 50 + 2) 0) else s.paketBuffer

/-- Whether `paket_decode` returns true on fragment `i` of `n`. -/
def Completes (n i : Nat) : Prop := i + 1 = n ∧ n ≤ 31

instance (n i : Nat) : Decidable (Completes n i) := inferInstanceAs (Decidable (_ ∧ _))

theorem oneShl_toNat {n : UInt8} (hn : n.toNat < 64) : (oneShl shl n).toNat = 2 ^ n.toNat := by
  have hpow : 2 ^ n.toNat < 2 ^ 64 := Nat.pow_lt_pow_right (by omega) hn
  rw [oneShl, if_pos hn, UInt64.toNat_shiftLeft, UInt8.toNat_toUInt64, Nat.mod_eq_of_lt hn,
    UInt64.toNat_one, Nat.one_shiftLeft, Nat.mod_eq_of_lt hpow]

/-- The mask of one bit equals the power of two only for the last fragment, and only while the bit
is in the mask's 32 bits. -/
theorem mask_eq_iff {m : Message} {i : Nat} (hi : i < m.sayi) :
    2 ^ (m.head i).totalPk.toNat = (oneShl shl (m.head i).currentPk).toUInt32.toNat ↔
      Completes m.sayi i := by
  have hcur := Message.currentPk_toNat hi
  have hmask := (oneShl shl (m.head i).currentPk).toUInt32.toNat_lt
  rw [Message.totalPk_toNat, Completes]
  by_cases hlarge : 32 ≤ m.sayi
  · have hpow : 2 ^ 32 ≤ 2 ^ m.sayi := Nat.pow_le_pow_right (by omega) hlarge
    constructor
    · intro heq
      omega
    · intro h
      omega
  · rw [UInt64.toNat_toUInt32, oneShl_toNat shl (by omega), hcur]
    have hpow : 2 ^ (i + 1) < 2 ^ 32 := Nat.pow_lt_pow_right (by omega) (by omega)
    rw [Nat.mod_eq_of_lt hpow, Nat.pow_right_inj (by omega)]
    omega

theorem currentPk_eq_one {m : Message} {i : Nat} (hi : i < m.sayi) :
    (m.head i).currentPk = 1 ↔ i = 0 := by
  rw [← UInt8.toNat_inj, Message.currentPk_toNat hi, UInt8.toNat_one]
  omega

/-- The decoder once a first fragment has cleared its buffer. -/
def Decoder.opened (s : Decoder) (m : Message) (i : Nat) : Decoder :=
  if i = 0 then { s with
    paketBuffer := some (List.replicate (m.sayi * 50 + 2) 0)
    paketLength := 0 } else s

theorem opened_buffer (s : Decoder) (m : Message) (i : Nat) :
    (s.opened m i).paketBuffer = bufferFor s m i := by
  unfold Decoder.opened bufferFor
  split <;> rfl

theorem paketDecode_fragment {m : Message} {i : Nat} (hi : i < m.sayi) (s : Decoder)
    (rest : List UInt8) :
    paketDecode layout shl s (m.fragment layout i ++ rest) =
      match bufferFor s m i with
      | none => some (false, s)
      | some buf =>
        if buf.length < i * 50 + (m.chunk i).length then none
        else some (decide (Completes m.sayi i),
          { paketBuffer := some (splice buf (i * 50) (m.chunk i))
            paketLength := (s.opened m i).paketLength + (m.head i).dataLen.toUInt16
            paketHeader := (oneShl shl (m.head i).currentPk).toUInt32 }) := by
  have hcur := Message.currentPk_toNat hi
  have hne : (m.head i).currentPk ≠ 0 := by
    rw [ne_eq, ← UInt8.toNat_inj, hcur]
    simp
  have hopened : (if (m.head i).currentPk = 1 then { s with
      paketBuffer := some (List.replicate ((m.head i).totalPk.toNat * 50 + 2) 0)
      paketLength := 0 } else s) = s.opened m i := by
    simp only [currentPk_eq_one hi, Message.totalPk_toNat, Decoder.opened]
  have hlen := Message.dataLen_toNat hi
  have hdone := mask_eq_iff shl hi
  simp only [paketDecode, read_fragment, hopened, opened_buffer, data_fragment layout hi, hcur,
    Nat.add_sub_cancel, paketSize]
  cases hbuf : bufferFor s m i with
  | none =>
    have hs : s.opened m i = s := by
      unfold bufferFor at hbuf
      unfold Decoder.opened
      split at hbuf
      · cases hbuf
      · rename_i h
        rw [if_neg h]
    rw [hs]
  | some buf =>
    simp only [hne, false_or, hlen, Nat.lt_irrefl, hdone]

end Step

end DaliController.Rs485
