import DaliController.Lib.Pattern
import DaliController.Rs485.Packet

/-! Where the receiver cuts a fragment.  The UART reports the first place with two `#` in a row, and
`_event_task` hands what is in front of it to `paket_decode`.  Header and payload are not escaped:
two neighbouring header bytes, or two of the payload, may look like the pattern. -/

namespace DaliController.Rs485

open Blocks CString Pattern

/-- The bytes of a header that no field occupies: `malloc` leaves in them what it finds. -/
structure Padding where
  afterReceiver : UInt8 × UInt8
  flagHigh : Fin 4
  afterFlag : UInt8 × UInt8 × UInt8
  deriving DecidableEq, Repr

theorem paddedFlag_toNat (h : Header) (x : Fin 4) :
    (UInt8.ofNat ((flagByte h).toNat + 64 * x)).toNat = (flagByte h).toNat + 64 * x := by
  have hcode := h.paketType.code_lt
  have hack := h.paketAck.toNat_le
  have hframe := h.frameAck.toNat_le
  rw [UInt8.toNat_ofNat', flagByte_toNat, Nat.mod_eq_of_lt (by omega)]

/-- The bytes of a header, around the bytes that are left open. -/
def paddedWrite (pad : Padding) (h : Header) : List UInt8 :=
  [h.sender, h.receiver, pad.afterReceiver.1, pad.afterReceiver.2,
    UInt8.ofNat ((flagByte h).toNat + 64 * pad.flagHigh), pad.afterFlag.1, pad.afterFlag.2.1,
    pad.afterFlag.2.2, h.totalPk, h.currentPk, h.id, h.dataLen]

theorem read_paddedWrite (pad : Padding) (h : Header) :
    espLayout.read (paddedWrite pad h) = h := by
  have hcode := h.paketType.code_lt
  have hack := h.paketAck.toNat_le
  have hframe := h.frameAck.toNat_le
  have hflag := paddedFlag_toNat h pad.flagHigh
  have hbyte := flagByte_toNat h
  have htype : (UInt8.ofNat ((flagByte h).toNat + 64 * pad.flagHigh)).toNat % 16 =
      h.paketType.code := by
    omega
  have hackbit : (UInt8.ofNat ((flagByte h).toNat + 64 * pad.flagHigh)).toNat / 16 % 2 =
      h.paketAck.toNat := by
    omega
  have hframebit : (UInt8.ofNat ((flagByte h).toNat + 64 * pad.flagHigh)).toNat / 32 % 2 =
      h.frameAck.toNat := by
    omega
  simp only [paddedWrite, espLayout, List.getD_cons_zero, List.getD_cons_succ, htype, hackbit,
    hframebit, PaketType.ofCode_code]
  simp

/-- The layout of the ESP32's compiler, with what the padding holds. -/
def paddedLayout (pad : Padding) : Layout where
  size := 12
  write := paddedWrite pad
  read bytes := espLayout.read bytes
  fits := espLayout.fits
  length_write _ := rfl
  read_write := read_paddedWrite pad

/-- What `_event_task` hands to `paket_decode` when these bytes arrive. -/
def handed (bytes : List UInt8) : Option (List UInt8) :=
  match pairPos 0x23 bytes with
  | none => none
  | some pos => if 0 < pos then some (bytes.take pos) else none

/-- The flags of a packet are never `#`: `paket_ack` is set, and `frame_ack` is not. -/
theorem flag_ne_hash (m : Message) (i : Nat) (x : Fin 4) :
    UInt8.ofNat ((flagByte (m.head i)).toNat + 64 * x) ≠ 0x23 := by
  intro h
  have hcode := (m.head i).paketType.code_lt
  have hnat := congrArg UInt8.toNat h
  rw [paddedFlag_toNat, flagByte_toNat] at hnat
  simp only [Message.head, Bool.toNat_true, Bool.toNat_false, UInt8.reduceToNat] at hnat hcode
  omega

/-- Nothing in front of the trailing pattern looks like one.  The header has the bytes sender,
receiver, two of padding, the flags, three of padding, number of packets, number of this packet,
counter and length, and a zero byte follows. -/
structure Unambiguous (pad : Padding) (m : Message) (i : Nat) : Prop where
  ids : ¬(m.sender = 0x23 ∧ m.receiver = 0x23)
  receiver : ¬(m.receiver = 0x23 ∧ pad.afterReceiver.1 = 0x23)
  first : ¬(pad.afterReceiver.1 = 0x23 ∧ pad.afterReceiver.2 = 0x23)
  second : ¬(pad.afterFlag.1 = 0x23 ∧ pad.afterFlag.2.1 = 0x23)
  third : ¬(pad.afterFlag.2.1 = 0x23 ∧ pad.afterFlag.2.2 = 0x23)
  total : ¬(pad.afterFlag.2.2 = 0x23 ∧ m.sayi = 35)
  current : ¬(m.sayi = 35 ∧ i + 1 = 35)
  id : ¬(i + 1 = 35 ∧ m.counter.toNat % 256 = 35)
  dataLen : ¬(m.counter.toNat % 256 = 35 ∧ m.uzn i = 35)
  payload : ¬[0x23, 0x23] <:+: m.chunk i
  last : (m.chunk i).getLast? ≠ some 0x23

theorem ofNat_eq_hash {n : Nat} (hn : n < 256) : UInt8.ofNat n = 0x23 ↔ n = 35 := by
  rw [← UInt8.toNat_inj, UInt8.toNat_ofNat_of_lt' hn]
  rfl

theorem noPair_fragment (pad : Padding) {m : Message} {i : Nat} (hi : i < m.sayi) :
    NoPair 0x23 (m.fragment (paddedLayout pad) i ++ [0x23]) ↔ Unambiguous pad m i := by
  have hlt := m.sayi_lt
  have huzn : m.uzn i < 256 := by
    rw [Message.uzn_eq hi]
    omega
  have hflag := flag_ne_hash m i pad.flagHigh
  have htotal := ofNat_eq_hash hlt
  have hcurrent := ofNat_eq_hash (n := i + 1) (by omega)
  have hlen := ofNat_eq_hash huzn
  have hid : UInt8.ofNat m.counter.toNat = 0x23 ↔ m.counter.toNat % 256 = 35 := by
    rw [← UInt8.toNat_inj, UInt8.toNat_ofNat']
    rfl
  have hzero : ∀ xs : List UInt8, NoPair 0x23 (0 :: xs) ↔ NoPair 0x23 xs := by
    intro xs
    cases xs with
    | nil => simp
    | cons x xs => simp [NoPair, List.isChain_cons_cons]
  have hpayload : NoPair 0x23 (m.chunk i ++ [0x23]) ↔
      ¬[0x23, 0x23] <:+: m.chunk i ∧ (m.chunk i).getLast? ≠ some 0x23 := by
    rw [noPair_append, noPair_iff]
    simp
  have hbytes : m.fragment (paddedLayout pad) i ++ [0x23] =
      m.sender :: m.receiver :: pad.afterReceiver.1 :: pad.afterReceiver.2 ::
        UInt8.ofNat ((flagByte (m.head i)).toNat + 64 * pad.flagHigh) :: pad.afterFlag.1 ::
        pad.afterFlag.2.1 :: pad.afterFlag.2.2 :: UInt8.ofNat m.sayi :: UInt8.ofNat (i + 1) ::
        UInt8.ofNat m.counter.toNat :: UInt8.ofNat (m.uzn i) :: 0 :: (m.chunk i ++ [0x23]) := rfl
  rw [hbytes]
  simp only [NoPair, List.isChain_cons_cons, hflag, htotal, hcurrent, hlen, hid, false_and,
    and_false, not_false_eq_true, true_and] at hzero hpayload ⊢
  rw [hzero, hpayload]
  constructor
  · rintro ⟨h1, h2, h3, h4, h5, h6, h7, h8, h9, -, h10, h11⟩
    exact ⟨h1, h2, h3, h4, h5, h6, h7, h8, h9, h10, h11⟩
  · rintro ⟨h1, h2, h3, h4, h5, h6, h7, h8, h9, h10, h11⟩
    exact ⟨h1, h2, h3, h4, h5, h6, h7, h8, h9, fun h => absurd h.2 (by decide), h10, h11⟩

/-- The first two `#` in a row that a fragment puts on the line are its trailing delimiter, and
`paket_decode` gets exactly its header and payload, if and only if nothing else in it looks like the
delimiter. -/
theorem framing_transparent_iff (pad : Padding) {m : Message} {i : Nat} (hi : i < m.sayi) :
    (pairPos 0x23 (m.paket (paddedLayout pad) i) =
        some (m.fragment (paddedLayout pad) i).length ∧
      handed (m.paket (paddedLayout pad) i) = some (m.fragment (paddedLayout pad) i)) ↔
      Unambiguous pad m i := by
  rw [← noPair_fragment pad hi, ← pairPos_append_pair]
  refine ⟨And.left, fun hpos => ⟨hpos, ?_⟩⟩
  have hlen : 0 < (m.fragment (paddedLayout pad) i).length := by
    rw [Message.fragment, List.length_append, (paddedLayout pad).length_write]
    exact Nat.lt_of_lt_of_le (by decide : 0 < 12) (Nat.le_add_right _ _)
  simp only [handed, Message.paket, hpos]
  rw [if_pos hlen, List.take_left' rfl]

/-- Zeros in the bytes that no field occupies. -/
def noPadding : Padding := ⟨(0, 0), 0, (0, 0, 0)⟩

/-- A text of 35 letters, as the packet with the given counter value. -/
def letters35 (counter : UInt16) : Message :=
  ⟨1, 2, .normal, counter, ⟨List.replicate 35 0x61, by decide⟩⟩

theorem framing_transparent_letters :
    pairPos 0x23 ((letters35 34).paket (paddedLayout noPadding) 0) =
      some ((letters35 34).fragment (paddedLayout noPadding) 0).length ∧
    handed ((letters35 34).paket (paddedLayout noPadding) 0) =
      some ((letters35 34).fragment (paddedLayout noPadding) 0) :=
  (framing_transparent_iff noPadding (by decide)).mpr
    ⟨by decide, by decide, by decide, by decide, by decide, by decide, by decide, by decide,
      by decide, by decide, by decide⟩

/-- The counter value 35 next to the length 35 looks like the delimiter. -/
theorem framing_cut : pairPos 0x23 ((letters35 35).paket (paddedLayout noPadding) 0) = some 10 ∧
    ((letters35 35).fragment (paddedLayout noPadding) 0).length = 48 ∧
    handed ((letters35 35).paket (paddedLayout noPadding) 0) =
      some (((letters35 35).fragment (paddedLayout noPadding) 0).take 10) := by
  decide

end DaliController.Rs485
