import DaliController.Lib.Runs
import DaliController.Rs485.Packet

/-! The packets of one message, decoded in order.  The buffer always ends up with the message, but
`paket_decode` reports its end only while the number of packets fits the 32 bits of its mask. -/

namespace DaliController.Rs485

open Blocks CString

variable (layout : Layout) (shl : UInt8 → UInt64)

/-- `paket_decode` on one packet, with the values it has returned so far. -/
def decodeStep (s : Decoder × List Bool) (data : List UInt8) : Option (Decoder × List Bool) :=
  (paketDecode layout shl s.1 data).map fun p => (p.2, s.2 ++ [p.1])

/-- Decoding the packets of `m` in order returns true for the last packet only, and leaves the text
of `m` in the buffer. -/
def RoundTrips (s : Decoder) (m : Message) : Prop :=
  ∃ s', Runs.run (decodeStep layout shl) (s, []) (m.pakets layout) =
      some (s', List.replicate (m.sayi - 1) false ++ [true]) ∧
    s'.paketBuffer.map cstring = some m.text.bytes

/-- A message of at most 255 packets, which `total_pk` can announce. -/
def Message.Sendable (m : Message) : Prop := 1 ≤ m.text.bytes.length ∧ m.text.bytes.length ≤ 12750

namespace Message.Sendable

variable {m : Message}

theorem size_eq (h : m.Sendable) : m.size = m.text.bytes.length := size_of_le h.2

theorem sayi_eq (h : m.Sendable) : m.sayi = (m.text.bytes.length + 49) / 50 := sayi_of_le h.2

theorem chunk_eq (h : m.Sendable) {i : Nat} (hi : i < m.sayi) :
    m.chunk i = block 50 m.text.bytes i := by
  rw [Message.chunk_eq hi, h.size_eq, List.take_length]

end Message.Sendable

/-- The buffer holds the fragments of `m` that are `done`. -/
def Holds (m : Message) (done : Nat → Prop) (s : Decoder) : Prop :=
  ∃ buf, s.paketBuffer = some buf ∧ Filled 50 0 m.text.bytes (m.sayi * 50 + 2) done buf

/-- A fragment of the message in the buffer is copied to its place. -/
theorem holds_fragment {m : Message} (hm : m.Sendable) {i : Nat} (hi : i < m.sayi) {s : Decoder}
    {done : Nat → Prop} (hs : i ≠ 0 → Holds m done s) (rest : List UInt8) :
    ∃ s', paketDecode layout shl s (m.fragment layout i ++ rest) =
        some (decide (Completes m.sayi i), s') ∧
      Holds m (fun j => j = i ∨ i ≠ 0 ∧ done j) s' := by
  have hpos := Message.start_lt hi
  have hsayi := hm.sayi_eq
  rw [hm.size_eq] at hpos
  have hsize : m.text.bytes.length ≤ m.sayi * 50 + 2 := by omega
  obtain ⟨buf, hbuf, hfill⟩ : ∃ buf, bufferFor s m i = some buf ∧
      Filled 50 0 m.text.bytes (m.sayi * 50 + 2) (fun j => i ≠ 0 ∧ done j) buf := by
    unfold bufferFor
    by_cases h0 : i = 0
    · rw [if_pos h0]
      exact ⟨_, rfl, filled_clear.of_iff fun j => by simp [h0]⟩
    · obtain ⟨buf, hbuf, hfill⟩ := hs h0
      rw [if_neg h0]
      exact ⟨buf, hbuf, hfill.of_iff fun j => by simp [h0]⟩
  have hlen : (m.chunk i).length ≤ m.text.bytes.length - i * 50 := by
    rw [hm.chunk_eq hi, length_block]
    exact Nat.min_le_right _ _
  have hfit : ¬buf.length < i * 50 + (m.chunk i).length := by
    rw [hfill.size_eq]
    omega
  rw [paketDecode_fragment layout shl hi s rest, hbuf]
  dsimp only
  rw [if_neg hfit]
  refine ⟨_, rfl, _, rfl, ?_⟩
  rw [hm.chunk_eq hi]
  exact hfill.splice (by omega) hsize hpos

/-- After the first `k` packets. -/
theorem decode_prefix {m : Message} (hm : m.Sendable) (s : Decoder) {k : Nat} (hk : k ≤ m.sayi) :
    ∃ s', Runs.run (decodeStep layout shl) (s, []) ((List.range k).map (m.paket layout)) =
        some (s', (List.range k).map fun i => decide (Completes m.sayi i)) ∧
      (k ≠ 0 → Holds m (· < k) s') := by
  induction k with
  | zero => exact ⟨s, rfl, fun h => absurd rfl h⟩
  | succ k ih =>
    obtain ⟨s1, hrun1, hs1⟩ := ih (by omega)
    obtain ⟨s2, hdec, buf, hbuf, hfill⟩ := holds_fragment layout shl hm hk hs1 [0x23, 0x23]
    refine ⟨s2, ?_, fun _ => ⟨buf, hbuf, hfill.of_iff fun j => by omega⟩⟩
    have hstep : Runs.run (decodeStep layout shl)
        (s1, (List.range k).map fun i => decide (Completes m.sayi i)) [m.paket layout k] =
        some (s2, (List.range k).map (fun i => decide (Completes m.sayi i)) ++
          [decide (Completes m.sayi k)]) := by
      rw [Runs.run_cons, decodeStep, Message.paket, hdec]
      rfl
    rw [List.range_succ, List.map_append, List.map_append]
    exact Runs.run_append_of hrun1 hstep

theorem results_eq {n : Nat} (hn : 1 ≤ n) :
    (List.range n).map (fun i => decide (Completes n i)) = List.replicate (n - 1) false ++ [true] ↔
      n ≤ 31 := by
  obtain ⟨k, rfl⟩ : ∃ k, n = k + 1 := ⟨n - 1, by omega⟩
  have hfalse : (List.range k).map (fun i => decide (Completes (k + 1) i)) =
      List.replicate k false := by
    rw [List.eq_replicate_iff]
    refine ⟨by simp, fun b hb => ?_⟩
    obtain ⟨i, hi, rfl⟩ := List.mem_map.mp hb
    have hlt := List.mem_range.mp hi
    rw [decide_eq_false_iff_not, Completes]
    omega
  rw [List.range_succ, List.map_append, hfalse, Nat.add_sub_cancel, List.append_cancel_left_eq]
  simp [Completes]

theorem roundTrips_iff {m : Message} (hm : m.Sendable) (s : Decoder) :
    RoundTrips layout shl s m ↔ m.sayi ≤ 31 := by
  have hsayi := hm.sayi_eq
  have hpos := hm.1
  obtain ⟨s', hrun, hs'⟩ := decode_prefix layout shl hm s le_rfl
  obtain ⟨buf, hbuf, hfill⟩ := hs' (by omega)
  have htext : s'.paketBuffer.map cstring = some m.text.bytes := by
    rw [hbuf, hfill.eq_append (by omega) fun p hp => by omega]
    exact congrArg some (cstring_append_zeros _ _)
  have hresults := results_eq (n := m.sayi) (by omega)
  constructor
  · rintro ⟨s1, hrun1, -⟩
    rw [Message.pakets, hrun] at hrun1
    exact hresults.mp (Prod.mk.inj (Option.some.inj hrun1)).2
  · intro hlen
    refine ⟨s', ?_, htext⟩
    rw [Message.pakets, hrun, hresults.mpr hlen]

/-- Decoding the packets of a message in order gives the message back if and only if it takes at
most 31 packets. -/
theorem decode_pakets {m : Message} (hm : m.Sendable) (s : Decoder) :
    RoundTrips layout shl s m ↔ m.text.bytes.length ≤ 1550 := by
  have hsayi := hm.sayi_eq
  rw [roundTrips_iff layout shl hm]
  omega

/-- A message of as many letters A. -/
def letters (n : Nat) : Message where
  sender := 1
  receiver := 2
  paketType := .normal
  counter := 0
  text := ⟨List.replicate n 0x41, by simp⟩

theorem letters_length (n : Nat) : (letters n).text.bytes.length = n := List.length_replicate

theorem letters_sendable {n : Nat} (h : 1 ≤ n ∧ n ≤ 12750) : (letters n).Sendable := by
  rwa [Message.Sendable, letters_length]

/-- The state after start-up. -/
def noDecoder : Decoder := ⟨none, 0, 0⟩

theorem decode_pakets_1550 : RoundTrips espLayout (fun _ => 0) noDecoder (letters 1550) :=
  (decode_pakets espLayout (fun _ => 0) (letters_sendable (by decide)) noDecoder).mpr
    (letters_length 1550).le

theorem decode_pakets_1551 : (letters 1551).Sendable ∧
    ¬RoundTrips espLayout (fun _ => 0) noDecoder (letters 1551) := by
  have hm := letters_sendable (n := 1551) (by decide)
  refine ⟨hm, ?_⟩
  rw [roundTrips_iff espLayout _ hm, hm.sayi_eq, letters_length]
  omega

end DaliController.Rs485
