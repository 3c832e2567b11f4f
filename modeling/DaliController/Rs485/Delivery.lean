import DaliController.Rs485.RoundTrip

/-! Fragments of many messages, as they arrive at one device.  A fragment is read up to the pattern
that its sender wrote after it.  All senders share one buffer, and the end of a message is told by
its last fragment alone: what is delivered is a message that was sent if since the latest first
fragment nothing else arrived and nothing was lost. -/

namespace DaliController.Rs485

open Blocks CString

/-- The receiving side of `RS485`.  `delivered` records `paket_sender` and the text in the buffer
each time that `paket_decode` returns true. -/
structure Device where
  deviceId : UInt8
  decoder : Decoder
  paketSender : UInt8
  paketReceiver : UInt8
  acks : List Header
  delivered : List (UInt8 × List UInt8)

def bufSize : Nat := 512

def broadcast : UInt8 := 255

/-- The acknowledgements written so far, once a header was read. -/
def Device.answer (s : Device) (hd : Header) : List Header :=
  if hd.receiver = s.deviceId
  then s.acks ++ [{ hd with receiver := hd.sender, sender := s.deviceId }] else s.acks

def Device.deliver (s : Device) (hd : Header) (ret : Bool) (decoder : Decoder) : Device :=
  if ret then { s with
    decoder := decoder
    paketSender := hd.sender
    paketReceiver := hd.receiver
    delivered := s.delivered ++ [(hd.sender, (decoder.paketBuffer.map cstring).getD [])] }
  else { s with decoder := decoder }

/-- `UART_PATTERN_DET` in `_event_task`, for the bytes before the pattern. -/
def patternDet (layout : Layout) (shl : UInt8 → UInt64) (s : Device) (bytes : List UInt8) :
    Option Device :=
  let dtmp := bytes ++ List.replicate (bufSize - bytes.length) 0
  let hd := layout.read (dtmp.take layout.size)
  let s := { s with acks := s.answer hd }
  if hd.receiver = s.deviceId ∨ hd.receiver = broadcast then
    (paketDecode layout shl s.decoder dtmp).map fun p => s.deliver hd p.1 p.2
  else some s

/-- Fragment `i` of a message. -/
abbrev Arrival := Message × Nat

/-- A device, with the fragments for it that arrived since the latest first fragment. -/
structure Line where
  device : Device
  arrived : List Arrival

def Message.For (m : Message) (id : UInt8) : Prop := m.receiver = id ∨ m.receiver = broadcast

instance (m : Message) (id : UInt8) : Decidable (m.For id) := inferInstanceAs (Decidable (_ ∨ _))

/-- A fragment that arrives before any first fragment is dropped. -/
def arrivedAfter (arrived : List Arrival) (e : Arrival) : List Arrival :=
  if e.2 = 0 then [e] else if arrived.isEmpty then [] else arrived ++ [e]

def lineStep (layout : Layout) (shl : UInt8 → UInt64) (s : Line) (e : Arrival) : Option Line :=
  (patternDet layout shl s.device (e.1.fragment layout e.2)).map fun device =>
    { device := device
      arrived := if e.1.For s.device.deviceId then arrivedAfter s.arrived e else s.arrived }

def lineInit (id : UInt8) : Line := ⟨⟨id, noDecoder, 0, 0, [], []⟩, []⟩

/-- If the fragment is for the device, it ends inside the buffer of the latest first fragment; and
if it completes a message, then since that first fragment all fragments of this message arrived, and
no others. -/
structure Undisturbed (s : Line) (e : Arrival) : Prop where
  fits : e.1.For s.device.deviceId → ∀ first ∈ (arrivedAfter s.arrived e).head?,
    e.2 * 50 + (e.1.chunk e.2).length ≤ first.1.sayi * 50 + 2
  whole : e.1.For s.device.deviceId → Completes e.1.sayi e.2 → arrivedAfter s.arrived e ≠ [] →
    e.1.Sendable ∧ (∀ f ∈ arrivedAfter s.arrived e, f.1 = e.1) ∧
    ∀ j < e.1.sayi, (e.1, j) ∈ arrivedAfter s.arrived e

/-! ### The buffer -/

/-- What the buffer holds.  Its contents are known as long as only fragments of one message
arrived. -/
structure Buffered (arrived : List Arrival) (d : Decoder) : Prop where
  empty : arrived = [] → d.paketBuffer = none
  length : ∀ first ∈ arrived.head?, ∃ buf, d.paketBuffer = some buf ∧
    buf.length = first.1.sayi * 50 + 2
  holds : ∀ m : Message, m.Sendable → arrived ≠ [] → (∀ f ∈ arrived, f.1 = m) →
    Holds m (fun j => (m, j) ∈ arrived) d

theorem Holds.of_iff {m : Message} {done done' : Nat → Prop} {d : Decoder} (h : Holds m done d)
    (hd : ∀ j, done' j ↔ done j) : Holds m done' d := by
  obtain ⟨buf, hbuf, hfill⟩ := h
  exact ⟨buf, hbuf, hfill.of_iff hd⟩

section Line

variable (layout : Layout) (shl : UInt8 → UInt64)

/-- A fragment that is copied into a buffer of known length. -/
theorem decode_copied {d : Decoder} {m : Message} {i : Nat} (hi : i < m.sayi) (rest : List UInt8)
    {size : Nat} (hbuf : ∃ buf, bufferFor d m i = some buf ∧ buf.length = size)
    (hfit : i * 50 + (m.chunk i).length ≤ size) :
    ∃ d', paketDecode layout shl d (m.fragment layout i ++ rest) =
        some (decide (Completes m.sayi i), d') ∧
      ∃ buf, d'.paketBuffer = some buf ∧ buf.length = size := by
  obtain ⟨buf, hbuf, hlen⟩ := hbuf
  rw [paketDecode_fragment layout shl hi d rest, hbuf]
  dsimp only
  have hle : i * 50 + (m.chunk i).length ≤ buf.length := hlen ▸ hfit
  have hlen' : (splice buf (i * 50) (m.chunk i)).length = size := (length_splice hle).trans hlen
  rw [if_neg (Nat.not_lt.mpr hle)]
  refine ⟨_, rfl, ?_⟩
  exact ⟨_, rfl, hlen'⟩

theorem decode_arrival {arrived : List Arrival} {d : Decoder} (h : Buffered arrived d)
    {m : Message} {i : Nat} (hi : i < m.sayi) (rest : List UInt8)
    (hfits : ∀ first ∈ (arrivedAfter arrived (m, i)).head?,
      i * 50 + (m.chunk i).length ≤ first.1.sayi * 50 + 2) :
    ∃ b d', paketDecode layout shl d (m.fragment layout i ++ rest) = some (b, d') ∧
      Buffered (arrivedAfter arrived (m, i)) d' ∧
      (b = true → arrivedAfter arrived (m, i) ≠ [] ∧ Completes m.sayi i) := by
  unfold arrivedAfter at hfits ⊢
  dsimp only at hfits ⊢
  by_cases h0 : i = 0
  · rw [if_pos h0] at hfits ⊢
    have hfit : i * 50 + (m.chunk i).length ≤ m.sayi * 50 + 2 := hfits (m, i) rfl
    have hopen : ∃ buf, bufferFor d m i = some buf ∧ buf.length = m.sayi * 50 + 2 :=
      ⟨List.replicate (m.sayi * 50 + 2) 0, if_pos h0, List.length_replicate⟩
    obtain ⟨d', hdec, hlen⟩ := decode_copied layout shl hi rest hopen hfit
    refine ⟨_, d', hdec, ⟨nofun, ?_, ?_⟩, fun hb => ⟨nofun, of_decide_eq_true hb⟩⟩
    · intro first hfirst
      cases hfirst
      exact hlen
    · intro m' hm' _ hall
      obtain rfl : m = m' := hall (m, i) List.mem_cons_self
      have hnone : i ≠ 0 → Holds m (fun _ => False) d := fun hne => absurd h0 hne
      obtain ⟨d1, hdec1, hholds⟩ := holds_fragment layout shl hm' hi hnone rest
      rw [hdec] at hdec1
      obtain rfl : d' = d1 := (Prod.mk.inj (Option.some.inj hdec1)).2
      exact hholds.of_iff fun j => by simp
  · rw [if_neg h0] at hfits ⊢
    cases arrived with
    | nil =>
      have hnone : bufferFor d m i = none := by
        rw [bufferFor, if_neg h0]
        exact h.empty rfl
      refine ⟨false, d, ?_, h, nofun⟩
      rw [paketDecode_fragment layout shl hi d rest, hnone]
    | cons f fs =>
      obtain ⟨buf, hbuf, hlen⟩ := h.length f rfl
      obtain ⟨d', hdec, hlen'⟩ := decode_copied layout shl hi rest
        ⟨buf, (if_neg h0).trans hbuf, hlen⟩ (hfits f rfl)
      refine ⟨_, d', hdec, ⟨nofun, ?_, ?_⟩, fun hb => ⟨nofun, of_decide_eq_true hb⟩⟩
      · intro first hfirst
        cases hfirst
        exact hlen'
      · intro m' hm' _ hall
        obtain rfl : m = m' := hall (m, i) (by simp)
        have hold := h.holds m hm' nofun fun g hg => hall g (List.mem_append_left _ hg)
        obtain ⟨d1, hdec1, hholds⟩ := holds_fragment layout shl hm' hi (fun _ => hold) rest
        rw [hdec] at hdec1
        obtain rfl : d' = d1 := (Prod.mk.inj (Option.some.inj hdec1)).2
        refine hholds.of_iff fun j => ?_
        simp only [List.isEmpty_cons, Bool.false_eq_true, if_false, List.mem_append,
          List.mem_singleton, Prod.mk.injEq, true_and, ne_eq, h0, not_false_eq_true]
        exact or_comm

/-! ### Deliveries -/

/-- The buffer is as it should be, and every delivery was a message that its sender sent. -/
structure Sound (sent : Set Message) (s : Line) : Prop where
  buffered : Buffered s.arrived s.device.decoder
  delivered : ∀ d ∈ s.device.delivered, ∃ m ∈ sent, m.sender = d.1 ∧ m.text.bytes = d.2

/-- Once all fragments of a message are in the buffer, it holds the message's text. -/
theorem Holds.text {m : Message} (hm : m.Sendable) {done : Nat → Prop} {d : Decoder}
    (h : Holds m done d) (hdone : ∀ j < m.sayi, done j) :
    d.paketBuffer.map cstring = some m.text.bytes := by
  obtain ⟨buf, hbuf, hfill⟩ := h
  have hsayi := hm.sayi_eq
  rw [hbuf, hfill.eq_append (by omega) fun p hp => hdone _ (by omega)]
  exact congrArg some (cstring_append_zeros _ _)

theorem patternDet_fragment (s : Device) (m : Message) (i : Nat) :
    patternDet layout shl s (m.fragment layout i) =
      if m.For s.deviceId then
        (paketDecode layout shl s.decoder (m.fragment layout i ++
          List.replicate (bufSize - (m.fragment layout i).length) 0)).map fun p =>
            Device.deliver { s with acks := s.answer (m.head i) } (m.head i) p.1 p.2
      else some { s with acks := s.answer (m.head i) } := by
  simp only [patternDet, read_fragment]
  rfl

theorem lineStep_sound {sent : Set Message} {s : Line} (h : Sound sent s) {e : Arrival}
    (he : e.1 ∈ sent ∧ e.2 < e.1.sayi) (hu : Undisturbed s e) :
    ∃ s', lineStep layout shl s e = some s' ∧ Sound sent s' := by
  obtain ⟨m, i⟩ := e
  rw [lineStep, patternDet_fragment]
  dsimp only at he ⊢
  by_cases hfor : m.For s.device.deviceId
  swap
  · simp only [if_neg hfor, Option.map_some]
    exact ⟨_, rfl, h.buffered, h.delivered⟩
  obtain ⟨b, d, hdec, hbuf, hcomplete⟩ := decode_arrival layout shl h.buffered he.2
    (List.replicate (bufSize - (m.fragment layout i).length) 0) (hu.fits hfor)
  simp only [if_pos hfor, hdec, Option.map_some]
  refine ⟨_, rfl, ?_, ?_⟩
  · cases b <;> exact hbuf
  · cases b with
    | false => exact h.delivered
    | true =>
      intro x hx
      rcases List.mem_append.mp hx with hx | hx
      · exact h.delivered x hx
      · obtain ⟨hne, hdone⟩ := hcomplete rfl
        obtain ⟨hm, hall, hevery⟩ := hu.whole hfor hdone hne
        have htext := (hbuf.holds m hm hne hall).text hm hevery
        rw [List.mem_singleton.mp hx, htext]
        exact ⟨m, he.1, rfl, rfl⟩

/-- Whenever `paket_decode` returns true in a run whose arrivals are undisturbed, the buffer holds a
message that was sent by `paket_sender`; and no such run reads or writes outside a buffer. -/
theorem delivered_sent (sent : Set Message) (id : UInt8) {arrivals : List Arrival}
    (harrivals : ∀ e ∈ arrivals, e.1 ∈ sent ∧ e.2 < e.1.sayi)
    (hundisturbed : Runs.Meets (lineStep layout shl) Undisturbed (lineInit id) arrivals) :
    ∃ s, Runs.run (lineStep layout shl) (lineInit id) arrivals = some s ∧
      ∀ d ∈ s.device.delivered, ∃ m ∈ sent, m.sender = d.1 ∧ m.text.bytes = d.2 := by
  have hinit : Sound sent (lineInit id) :=
    ⟨⟨fun _ => rfl, nofun, fun _ _ hne => absurd rfl hne⟩, nofun⟩
  obtain ⟨s, hrun, hs⟩ := Runs.exists_run_of_meets
    (V := fun e => e.1 ∈ sent ∧ e.2 < e.1.sayi)
    (fun s e hs he hu => lineStep_sound layout shl hs he hu) hinit harrivals hundisturbed
  exact ⟨s, hrun, hs.delivered⟩

theorem lineStep_arrived {s s' : Line} {e : Arrival} (h : lineStep layout shl s e = some s') :
    s'.arrived = if e.1.For s.device.deviceId then arrivedAfter s.arrived e else s.arrived := by
  obtain ⟨device, -, rfl⟩ := Option.map_eq_some_iff.mp h
  rfl

end Line

/-- Both fragments of a message, in order. -/
theorem delivered_sent_letters : ∃ s, Runs.run (lineStep espLayout fun _ => 0) (lineInit 2)
      [(letters 60, 0), (letters 60, 1)] = some s ∧
    ∀ d ∈ s.device.delivered, ∃ m ∈ ({letters 60} : Set Message),
      m.sender = d.1 ∧ m.text.bytes = d.2 := by
  have hm : (letters 60).Sendable := letters_sendable (by decide)
  have hsayi : (letters 60).sayi = 2 := by rw [hm.sayi_eq, letters_length]
  have hchunk : ∀ i < 2, i * 50 + ((letters 60).chunk i).length ≤ (letters 60).sayi * 50 + 2 := by
    intro i hi
    have hlen := Message.length_chunk (m := letters 60) (i := i) (by omega)
    rw [Message.uzn_eq (by omega), hm.size_eq, letters_length] at hlen
    omega
  refine delivered_sent espLayout (fun _ => 0) {letters 60} 2 ?_ ⟨?_, fun s1 h1 => ⟨?_, ?_⟩⟩
  · intro e he
    rcases List.mem_pair.mp he with rfl | rfl
    · exact ⟨rfl, by rw [hsayi]; decide⟩
    · exact ⟨rfl, by rw [hsayi]; decide⟩
  · refine ⟨fun _ first hfirst => ?_, fun _ hdone => ?_⟩
    · cases hfirst
      exact hchunk 0 (by omega)
    · have hlast : 0 + 1 = (letters 60).sayi := hdone.1
      omega
  · have harrived := lineStep_arrived _ _ h1
    have harrived' : arrivedAfter s1.arrived (letters 60, 1) =
        [(letters 60, 0), (letters 60, 1)] := by
      rw [harrived]
      rfl
    refine ⟨fun _ first hfirst => ?_, fun _ _ _ => ⟨hm, ?_, ?_⟩⟩
    · rw [harrived'] at hfirst
      cases hfirst
      exact hchunk 1 (by omega)
    · rw [harrived']
      intro f hf
      rcases List.mem_pair.mp hf with rfl | rfl
      · rfl
      · rfl
    · rw [harrived']
      intro j hj
      rw [hsayi] at hj
      have hj' : j = 0 ∨ j = 1 := by omega
      rcases hj' with rfl | rfl <;> simp
  · exact fun _ _ => trivial

/-- The second of three fragments is lost, and a text that was never sent is delivered. -/
theorem delivered_unsent : ∃ s, Runs.run (lineStep espLayout fun _ => 0) (lineInit 2)
      [(letters 150, 0), (letters 150, 2)] = some s ∧
    ∃ d ∈ s.device.delivered, ∀ m ∈ ({letters 150} : Set Message),
      ¬(m.sender = d.1 ∧ m.text.bytes = d.2) := by
  have hrun : (Runs.run (lineStep espLayout fun _ => 0) (lineInit 2)
      [(letters 150, 0), (letters 150, 2)]).map (fun s => s.device.delivered) =
        some [(1, List.replicate 50 0x41)] := by
    decide +kernel
  obtain ⟨s, hs, hdelivered⟩ := Option.map_eq_some_iff.mp hrun
  refine ⟨s, hs, _, hdelivered ▸ List.mem_singleton.mpr rfl, ?_⟩
  rintro m rfl ⟨-, htext⟩
  have hlen := congrArg List.length htext
  rw [letters_length, List.length_replicate] at hlen
  omega

end DaliController.Rs485
