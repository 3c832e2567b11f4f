import DaliController.Dali.Wire
import DaliController.Dali.Receiver
import Mathlib.Data.List.Forall2

/-! The wire codec round trip: the edges of a sent frame, under any admitted jitter, are received
as one queue element, which `paket_task` stores as the package that was sent. -/

namespace DaliController.Dali

open Manchester

/-- The edges that a receiver on an idle line sees of a frame, with their intervals in half-bits. -/
def sendEdges (p : Package) : List (Bool × Nat) := edges true 0 (send p)

/-- An edge whose interval is long enough to be told from a glitch and on the right side of the
threshold between one half-bit and two. -/
def Within (w : Bool × Nat) (e : Edge) : Prop :=
  e.level = w.1 ∧ (w.2 = 1 → 100 < e.dt ∧ e.dt ≤ 582) ∧ (w.2 = 2 → 582 < e.dt ∧ e.dt < 2164)

/-- Edges that carry a frame with jitter: the fall into the start bit, its rise after a low of
between 291 and 541 microseconds, and then the edges of the data and stop. -/
def FrameTimed : List (Bool × Nat) → List Edge → Prop
  | fall :: rise :: ws, e0 :: e1 :: es =>
    e0.level = fall.1 ∧ e1.level = rise.1 ∧ (291 < e1.dt ∧ e1.dt < 541) ∧ List.Forall₂ Within ws es
  | _, _ => False

/-- The idle state: no start bit, `per_timer` stopped and nothing queued. -/
structure Idle (r : Receiver) : Prop where
  noStart : r.startBitBegin = false
  stopped : r.perTimer.running = false
  empty : r.paketQueue = []

/-- The state between two edges of the data: `count` half-bits counted since the start bit, and
`bits` shifted in. -/
structure InFrame (count : Nat) (bits : List Bool) (r : Receiver) : Prop where
  start : r.startBitBegin = true
  timer : r.perTimer = ⟨true, 0⟩
  count : r.bitCount = UInt8.ofNat count
  value : r.hgelen = BitVec.ofNat 32 (bitsValue 0 bits)
  empty : r.paketQueue = []

theorem shift_in (v : Nat) (b : Bool) :
    (BitVec.ofNat 32 v <<< 1) ||| (BitVec.ofBool b).setWidth 32 =
      BitVec.ofNat 32 (2 * v + b.toNat) := by
  apply BitVec.eq_of_toNat_eq
  have hb : b.toNat < 2 ^ 1 := by cases b <;> decide
  rw [BitVec.toNat_or, BitVec.toNat_shiftLeft, BitVec.toNat_setWidth, BitVec.toNat_ofBool,
    BitVec.toNat_ofNat, BitVec.toNat_ofNat, Nat.shiftLeft_eq, Nat.mod_mul_mod,
    Nat.mod_eq_of_lt (a := b.toNat) (by omega)]
  have hsplit : v * 2 ^ 1 % 2 ^ 32 = 2 ^ 1 * (v % 2 ^ 31) := by omega
  rw [hsplit, ← Nat.two_pow_add_eq_or_of_lt hb]
  omega

theorem ofNat_mod_two (c : Nat) : UInt8.ofNat c % 2 = 0 ↔ c % 2 = 0 := by
  rw [← UInt8.toNat_inj]
  simp only [UInt8.toNat_mod, UInt8.toNat_ofNat']
  simp

theorem elapse_of_before_alarm {dt : Nat} {r : Receiver} (hr : r.perTimer = ⟨true, 0⟩)
    (hdt : dt < perAlarm) : elapse dt r = advance dt r := by
  simp [elapse, hr, Nat.not_le.mpr hdt]

/-- One edge within the jitter counts its half-bits, and at an even count shifts its level in. -/
theorem edgeStep_within {count : Nat} {bits : List Bool} {r : Receiver} {w : Bool × Nat} {e : Edge}
    (hr : InFrame count bits r) (hw : w.2 = 1 ∨ w.2 = 2) (he : Within w e) :
    ∃ r', edgeStep r e = some r' ∧
      InFrame (count + w.2) (if (count + w.2) % 2 = 0 then bits ++ [w.1] else bits) r' := by
  obtain ⟨level, k⟩ := w
  obtain ⟨hlevel, h1, h2⟩ := he
  simp only at hw hlevel h1 h2
  obtain ⟨hstart, htimer, hcount, hvalue, hempty⟩ := hr
  have hdt : 100 < e.dt ∧ e.dt < perAlarm ∧ (fullPeriodDown < e.dt ↔ k = 2) := by
    rw [perAlarm_eq, fullPeriodDown_eq]
    rcases hw with rfl | rfl
    · have := h1 rfl
      omega
    · have := h2 rfl
      omega
  obtain ⟨hlow, hhigh, hlong⟩ := hdt
  have hsum : (if e.dt > fullPeriodDown then r.bitCount + 2 else r.bitCount + 1) =
      UInt8.ofNat (count + k) := by
    rcases hw with rfl | rfl <;> simp [hlong, hcount, UInt8.ofNat_add]
  unfold edgeStep
  rw [elapse_of_before_alarm htimer hhigh]
  simp only [intHandler, advance, hstart, htimer, parazit, Bool.true_eq_false, false_and, if_false,
    if_true, Nat.zero_add, hsum, Nat.not_le.mpr hlow, decide_false, and_true, gt_iff_lt, hlow,
    ofNat_mod_two]
  refine ⟨_, rfl, ⟨rfl, rfl, rfl, ?_, hempty⟩⟩
  simp only [hvalue, hlevel]
  split
  · rw [shift_in, bitsValue_append]
    simp [bitsValue]
  · rfl

/-- The edges of the data, one after the other. -/
theorem receive_within {count : Nat} {bits : List Bool} {r : Receiver} {ws : List (Bool × Nat)}
    {es : List Edge} (hr : InFrame count bits r) (hws : ∀ w ∈ ws, w.2 = 1 ∨ w.2 = 2)
    (hes : List.Forall₂ Within ws es) :
    ∃ r', receive r es = some r' ∧
      InFrame (decode count bits ws).1 (decode count bits ws).2 r' := by
  induction hes generalizing count bits r with
  | nil => exact ⟨r, rfl, hr⟩
  | @cons w e ws es he hes ih =>
    obtain ⟨r1, hstep, hr1⟩ := edgeStep_within hr (hws w (by simp)) he
    obtain ⟨r', hrun, hr'⟩ := ih hr1 fun v hv => hws v (by simp [hv])
    exact ⟨r', by rw [receive, Runs.run_cons, hstep]; exact hrun, hr'⟩

theorem receive_start {r : Receiver} {e0 e1 : Edge} (hr : Idle r)
    (hkom : 1746 < (elapse e0.dt r).komTimer.count) (h0 : e0.level = false) (h1 : e1.level = true)
    (hlow : 291 < e1.dt ∧ e1.dt < 541) :
    ∃ r', receive r [e0, e1] = some r' ∧ InFrame 0 [] r' := by
  have hwait : elapse e0.dt r = advance e0.dt r := by simp [elapse, hr.stopped]
  rw [hwait] at hkom
  have hfall : ∃ kom, edgeStep r e0 = some { r with
      perTimer := ⟨true, 0⟩, bitCount := 0, komTimer := kom, hgelen := 0 } := by
    refine ⟨⟨r.komTimer.running, 0⟩, ?_⟩
    rw [edgeStep, hwait]
    simp only [advance] at hkom
    simp only [intHandler, advance, hr.noStart, hr.stopped, h0, fullPeriodDown3, gt_iff_lt, hkom,
      GpTimer.start, and_self, if_true, Bool.false_eq_true, if_false, Option.map_some]
  obtain ⟨kom, hfall⟩ := hfall
  rw [receive, Runs.run_cons, hfall, Option.bind_some, Runs.run_cons]
  simp only [edgeStep, elapse, advance, intHandler, h1, hr.noStart, perAlarm_eq, halfPeriodDown_eq,
    halfPeriodUp_eq, Nat.zero_add, Bool.true_eq_false, and_false, if_false, if_true,
    show ¬2164 ≤ e1.dt by omega, gt_iff_lt, hlow, and_self, Option.bind_some, Runs.run_nil]
  exact ⟨_, rfl, ⟨rfl, rfl, rfl, rfl, hr.empty⟩⟩

/-- A gap of two long full periods after the last edge ends the frame: the alarm queues it. -/
theorem elapse_frame {count : Nat} {bits : List Bool} {r : Receiver} {gap : Nat}
    (hr : InFrame count bits r) (hgap : 2164 ≤ gap) :
    (elapse gap r).paketQueue =
      [⟨UInt8.ofNat count, BitVec.ofNat 32 (bitsValue 0 bits)⟩] := by
  have halarm : perAlarm ≤ gap := hgap
  simp [elapse, advance, timerAlarmCb, hr.timer, halarm, hr.empty, hr.count, hr.value, queueSend,
    paketQueueLength]

/-- The bit count that a frame of a package ends with. -/
def frameCount (p : Package) : Nat :=
  2 * (frameBits p).length + (if lastLevel true (frameBits p) then 0 else 1)

theorem sendEdges_eq (p : Package) :
    sendEdges p = (false, 0) :: (true, 1) :: edges true 1 (wave (frameBits p) ++ [true]) := by
  rw [sendEdges, send_eq_wave]
  simp [halves, edges]

theorem receive_frame {p : Package} {r : Receiver} {es : List Edge} (hr : Idle r)
    (hkom : ∀ e ∈ es.head?, 1746 < (elapse e.dt r).komTimer.count)
    (hes : FrameTimed (sendEdges p) es) :
    ∃ r', receive r es = some r' ∧ InFrame (frameCount p) (frameBits p) r' := by
  rw [sendEdges_eq] at hes
  match es, hes with
  | e0 :: e1 :: es, ⟨h0, h1, hlow, hdata⟩ =>
    obtain ⟨r1, hstart, hr1⟩ := receive_start hr (hkom e0 (by simp)) h0 h1 hlow
    obtain ⟨r', hrun, hr'⟩ := receive_within hr1 (fun w hw => interval_edges hw) hdata
    rw [decode_edges true (frameBits p) [] rfl] at hr'
    refine ⟨r', ?_, by simpa [frameCount] using hr'⟩
    have h := Runs.run_append_of hstart hrun
    exact h

/-! ### What the paket task stores -/

theorem toNat_append_byte {n : Nat} (x : BitVec n) (y : UInt8) :
    (x ++ y.toBitVec).toNat = x.toNat * 256 + y.toNat := by
  have hy : y.toBitVec.toNat < 2 ^ 8 := y.toBitVec.isLt
  rw [BitVec.toNat_append, Nat.shiftLeft_eq, Nat.mul_comm x.toNat,
    ← Nat.two_pow_add_eq_or_of_lt hy]
  show 2 ^ 8 * x.toNat + y.toNat = _
  omega

theorem toNat_word (top : TopByte) (g : Package) : ∃ t, (g.word top).toNat =
    t * 2 ^ 24 + g.data0.toNat * 2 ^ 16 + g.data1.toNat * 2 ^ 8 + g.data2.toNat := by
  refine ⟨(top.pack g.type g.error).toNat, ?_⟩
  rw [Package.word, toNat_append_byte, toNat_append_byte, toNat_append_byte]
  omega

theorem toNat_ofWord (top : TopByte) (w : BitVec 32) :
    (Package.ofWord top w).data0.toNat = w.toNat / 2 ^ 16 % 2 ^ 8 ∧
    (Package.ofWord top w).data1.toNat = w.toNat / 2 ^ 8 % 2 ^ 8 ∧
    (Package.ofWord top w).data2.toNat = w.toNat % 2 ^ 8 := by
  simp [Package.ofWord, UInt8.toNat, BitVec.extractLsb'_toNat, Nat.shiftRight_eq_div_pow]

theorem data_shift16 (top : TopByte) (g : Package) :
    (Package.ofWord top (g.word top <<< 16)).data0 = g.data2 := by
  obtain ⟨t, hw⟩ := toNat_word top g
  have h0 := (toNat_ofWord top (g.word top <<< 16)).1
  have hb := g.data2.toNat_lt
  apply UInt8.toNat_inj.mp
  rw [h0, BitVec.toNat_shiftLeft, Nat.shiftLeft_eq, hw]
  omega

theorem data_shift8 (top : TopByte) (g : Package) :
    (Package.ofWord top (g.word top <<< 8)).data0 = g.data1 ∧
    (Package.ofWord top (g.word top <<< 8)).data1 = g.data2 := by
  obtain ⟨t, hw⟩ := toNat_word top g
  obtain ⟨h0, h1, -⟩ := toNat_ofWord top (g.word top <<< 8)
  have hb1 := g.data1.toNat_lt
  have hb2 := g.data2.toNat_lt
  rw [BitVec.toNat_shiftLeft, Nat.shiftLeft_eq, hw] at h0 h1
  constructor
  · apply UInt8.toNat_inj.mp
    omega
  · apply UInt8.toNat_inj.mp
    omega

/-- The data bytes that a queue element of a frame's bits holds, before any shift. -/
theorem data_bitsValue (top : TopByte) (v : Nat) :
    (Package.ofWord top (BitVec.ofNat 32 v)).data0 = UInt8.ofNat (v / 2 ^ 16) ∧
    (Package.ofWord top (BitVec.ofNat 32 v)).data1 = UInt8.ofNat (v / 2 ^ 8) ∧
    (Package.ofWord top (BitVec.ofNat 32 v)).data2 = UInt8.ofNat v := by
  obtain ⟨h0, h1, h2⟩ := toNat_ofWord top (BitVec.ofNat 32 v)
  rw [BitVec.toNat_ofNat] at h0 h1 h2
  refine ⟨UInt8.toNat_inj.mp ?_, UInt8.toNat_inj.mp ?_, UInt8.toNat_inj.mp ?_⟩
  · rw [h0, UInt8.toNat_ofNat']
    omega
  · rw [h1, UInt8.toNat_ofNat']
    omega
  · rw [h2, UInt8.toNat_ofNat']
    omega

theorem bitsValue_bytes (v : Nat) (d : UInt8) (ds : List UInt8) :
    bitsValue v ((d :: ds).flatMap (topBits 8)) =
      bitsValue (v * 2 ^ 8 + d.toNat) (ds.flatMap (topBits 8)) := by
  rw [List.flatMap_cons, bitsValue_append, bitsValue_eq v, bitsValue_topBits, length_topBits]

theorem ofNat_toNat_add (v : Nat) (d : UInt8) : UInt8.ofNat (v * 2 ^ 8 + d.toNat) = d := by
  apply UInt8.toNat_inj.mp
  have := d.toNat_lt
  rw [UInt8.toNat_ofNat']
  omega

theorem add_div_byte (v : Nat) (d : UInt8) : (v * 2 ^ 8 + d.toNat) / 2 ^ 8 = v := by
  have := d.toNat_lt
  omega

theorem paketStore_8 (top : TopByte) {gg : PaketQueueElement}
    (h : gg.bitCnt = 16 ∨ gg.bitCnt = 17) :
    (paketStore top gg).type = .block8 ∧
    (paketStore top gg).data0 = (Package.ofWord top gg.gln).data2 := by
  have hshift := data_shift16 top { Package.ofWord top gg.gln with type := .blockErr }
  rcases h with h | h <;> exact ⟨by simp [paketStore, paketClassify, h],
    by simpa [paketStore, paketClassify, h] using hshift⟩

theorem paketStore_16 (top : TopByte) {gg : PaketQueueElement}
    (h : gg.bitCnt = 32 ∨ gg.bitCnt = 33) :
    (paketStore top gg).type = .block16 ∧
    (paketStore top gg).data0 = (Package.ofWord top gg.gln).data1 ∧
    (paketStore top gg).data1 = (Package.ofWord top gg.gln).data2 := by
  have hshift := data_shift8 top { Package.ofWord top gg.gln with type := .blockErr }
  rcases h with h | h <;> exact ⟨by simp [paketStore, paketClassify, h],
    by simpa [paketStore, paketClassify, h] using hshift⟩

theorem paketStore_24 (top : TopByte) {gg : PaketQueueElement}
    (h : gg.bitCnt = 48 ∨ gg.bitCnt = 49) :
    (paketStore top gg).type = .block24 ∧
    (paketStore top gg).data0 = (Package.ofWord top gg.gln).data0 ∧
    (paketStore top gg).data1 = (Package.ofWord top gg.gln).data1 ∧
    (paketStore top gg).data2 = (Package.ofWord top gg.gln).data2 := by
  rcases h with h | h <;> simp [paketStore, paketClassify, h]

/-- The queue element that a received frame of a package leaves. -/
def frameElement (p : Package) : PaketQueueElement :=
  ⟨UInt8.ofNat (frameCount p), BitVec.ofNat 32 (bitsValue 0 (frameBits p))⟩

theorem frameElement_bitCnt (p : Package) :
    (frameElement p).bitCnt = UInt8.ofNat (16 * p.bytes.length) ∨
    (frameElement p).bitCnt = UInt8.ofNat (16 * p.bytes.length + 1) := by
  have hlen : 2 * (frameBits p).length = 16 * p.bytes.length := by
    rw [length_frameBits]
    omega
  simp only [frameElement, frameCount, hlen]
  split
  · exact Or.inl rfl
  · exact Or.inr rfl

/-- `paket_task` stores the package whose frame a queue element holds. -/
theorem paketStore_frame (top : TopByte) (p : Package) (hp : p.type ≠ .blockErr) :
    (paketStore top (frameElement p)).type = p.type ∧
    (paketStore top (frameElement p)).bytes = p.bytes := by
  have hcount := frameElement_bitCnt p
  obtain ⟨d0, d1, d2, type, error⟩ := p
  cases type with
  | block8 =>
    obtain ⟨htype, h0⟩ := paketStore_8 top hcount
    obtain ⟨-, -, hd2⟩ := data_bitsValue top (0 * 2 ^ 8 + d0.toNat)
    refine ⟨htype, ?_⟩
    simp only [Package.bytes, htype, h0]
    simp only [frameElement, frameBits, Package.bytes, bitsValue_bytes, List.flatMap_nil,
      bitsValue_nil, hd2, ofNat_toNat_add]
  | block16 =>
    obtain ⟨htype, h0, h1⟩ := paketStore_16 top hcount
    obtain ⟨-, hd1, hd2⟩ := data_bitsValue top ((0 * 2 ^ 8 + d0.toNat) * 2 ^ 8 + d1.toNat)
    refine ⟨htype, ?_⟩
    simp only [Package.bytes, htype, h0, h1]
    simp only [frameElement, frameBits, Package.bytes, bitsValue_bytes, List.flatMap_nil,
      bitsValue_nil, hd1, hd2, ofNat_toNat_add, add_div_byte]
  | block24 =>
    obtain ⟨htype, h0, h1, h2⟩ := paketStore_24 top hcount
    obtain ⟨hd0, hd1, hd2⟩ :=
      data_bitsValue top (((0 * 2 ^ 8 + d0.toNat) * 2 ^ 8 + d1.toNat) * 2 ^ 8 + d2.toNat)
    have hdiv (v : Nat) : v / 2 ^ 16 = v / 2 ^ 8 / 2 ^ 8 := by omega
    refine ⟨htype, ?_⟩
    simp only [Package.bytes, htype, h0, h1, h2]
    simp only [frameElement, frameBits, Package.bytes, bitsValue_bytes, List.flatMap_nil,
      bitsValue_nil, hd0, hd1, hd2, hdiv, ofNat_toNat_add, add_div_byte]
  | blockErr => exact absurd rfl hp

/-- Every frame that `Dali::send` puts on the bus is received as one queue element, under every
admitted jitter, and `paket_task` stores the package that was sent. -/
theorem send_received (top : TopByte) {p : Package} {r : Receiver} {es : List Edge} {gap : Nat}
    (hp : p.type ≠ .blockErr) (hr : Idle r)
    (hkom : ∀ e ∈ es.head?, 1746 < (elapse e.dt r).komTimer.count)
    (hes : FrameTimed (sendEdges p) es) (hgap : 2164 ≤ gap) :
    ∃ r' gg, receive r es = some r' ∧ r'.paketQueue = [] ∧ (elapse gap r').paketQueue = [gg] ∧
      (paketStore top gg).type = p.type ∧ (paketStore top gg).bytes = p.bytes := by
  obtain ⟨r', hrun, hr'⟩ := receive_frame hr hkom hes
  exact ⟨r', frameElement p, hrun, hr'.empty, elapse_frame hr' hgap, paketStore_frame top p hp⟩

/-- The edges of a frame with every half period at the transmitter's own 416 microseconds, after
`idle` microseconds of idle line. -/
def nominalEdges (idle : Nat) (p : Package) : List Edge :=
  match sendEdges p with
  | [] => []
  | fall :: ws => ⟨idle, fall.1⟩ :: ws.map fun w => ⟨w.2 * halfPeriod, w.1⟩

/-- The transmitter's own timing is within the receiver's jitter. -/
theorem frameTimed_nominal (idle : Nat) (p : Package) :
    FrameTimed (sendEdges p) (nominalEdges idle p) := by
  rw [nominalEdges, sendEdges_eq]
  refine ⟨rfl, rfl, by decide, ?_⟩
  rw [List.forall₂_map_right_iff, List.forall₂_same]
  intro w hw
  have hk := interval_edges hw
  refine ⟨rfl, fun h => ?_, fun h => ?_⟩
  · simp [h, halfPeriod]
  · simp [h, halfPeriod]

def idleReceiver : Receiver := ⟨false, 0, 0, false, ⟨false, 0⟩, ⟨true, 0⟩, []⟩

/-- A recall of the maximum level by short address 5, sent 3 ms after power-up. -/
theorem send_received_recallMax : ∃ r' gg,
    receive idleReceiver (nominalEdges 3000 ⟨0x0B, 0x05, 0, .block16, 0⟩) = some r' ∧
      r'.paketQueue = [] ∧ (elapse 5000 r').paketQueue = [gg] ∧
      (paketStore nibbleTop gg).type = .block16 ∧
      (paketStore nibbleTop gg).bytes = [0x0B, 0x05] :=
  send_received nibbleTop (p := ⟨0x0B, 0x05, 0, .block16, 0⟩) (by decide) ⟨rfl, rfl, rfl⟩
    (by decide) (frameTimed_nominal 3000 _) (by decide)

end DaliController.Dali
