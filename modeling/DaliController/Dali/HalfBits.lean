import DaliController.Dali.StartBit

/-! How many bits a frame holds, and how many `paket_task` takes it to hold.  `bit_count` counts
half bits modulo 256, but a bit is shifted only when the count lands on an even number.  An edge
after a long interval that began in the middle of a bit passes over the even number, and no bit is
shifted. -/

namespace DaliController.Dali

/-- What the timer shows at the next edge. -/
def Receiver.kk (r : Receiver) (e : Edge) : Nat := r.perTimer.count + e.dt

/-- The half bits that an edge counts for. -/
def halves (kk : Nat) : Nat := if fullPeriodDown < kk then 2 else 1

/-- The edge shifts a bit into `Hgelen`. -/
def Shifts (r : Receiver) (e : Edge) : Prop :=
  r.startBitBegin = true ∧ parazit < r.kk e ∧ (r.bitCount + UInt8.ofNat (halves (r.kk e))) % 2 = 0

instance (r : Receiver) (e : Edge) : Decidable (Shifts r e) :=
  inferInstanceAs (Decidable (_ ∧ _ ∧ _))

/-- The number of bits shifted into `Hgelen` over a sequence of edges. -/
def shifted (r : Receiver) : List Edge → Nat
  | [] => 0
  | e :: es =>
    (if Shifts r e then 1 else 0) +
      match edgeStep r e with
      | some r' => shifted r' es
      | none => 0

/-- What the alarm sends to `paket_task`. -/
def alarmElement (r : Receiver) : PaketQueueElement := ⟨r.bitCount, r.hgelen⟩

/-- The edge comes before the alarm. -/
def BeforeAlarm (r : Receiver) (e : Edge) : Prop := ¬Rings e.dt r

instance (r : Receiver) (e : Edge) : Decidable (BeforeAlarm r e) :=
  inferInstanceAs (Decidable ¬(_ ∧ _))

/-- A start bit was accepted, and its timer runs. -/
structure InData (r : Receiver) : Prop where
  start : r.startBitBegin = true
  running : r.perTimer.running = true

/-- One edge of a frame: glitches up to 100 microseconds only let time pass. -/
theorem edgeStep_inData {r : Receiver} {e : Edge} (hr : InData r) (he : BeforeAlarm r e) :
    ∃ r', edgeStep r e = some r' ∧ InData r' ∧
      r'.perTimer.count = (if parazit < r.kk e then 0 else r.kk e) ∧
      r'.bitCount = (if parazit < r.kk e then r.bitCount + UInt8.ofNat (halves (r.kk e))
        else r.bitCount) ∧
      r'.hgelen = if Shifts r e then (r.hgelen <<< 1) ||| (BitVec.ofBool e.level).setWidth 32
        else r.hgelen := by
  have hquiet := elapse_quiet he
  have hper : (advance e.dt r).perTimer = ⟨true, r.kk e⟩ := by
    simp [advance, hr.running, Receiver.kk]
  have hstart : (advance e.dt r).startBitBegin = true := hr.start
  have hbits : (advance e.dt r).bitCount = r.bitCount := rfl
  have hgelen : (advance e.dt r).hgelen = r.hgelen := rfl
  have hhandler : intHandler e.level (advance e.dt r) =
      if parazit < r.kk e then
        some { advance e.dt r with
          gec := false
          bitCount := r.bitCount + UInt8.ofNat (halves (r.kk e))
          hgelen := if Shifts r e then (r.hgelen <<< 1) ||| (BitVec.ofBool e.level).setWidth 32
            else r.hgelen
          perTimer := ⟨true, 0⟩ }
      else some { advance e.dt r with gec := true } := by
    have hbits : (if r.kk e > fullPeriodDown then r.bitCount + 2 else r.bitCount + 1) =
        r.bitCount + UInt8.ofNat (halves (r.kk e)) := by
      unfold halves
      split <;> rfl
    unfold intHandler
    rw [if_neg (by simp [hstart]), if_neg (by simp [hstart])]
    dsimp only
    rw [hper]
    by_cases hkk : parazit < r.kk e
    · have hle : decide (r.kk e ≤ parazit) = false := decide_eq_false (Nat.not_le.mpr hkk)
      rw [if_pos ⟨hkk, hle⟩, if_pos hkk, show (advance e.dt r).bitCount = r.bitCount from rfl,
        hbits]
      simp only [Shifts, hr.start, hkk, true_and]
      rfl
    · have hle : decide (r.kk e ≤ parazit) = true := decide_eq_true (Nat.not_lt.mp hkk)
      rw [if_neg (fun h => hkk h.1), if_neg hkk, hle]
  rw [edgeStep, hquiet, hhandler]
  by_cases hkk : parazit < r.kk e
  · simp only [if_pos hkk]
    exact ⟨_, rfl, ⟨hstart, rfl⟩, rfl, rfl, rfl⟩
  · have hno : ¬Shifts r e := fun h => hkk h.2.1
    simp only [if_neg hkk, if_neg hno]
    refine ⟨_, rfl, ⟨hstart, ?_⟩, ?_, rfl, rfl⟩
    · exact congrArg GpTimer.running hper
    · exact congrArg GpTimer.count hper

/-! ### Half bits -/

/-- The intervals that `bit_count` counts, with `count` microseconds on the timer at the start: from
one edge that is no glitch to the next. -/
def intervals : Nat → List Edge → List Nat
  | _, [] => []
  | count, e :: es =>
    if parazit < count + e.dt then (count + e.dt) :: intervals 0 es else intervals (count + e.dt) es

/-- The number of half bits of the intervals. -/
def halfBits (ks : List Nat) : Nat := (ks.map halves).sum

theorem halfBits_cons (kk : Nat) (ks : List Nat) :
    halfBits (kk :: ks) = halves kk + halfBits ks := by
  simp [halfBits]

/-- The number of long intervals that begin in the middle of a bit, after `t` half bits. -/
def straddles : Nat → List Nat → Nat
  | _, [] => 0
  | t, kk :: ks =>
    (if t % 2 = 1 ∧ fullPeriodDown < kk then 1 else 0) + straddles (t + halves kk) ks

theorem even_ofNat (n : Nat) : UInt8.ofNat n % 2 = 0 ↔ n % 2 = 0 := by
  rw [← UInt8.toNat_inj, UInt8.toNat_mod, UInt8.toNat_ofNat']
  simp only [UInt8.reduceToNat]
  omega

/-- Over the edges of a frame `bit_count` counts the half bits, and every two half bits shift one
bit, apart from the long intervals that begin in the middle of a bit. -/
theorem receive_inData {r : Receiver} {es : List Edge} (hr : InData r)
    (hes : Runs.Meets edgeStep BeforeAlarm r es) (t : Nat) (ht : r.bitCount = UInt8.ofNat t) :
    ∃ r', receive r es = some r' ∧
      r'.bitCount = UInt8.ofNat (t + halfBits (intervals r.perTimer.count es)) ∧
      t / 2 + shifted r es + straddles t (intervals r.perTimer.count es) =
        (t + halfBits (intervals r.perTimer.count es)) / 2 := by
  induction es generalizing r t with
  | nil => exact ⟨r, rfl, ht, rfl⟩
  | cons e es ih =>
    obtain ⟨r1, hstep, hr1, hcount, hbits, -⟩ := edgeStep_inData hr hes.1
    have hrest := hes.2 r1 hstep
    by_cases hkk : parazit < r.kk e
    · rw [if_pos hkk] at hcount hbits
      have ht1 : r1.bitCount = UInt8.ofNat (t + halves (r.kk e)) := by
        rw [hbits, ht, UInt8.ofNat_add]
      obtain ⟨r', hrun, hbits', hsum⟩ := ih hr1 hrest _ ht1
      have hintervals : intervals r.perTimer.count (e :: es) = r.kk e :: intervals 0 es :=
        if_pos hkk
      have hshifts : Shifts r e ↔ (t + halves (r.kk e)) % 2 = 0 := by
        simp only [Shifts, hr.start, hkk, true_and]
        rw [ht, ← UInt8.ofNat_add, even_ofNat]
      rw [hcount] at hbits' hsum
      have hhalves : halves (r.kk e) = if fullPeriodDown < r.kk e then 2 else 1 := rfl
      refine ⟨r', ?_, ?_, ?_⟩
      · simp only [receive, Runs.run_cons, hstep, Option.bind_some, hrun]
      · rw [hbits', hintervals, halfBits_cons, Nat.add_assoc]
      · -- A bit is shifted, unless a long interval begins at an odd count.
        rw [hintervals, shifted, straddles, hstep, halfBits_cons]
        simp only [hshifts]
        by_cases hlong : fullPeriodDown < r.kk e <;> by_cases hodd : t % 2 = 1 <;>
          simp only [hlong, hodd, if_true, if_false, and_self, false_and,
            and_false] at hhalves hsum ⊢ <;> split <;> omega
    · rw [if_neg hkk] at hcount hbits
      obtain ⟨r', hrun, hbits', hsum⟩ := ih hr1 hrest t (hbits.trans ht)
      have hintervals : intervals r.perTimer.count (e :: es) = intervals (r.kk e) es :=
        if_neg hkk
      have hno : ¬Shifts r e := fun h => hkk h.2.1
      rw [hcount] at hbits' hsum
      refine ⟨r', ?_, ?_, ?_⟩
      · simp only [receive, Runs.run_cons, hstep, Option.bind_some, hrun]
      · rw [hbits', hintervals]
      · rw [hintervals, shifted, hstep, if_neg hno]
        simpa using hsum

/-! ### The result -/

/-- The rise that confirms a start bit. -/
structure Accepts (r r0 : Receiver) : Prop where
  before : r.startBitBegin = false
  rise : intHandler true r = some r0
  start : r0.startBitBegin = true

theorem Accepts.inData {r r0 : Receiver} (h : Accepts r r0) (hr : Timed r) :
    InData r0 ∧ r0.perTimer.count = 0 ∧ r0.bitCount = 0 := by
  have hrise := h.rise
  refine ⟨⟨h.start, (intHandler_timed hr hrise).start h.start⟩, ?_⟩
  unfold intHandler at hrise
  rw [if_neg (by simp), if_pos ⟨h.before, rfl⟩] at hrise
  dsimp only at hrise
  split at hrise
  · cases hrise
    exact ⟨rfl, rfl⟩
  · cases hrise
    exact absurd (h.before.symm.trans h.start) (by decide)

theorem paketTrigger_callback (top : TopByte) (gg : PaketQueueElement) :
    paketTrigger (paketStore top gg) = .callback ↔ gg.bitCnt = 32 ∨ gg.bitCnt = 33 := by
  have htype : (paketStore top gg).type =
      if gg.bitCnt > 40 then .block24
      else if gg.bitCnt = 32 ∨ gg.bitCnt = 33 then .block16
      else if gg.bitCnt = 17 ∨ gg.bitCnt = 16 ∨ gg.bitCnt < 32 then .block8 else .blockErr := by
    simp only [paketStore, paketClassify]
    by_cases h40 : gg.bitCnt > 40
    · simp [h40]
    by_cases h32 : gg.bitCnt = 32 ∨ gg.bitCnt = 33
    · simp [h40, h32]
    by_cases h17 : gg.bitCnt = 17 ∨ gg.bitCnt = 16
    · simp [h40, h32, h17, ← or_assoc]
    · by_cases h : gg.bitCnt < 32 <;> simp [h40, h32, h17, h]
  have hlow : gg.bitCnt = 32 ∨ gg.bitCnt = 33 → ¬gg.bitCnt > 40 := by
    rintro (h | h) <;> rw [h] <;> decide
  rw [paketTrigger, htype]
  by_cases h32 : gg.bitCnt = 32 ∨ gg.bitCnt = 33
  · simp [hlow h32, h32]
  · by_cases h40 : gg.bitCnt > 40
    · simp [h40, h32]
    · by_cases h8 : gg.bitCnt = 17 ∨ gg.bitCnt = 16 ∨ gg.bitCnt < 32 <;> simp [h40, h32, h8]

/-- A frame that is taken for one of 16 bits, or for one of 8, has that number of bits if and only
if the long intervals that begin in the middle of a bit are as many as the half bits that the
counter lost by wrapping, halved.  A frame of at most 255 half bits has no such interval then. -/
theorem frame_bits_iff (top : TopByte) {r r0 : Receiver} {es : List Edge} (hr : Timed r)
    (hstart : Accepts r r0) (hes : Runs.Meets edgeStep BeforeAlarm r0 es) :
    (∀ r1, receive r0 es = some r1 →
      (paketTrigger (paketStore top (alarmElement r1)) = .callback → shifted r0 es = 16) ∧
        ((alarmElement r1).bitCnt = 16 ∨ (alarmElement r1).bitCnt = 17 → shifted r0 es = 8)) ↔
      (halfBits (intervals 0 es) % 256 ∈ [16, 17, 32, 33] →
        straddles 0 (intervals 0 es) = 128 * (halfBits (intervals 0 es) / 256)) := by
  obtain ⟨hdata, hcount, hbits⟩ := hstart.inData hr
  obtain ⟨r1, hrun, hbits1, hsum⟩ := receive_inData hdata hes 0 hbits
  rw [hcount] at hbits1 hsum
  generalize halfBits (intervals 0 es) = T at *
  have hcnt : ∀ n, n < 256 → ((alarmElement r1).bitCnt = UInt8.ofNat n ↔ T % 256 = n) := by
    intro n hn
    rw [alarmElement, hbits1, ← UInt8.toNat_inj, UInt8.toNat_ofNat', UInt8.toNat_ofNat',
      Nat.mod_eq_of_lt (show n < 2 ^ 8 from hn), Nat.zero_add]
  have h16 := hcnt 16 (by decide)
  have h17 := hcnt 17 (by decide)
  have h32 := hcnt 32 (by decide)
  have h33 := hcnt 33 (by decide)
  have hdet : ∀ r2, receive r0 es = some r2 → r2 = r1 :=
    fun r2 h => Option.some.inj (h.symm.trans hrun)
  simp only [List.mem_cons, List.not_mem_nil, or_false]
  constructor
  · intro h hT
    obtain ⟨hcall, hback⟩ := h r1 hrun
    rw [paketTrigger_callback] at hcall
    rcases hT with hT | hT | hT | hT
    · have := hback (Or.inl (h16.mpr hT))
      omega
    · have := hback (Or.inr (h17.mpr hT))
      omega
    · have := hcall (Or.inl (h32.mpr hT))
      omega
    · have := hcall (Or.inr (h33.mpr hT))
      omega
  · intro h r2 hr2
    obtain rfl := hdet r2 hr2
    rw [paketTrigger_callback]
    constructor
    · intro hcall
      have hT : T % 256 = 32 ∨ T % 256 = 33 := hcall.imp h32.mp h33.mp
      have := h (by omega)
      omega
    · intro hback
      have hT : T % 256 = 16 ∨ T % 256 = 17 := hback.imp h16.mp h17.mp
      have := h (by omega)
      omega

/-- The middle of a start bit after 3 ms of rest, and the receiver once it is confirmed. -/
def startMiddle : Receiver := ⟨false, 0, 0, false, ⟨true, 416⟩, ⟨true, 416⟩, []⟩

def startEnd : Receiver := ⟨true, 0, 0, false, ⟨true, 0⟩, ⟨true, 416⟩, []⟩

theorem startMiddle_timed : Timed startMiddle := by
  refine ⟨fun _ => by decide, fun h => ?_, fun h => ?_, fun _ => le_rfl⟩
  · cases h
  · cases h

theorem accepts_startEnd : Accepts startMiddle startEnd := ⟨rfl, by decide +kernel, rfl⟩

/-- Eight bits of the value 1, half bit by half bit. -/
def eightBits : List Edge := (List.range 16).map fun i => ⟨416, decide (i % 2 = 1)⟩

theorem frame_bits_eightBits : ∃ r1, receive startEnd eightBits = some r1 ∧
    (paketTrigger (paketStore nibbleTop (alarmElement r1)) = .callback →
      shifted startEnd eightBits = 16) ∧
    ((alarmElement r1).bitCnt = 16 ∨ (alarmElement r1).bitCnt = 17 →
      shifted startEnd eightBits = 8) := by
  have hreceived : (receive startEnd eightBits).isSome = true := by decide +kernel
  obtain ⟨r1, hr1⟩ := Option.isSome_iff_exists.mp hreceived
  have hbits := (frame_bits_iff nibbleTop startMiddle_timed accepts_startEnd
    (by decide +kernel)).mpr (by decide +kernel) r1 hr1
  exact ⟨r1, hr1, hbits⟩

/-- A short interval, 15 long ones that begin in the middle of a bit, and a short one. -/
def crooked : List Edge :=
  (List.range 17).map fun i => ⟨if i = 0 ∨ i = 16 then 416 else 832, decide (i % 2 = 1)⟩

theorem crooked_taken :
    (receive idleReceiver [⟨3000, false⟩]).map (elapse 416) = some startMiddle ∧
      Accepts startMiddle startEnd ∧ Runs.Meets edgeStep BeforeAlarm startEnd crooked ∧
        ∃ r1, receive startEnd crooked = some r1 ∧
          paketTrigger (paketStore nibbleTop (alarmElement r1)) = .callback ∧
            shifted startEnd crooked = 1 := by
  refine ⟨by decide +kernel, accepts_startEnd, by decide +kernel, ?_⟩
  have hrun : ∃ r1 ∈ receive startEnd crooked,
      paketTrigger (paketStore nibbleTop (alarmElement r1)) = .callback := by
    decide +kernel
  obtain ⟨r1, hr1, hcall⟩ := hrun
  exact ⟨r1, hr1, hcall, by decide +kernel⟩

end DaliController.Dali
