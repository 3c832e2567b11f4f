import DaliController.Search.Rounds

/-! Automatic addressing on a bus without noise.  The search ends with short addresses in the order
of the random ones if and only if no round begins with a device whose low byte is zero: such a
device is reached only as the neighbour of the one before it. -/

namespace DaliController.Search

open Dali Ranks Frame

variable {P : Population} (cast : UInt8 → Backword)

/-! ### The loop -/

/-- Every device from `t` on whose low byte is zero follows its neighbour in one chain. -/
def Aligned (D : Finset Nat) (t : Nat) : Prop :=
  ∀ a ∈ D, t ≤ a → a % 256 = 0 → a % 65536 ≠ 0 ∧ runBefore D a % 4 ≠ 0

/-- A round begins with the first device of a chain. -/
def AtHead (D : Finset Nat) (t : Nat) : Prop :=
  ∀ a, Next D t a → runBefore D a % 4 = 0 ∨ a % 65536 = 0

theorem atHead_zero (D : Finset Nat) : AtHead D 0 := by
  intro a ha
  left
  by_cases h0 : 0 ∈ D
  · have hle := ha.least 0 h0 le_rfl
    obtain rfl : a = 0 := by omega
    rfl
  · rw [ha.runBefore_eq_zero h0]

theorem Chain.runBefore {a i : Nat} (h : Chain P a i) (ha : a ∈ P.devices) {j : Nat} (hj : j ≤ i) :
    runBefore P.devices (a + j) = runBefore P.devices a + j := by
  apply runBefore_add
  intro k hk
  by_cases hk0 : k = 0
  · rwa [hk0]
  · exact (h.reached k (by omega) (by omega)).1

theorem atHead_chain {t a i : Nat} (hhead : AtHead P.devices t) (ha : Next P.devices t a)
    (hmod : a % 256 ≠ 0) (hi : Chain P a i) : AtHead P.devices (a + i) := by
  intro b hb
  by_cases hmem : a + i ∈ P.devices
  · have hle := hb.le
    have hleast := hb.least _ hmem le_rfl
    obtain rfl : b = a + i := by omega
    rcases hi.ended with h4 | hend
    · have hrun := hi.runBefore ha.mem le_rfl
      have ha4 := hhead a ha
      omega
    · right
      by_contra hne
      exact hend ⟨hmem, hne⟩
  · left
    rw [hb.runBefore_eq_zero hmem]

/-- The devices of a chain are aligned, so only those after it matter. -/
theorem aligned_chain {t a i : Nat} (hhead : AtHead P.devices t) (ha : Next P.devices t a)
    (hmod : a % 256 ≠ 0) (hi : Chain P a i) (h : Aligned P.devices (a + i)) :
    Aligned P.devices t := by
  intro b hb htb hb0
  by_cases hlt : a + i ≤ b
  · exact h b hb hlt hb0
  · have hleast := ha.least b hb htb
    obtain ⟨j, rfl⟩ : ∃ j, b = a + j := ⟨b - a, by omega⟩
    have hj : j ≠ 0 := by
      rintro rfl
      exact hmod hb0
    refine ⟨(hi.reached j (by omega) (by omega)).2, ?_⟩
    have hrun := hi.runBefore ha.mem (show j ≤ i by omega)
    have ha4 := hhead a ha
    have hle := hi.le
    omega

theorem araLoop_succ {σ : Type} {ops : BusOps σ} {w w' : World σ} {ara : Bool} (fuel : Nat)
    (hrun : (araRound ops).run w = pure (ara, w')) :
    (araLoop ops (fuel + 1)).run w =
      if ara then (araLoop ops fuel).run w' else pure (true, w') := by
  rw [araLoop, StateT.run_bind, hrun, pure_bind]
  cases ara <;> rfl

theorem araLoop_done {n t : Nat} {w : World Net} (h : Assigned P t w)
    (hhead : AtHead P.devices t) (halign : Aligned P.devices t) (hcard : P.devices.card ≤ 64)
    (hn : P.devices.card - rank P.devices t ≤ n) :
    ∃ w' t', (araLoop (netOps P cast) (n + 1)).run w = pure (true, w') ∧ Assigned P t' w' ∧
      ∀ a ∈ P.devices, a < t' := by
  -- Each round assigns at least one device, so the number of devices left goes down.
  induction n generalizing t w with
  | zero =>
    have hdone : ∀ a ∈ P.devices, a < t := by
      rcases next_cases P.devices t with hdone | ⟨a, ha⟩
      · exact hdone
      · have hlt := rank_lt_card ha.mem
        have hrank := ha.rank_eq
        omega
    obtain ⟨w', hrun, hw'⟩ := araRound_done cast h hdone
    exact ⟨w', t, araLoop_succ 0 hrun, hw', hdone⟩
  | succ n ih =>
    rcases next_cases P.devices t with hdone | ⟨a, ha⟩
    · obtain ⟨w', hrun, hw'⟩ := araRound_done cast h hdone
      exact ⟨w', t, araLoop_succ (n + 1) hrun, hw', hdone⟩
    · have hmod : a % 256 ≠ 0 := by
        intro h0
        have hok := halign a ha.mem ha.le h0
        have hhd := hhead a ha
        omega
      obtain ⟨w1, i, hrun1, hw1, hi⟩ := araRound_assign cast h ha hmod hcard
      have hpos := hi.pos
      have hle := ha.le
      have hlt := rank_lt_card ha.mem
      have hrank := ha.rank_eq
      have hsucc := rank_succ_of_mem ha.mem
      have hmono : rank P.devices (a + 1) ≤ rank P.devices (a + i) := rank_mono (by omega)
      have halign' : Aligned P.devices (a + i) :=
        fun b hb hib => halign b hb (by omega)
      obtain ⟨w', t', hrun, hw', hdone⟩ :=
        ih hw1 (atHead_chain hhead ha hmod hi) halign' (by omega)
      exact ⟨w', t', by rw [araLoop_succ (n + 1) hrun1, if_pos rfl, hrun], hw', hdone⟩

/-- A loop whose rounds all keep an invariant and ask for another round does not end. -/
theorem araLoop_never {σ : Type} {ops : BusOps σ} {I : World σ → Prop}
    (hround : ∀ w, I w → ∃ w', (araRound ops).run w = pure (true, w') ∧ I w')
    {w : World σ} (hw : I w) (fuel : Nat) :
    ∃ w', (araLoop ops fuel).run w = pure (false, w') := by
  induction fuel generalizing w with
  | zero => exact ⟨w, rfl⟩
  | succ fuel ih =>
    obtain ⟨w1, hrun1, hw1⟩ := hround w hw
    obtain ⟨w', hrun⟩ := ih hw1
    exact ⟨w', by rw [araLoop_succ fuel hrun1, if_pos rfl, hrun]⟩

theorem araRound_misaligned (hcard : P.devices.card ≤ 64) (h0 : 0 ∉ P.devices) (w : World Net)
    (h : ∃ t, Assigned P t w ∧ AtHead P.devices t ∧ ¬Aligned P.devices t) :
    ∃ w', (araRound (netOps P cast)).run w = pure (true, w') ∧
      ∃ t, Assigned P t w' ∧ AtHead P.devices t ∧ ¬Aligned P.devices t := by
  obtain ⟨t, hw, hhead, halign⟩ := h
  rcases next_cases P.devices t with hdone | ⟨a, ha⟩
  · refine absurd (fun a ha hta => ?_) halign
    have := hdone a ha
    omega
  · by_cases hmod : a % 256 = 0
    · have hpos : 0 < a := by
        rcases Nat.eq_zero_or_pos a with rfl | hpos
        · exact absurd ha.mem h0
        · exact hpos
      obtain ⟨w', hrun, hw'⟩ := araRound_stuck cast hw ha hpos hmod
      exact ⟨w', hrun, t, hw', hhead, halign⟩
    · obtain ⟨w', i, hrun, hw', hi⟩ := araRound_assign cast hw ha hmod hcard
      refine ⟨w', hrun, a + i, hw', atHead_chain hhead ha hmod hi, ?_⟩
      exact fun h => halign (aligned_chain hhead ha hmod hi h)

/-! ### A device with random address zero

The address above the number found is then 1, so that device is never programmed or withdrawn. -/

section Zero

variable {σ : Type} {ops : BusOps σ} {load : World σ → Hml → World σ}
  {answered : World σ → Hml → Prop} [∀ w r, Decidable (answered w r)]

/-- While `I` holds every comparison is answered, and an assignment at another address than zero
keeps `I`. -/
structure Stays (ops : BusOps σ) (load : World σ → Hml → World σ) (answered : World σ → Hml → Prop)
    (I : World σ → Prop) : Prop where
  loads : ∀ w r, I w → I (load w r)
  answers : ∀ w r, I w → answered w r
  assign : ∀ w r, I w → r.addr ≠ 0 →
    ∃ ret w', (atamaYap ops).run (load w r) = pure (ret, w') ∧ I w'

variable {I : World σ → Prop}

theorem sonrakiniAta_stays (hc : Comparing ops load answered) (hI : Stays ops load answered I)
    {w : World σ} {r : Hml} (hr : r.addr < 65535) (h : I w) :
    ∃ ret w', (sonrakiniAta ops r).run w = pure ((ret, r.sonraki), w') ∧ I w' ∧
      r.sonraki.addr = r.addr + 1 := by
  have haddr : r.sonraki.addr = r.addr + 1 := by
    rw [sonraki_addr, if_neg (by omega)]
  obtain ⟨ret, w', hrun, hw'⟩ := hI.assign w r.sonraki h (by omega)
  refine ⟨ret, w', ?_, hw', haddr⟩
  simp only [sonrakiniAta, StateT.run_bind, hc.all, pure_bind]
  rw [if_pos ((answer_eq_yes _).mpr (hI.answers w _ h)), StateT.run_bind, hrun]
  rfl

theorem komsular_stays (hc : Comparing ops load answered) (hI : Stays ops load answered I)
    {w : World σ} {r : Hml} (hr : r.addr = 1) (h : I w) :
    ∃ w', (komsular ops r).run w = pure ((), w') ∧ I w' := by
  obtain ⟨ret1, w1, hrun1, hw1, hr1⟩ := sonrakiniAta_stays hc hI (r := r) (by omega) h
  obtain ⟨ret2, w2, hrun2, hw2, hr2⟩ := sonrakiniAta_stays hc hI (r := r.sonraki) (by omega) hw1
  obtain ⟨ret3, w3, hrun3, hw3, -⟩ :=
    sonrakiniAta_stays hc hI (r := r.sonraki.sonraki) (by omega) hw2
  simp only [komsular, StateT.run_bind, hrun1, pure_bind]
  by_cases h1 : ret1 = 0xFF
  swap
  · rw [if_neg h1]
    exact ⟨w1, rfl, hw1⟩
  rw [if_pos h1, StateT.run_bind, hrun2, pure_bind]
  by_cases h2 : ret2 = 0xFF
  swap
  · rw [if_neg h2]
    exact ⟨w2, rfl, hw2⟩
  rw [if_pos h2]
  simp only [StateT.run_bind, hrun3, pure_bind]
  exact ⟨w3, rfl, hw3⟩

theorem araRound_stays (hc : Comparing ops load answered) (hI : Stays ops load answered I)
    (w : World σ) (h : I w) :
    ∃ w', (araRound ops).run w = pure (true, w') ∧ I w' := by
  have hfrom : ∀ r : Hml, answered w r ↔ 0 ≤ r.addr :=
    fun r => ⟨fun _ => Nat.zero_le _, fun _ => hI.answers w r h⟩
  obtain ⟨r', r, hr, hrun⟩ := araRound_next_of hc hfrom (by omega)
  have hr1 : r.addr = 1 := hr
  have hans : answered (load w r') r := hI.answers _ r (hI.loads w r' h)
  obtain ⟨ret, w1, hrun1, hw1⟩ := hI.assign w r h (by omega)
  obtain ⟨w2, hrun2, hw2⟩ := komsular_stays hc hI hr1 hw1
  rw [hrun]
  simp only [araAta, StateT.run_bind, hc.all, pure_bind, hc.load_load]
  rw [if_pos ((answer_eq_yes _).mpr hans)]
  simp only [StateT.run_bind, hrun1, pure_bind]
  by_cases hret : ret = 0xFF
  · rw [if_pos hret, hrun2]
    exact ⟨w2, rfl, hw2⟩
  · rw [if_neg hret]
    exact ⟨w1, rfl, hw1⟩

end Zero

/-- Unless it is the search address, the device at zero stays as it is. -/
def SparesZero (w w' : World Net) : Prop :=
  w.bus.search ≠ 0 → w'.bus.search ≠ 0 ∧ w'.bus.withdrawn 0 = w.bus.withdrawn 0

instance : IsPreorder (World Net) SparesZero where
  refl _ h := ⟨h, rfl⟩
  trans _ _ _ h1 h2 h :=
    ⟨(h2 (h1 h).1).1, (h2 (h1 h).1).2.trans (h1 h).2⟩

theorem allowsAssign_sparesZero : AllowsAssign (netOps P cast) SparesZero where
  program _ := keeps_modify fun _ h => ⟨h, rfl⟩
  verify _ := keeps_modifyGet fun _ h => ⟨h, rfl⟩
  tamam abc := by
    refine keeps_bind (keeps_modify fun _ h => ⟨h, rfl⟩) fun _ => keeps_bind ?_ fun _ =>
      keeps_pure _
    refine keeps_modify fun w h => ⟨h, ?_⟩
    have hne : 0 ≠ w.bus.search := h.symm
    simp [netOps, hne]

theorem stays_zero (h0 : 0 ∈ P.devices) :
    Stays (netOps P cast) World.load (Answered P) fun w => w.bus.withdrawn 0 = false where
  loads _ _ h := h
  answers _ _ h := ⟨0, h0, h, Nat.zero_le _⟩
  assign w r h hr := by
    have hkeeps := keeps_atamaYap (allowsAssign_sparesZero cast (P := P)) (w.load r) hr
    exact ⟨_, _, rfl, hkeeps.2.trans h⟩

/-! ### The result -/

/-- No device has a short address, and no slot is taken. -/
structure Unaddressed (P : Population) (w : World Net) : Prop where
  short : ∀ a ∈ P.devices, w.bus.short a = none
  free : AllFree w.gear

/-- The devices hold the short addresses from zero on in the order of their random addresses, and
exactly these slots are taken. -/
structure Addressed (P : Population) (w : World Net) : Prop where
  held : ∀ a ∈ P.devices, ∃ k < P.devices.card, w.bus.short a = some (UInt8.ofNat k)
  onto : ∀ k < P.devices.card, ∃ a ∈ P.devices, w.bus.short a = some (UInt8.ofNat k)
  increasing : ∀ a ∈ P.devices, ∀ b ∈ P.devices, a < b → ∀ k l, w.bus.short a = some k →
    w.bus.short b = some l → k < l
  slots : ∀ k < 64, (w.gear k).shortAddr ≤ 64 ↔ k < P.devices.card

theorem Assigned.addressed {t : Nat} {w : World Net} (h : Assigned P t w)
    (hdone : ∀ a ∈ P.devices, a < t) (hcard : P.devices.card ≤ 64) : Addressed P w where
  held a ha := ⟨rank P.devices a, rank_lt_card ha, h.short a ha (hdone a ha)⟩
  onto k hk := by
    obtain ⟨a, ha, rfl⟩ := exists_rank_eq hk
    exact ⟨a, ha, h.short a ha (hdone a ha)⟩
  increasing a ha b hb hab k l hk hl := by
    have hlt := rank_lt_of_mem ha hab
    have hb' := rank_lt_card hb
    rw [h.short a ha (hdone a ha), Option.some_inj] at hk
    rw [h.short b hb (hdone b hb), Option.some_inj] at hl
    rw [← hk, ← hl, UInt8.lt_ofNat_iff (show rank P.devices b < 256 by omega),
      UInt8.toNat_ofNat_of_lt' (show rank P.devices a < 256 by omega)]
    exact hlt
  slots k hk := by
    have hslot := h.slots k hk
    rw [rank_eq_card hdone] at hslot
    rw [← UInt8.not_lt, hslot]
    omega

/-- The search over a bus without noise, to its end. -/
def Ends (P : Population) (cast : UInt8 → Backword) (w : World Net) (fuel : Nat) (w' : World Net) :
    Prop :=
  (searchDevice (netOps P cast) 0x00 fuel).run w = pure (true, w')

/-- After `INITIALISE` and `RANDOMISE` no device is withdrawn. -/
def World.start (w : World Net) : World Net :=
  { w with bus := { w.bus with withdrawn := fun _ => false } }

theorem searchDevice_run (fuel : Nat) (w : World Net) :
    (searchDevice (netOps P cast) 0x00 fuel).run w =
      (araLoop (netOps P cast) fuel).run w.start := by
  have hinit : (searchDevice (netOps P cast) 0x00 fuel).run w =
      (araLoop (netOps P cast) fuel).run w.start >>= fun p =>
        (do
          if p.1 then doubleSend (netOps P cast) (specialCommand 0x00 0x00)
          return p.1 : StateM (World Net) Bool).run p.2 := rfl
  rw [hinit]
  generalize (araLoop (netOps P cast) fuel).run w.start = res
  obtain ⟨bitti, w'⟩ := res
  cases bitti <;> rfl

theorem Unaddressed.assigned {w : World Net} (h : Unaddressed P w) : Assigned P 0 w.start where
  withdrawn a _ := rfl
  short a _ ha := absurd ha (by omega)
  slots k hk := ⟨fun _ => by simp [rank], fun _ => h.free k hk⟩

theorem araLoop_mono {σ : Type} {ops : BusOps σ} {fuel : Nat} (more : Nat) {w w' : World σ}
    (h : (araLoop ops fuel).run w = pure (true, w')) :
    (araLoop ops (fuel + more)).run w = pure (true, w') := by
  induction fuel generalizing w with
  | zero => cases h
  | succ fuel ih =>
    rw [Nat.add_right_comm]
    obtain ⟨ara, w1, hrun⟩ : ∃ ara w1, (araRound ops).run w = pure (ara, w1) :=
      ⟨_, _, rfl⟩
    rw [araLoop_succ _ hrun] at h ⊢
    cases ara with
    | false => exact h
    | true => exact ih h

theorem Ends.unique {w w1 w2 : World Net} {fuel1 fuel2 : Nat} (h1 : Ends P cast w fuel1 w1)
    (h2 : Ends P cast w fuel2 w2) : w1 = w2 := by
  unfold Ends at h1 h2
  rw [searchDevice_run] at h1 h2
  have h1' := araLoop_mono fuel2 h1
  have h2' := araLoop_mono fuel1 h2
  rw [Nat.add_comm fuel2 fuel1, h1'] at h2'
  cases h2'
  rfl

theorem ends_of_aligned (hcard : P.devices.card ≤ 64) {w : World Net} (hw : Unaddressed P w)
    (h : Aligned P.devices 0) : ∃ fuel w', Ends P cast w fuel w' ∧ Addressed P w' := by
  obtain ⟨w', t', hrun, hw', hdone⟩ :=
    araLoop_done cast hw.assigned (atHead_zero _) h hcard (Nat.sub_le _ _)
  refine ⟨P.devices.card + 1, w', ?_, hw'.addressed hdone hcard⟩
  rw [Ends, searchDevice_run, hrun]

theorem not_ends_of_misaligned (hcard : P.devices.card ≤ 64) {w : World Net}
    (hw : Unaddressed P w) (h : ¬Aligned P.devices 0) (fuel : Nat) (w' : World Net) :
    ¬Ends P cast w fuel w' := by
  have hnever : ∃ w', (araLoop (netOps P cast) fuel).run w.start = pure (false, w') := by
    by_cases h0 : 0 ∈ P.devices
    · exact araLoop_never (araRound_stays (comparing_netOps cast) (stays_zero cast h0)) (by rfl)
        fuel
    · exact araLoop_never (araRound_misaligned cast hcard h0)
        ⟨0, hw.assigned, atHead_zero _, h⟩ fuel
  obtain ⟨w1, hrun⟩ := hnever
  rw [Ends, searchDevice_run, hrun]
  intro hend
  cases hend

/-- The search ends, with short addresses from zero on in the order of the random addresses, if and
only if every device whose random address ends in a zero byte comes right after another one, in the
same chain of four and not across a 16-bit boundary. -/
theorem search_device_addresses (P : Population) (cast : UInt8 → Backword)
    (hcard : P.devices.card ≤ 64) {w : World Net} (hw : Unaddressed P w) :
    ((∃ fuel w', Ends P cast w fuel w') ∧ ∀ fuel w', Ends P cast w fuel w' → Addressed P w') ↔
      ∀ a ∈ P.devices, a % 256 = 0 → a % 65536 ≠ 0 ∧ runBefore P.devices a % 4 ≠ 0 := by
  have hzero : Aligned P.devices 0 ↔
      ∀ a ∈ P.devices, a % 256 = 0 → a % 65536 ≠ 0 ∧ runBefore P.devices a % 4 ≠ 0 :=
    ⟨fun h a ha => h a ha (Nat.zero_le a), fun h a ha _ => h a ha⟩
  rw [← hzero]
  constructor
  · rintro ⟨⟨fuel, w', hend⟩, -⟩
    by_contra h
    exact not_ends_of_misaligned cast hcard hw h fuel w' hend
  · intro h
    obtain ⟨fuel, w', hend, hw'⟩ := ends_of_aligned cast hcard hw h
    refine ⟨⟨fuel, w', hend⟩, fun fuel1 w1 hend1 => ?_⟩
    rw [hend1.unique cast hend]
    exact hw'

/-- Devices without short addresses, and an empty `GEAR_FILE`. -/
def freshWorld : World Net where
  bus := ⟨0, 0, 0, fun _ => false, fun _ => none⟩
  gear _ := ⟨200, 0, 0⟩
  init := []
  retry := 0

theorem freshWorld_unaddressed (P : Population) : Unaddressed P freshWorld :=
  ⟨fun _ _ => rfl, fun _ _ => (by decide : (64 : UInt8) < 200)⟩

/-- Two neighbours across a byte boundary. -/
def neighbours : Population := ⟨{0x0000FF, 0x000100}, by decide⟩

theorem search_device_addresses_neighbours :
    (∃ fuel w', Ends neighbours .other freshWorld fuel w') ∧
      ∀ fuel w', Ends neighbours .other freshWorld fuel w' → Addressed neighbours w' :=
  (search_device_addresses neighbours .other (by decide) (freshWorld_unaddressed _)).mpr
    (by decide)

/-- One device whose random address ends in a zero byte. -/
def lonely : Population := ⟨{0x000100}, by decide⟩

theorem search_device_never_ends : lonely.devices.card ≤ 64 ∧ Unaddressed lonely freshWorld ∧
    ∀ fuel w', ¬Ends lonely .other freshWorld fuel w' := by
  refine ⟨by decide, freshWorld_unaddressed _, ?_⟩
  refine not_ends_of_misaligned .other (by decide) (freshWorld_unaddressed _) fun h => ?_
  exact absurd (h 0x000100 (by decide) (by decide) (by decide)).2 (by decide)

end DaliController.Search
