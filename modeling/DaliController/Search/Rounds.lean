import DaliController.Lib.Ranks
import DaliController.Search.Frames
import DaliController.Search.MinSearch

/-! One round of automatic addressing on a bus without noise.  It begins with the device with the
smallest random address not yet withdrawn and goes on to its neighbours, but the step up from the
number below the smallest one does not carry out of the low byte. -/

namespace DaliController.Search

open Dali Ranks Frame

variable {P : Population} (cast : UInt8 → Backword)

/-- Short addresses were given to the devices below `t`, in the order of their random addresses. -/
structure Assigned (P : Population) (t : Nat) (w : World Net) : Prop where
  withdrawn : ∀ a ∈ P.devices, w.bus.withdrawn a = decide (a < t)
  short : ∀ a ∈ P.devices, a < t → w.bus.short a = some (UInt8.ofNat (rank P.devices a))
  slots : ∀ k < 64, 64 < (w.gear k).shortAddr ↔ rank P.devices t ≤ k

theorem Assigned.load {t : Nat} {w : World Net} (h : Assigned P t w) (r : Hml) :
    Assigned P t (w.load r) :=
  ⟨h.withdrawn, h.short, h.slots⟩

@[simp] theorem search_load (w : World Net) (r : Hml) : (w.load r).bus.search = r.addr := rfl

/-- A comparison is answered by the devices from `t` on. -/
theorem Assigned.answered {t : Nat} {w : World Net} (h : Assigned P t w) (r : Hml) :
    Answered P w r ↔ ∃ a ∈ P.devices, t ≤ a ∧ a ≤ r.addr := by
  constructor
  · rintro ⟨a, ha, hactive, hle⟩
    have hw : w.bus.withdrawn a = false := hactive
    rw [h.withdrawn a ha, decide_eq_false_iff_not] at hw
    exact ⟨a, ha, by omega, hle⟩
  · rintro ⟨a, ha, hta, hle⟩
    refine ⟨a, ha, ?_, hle⟩
    have hw : w.bus.withdrawn a = false := by
      rw [h.withdrawn a ha, decide_eq_false_iff_not]
      omega
    exact hw

theorem Assigned.answeredFrom {t a : Nat} {w : World Net} (h : Assigned P t w)
    (ha : Next P.devices t a) : AnsweredFrom P w a := by
  intro r
  rw [h.answered]
  constructor
  · rintro ⟨b, hb, htb, hle⟩
    have := ha.least b hb htb
    omega
  · intro hle
    exact ⟨a, ha.mem, ha.le, hle⟩

/-! ### One assignment -/

theorem findAddr_of_slots {gear : Nat → Gear} {c : Nat} (hc : c < 64)
    (hslots : ∀ k < 64, 64 < (gear k).shortAddr ↔ c ≤ k) : findAddr gear = UInt8.ofNat c := by
  have hfind : ((List.range 64).find? fun i => decide (64 < (gear i).shortAddr)) = some c := by
    rw [List.find?_range_eq_some]
    refine ⟨decide_eq_true ((hslots c hc).mpr le_rfl), List.mem_range.mpr hc, ?_⟩
    intro k hk
    simp only [Bool.not_eq_true', decide_eq_false_iff_not]
    rw [hslots k (by omega)]
    omega
  rw [findAddr, hfind]

/-- The device at the search address gets the short address `k`. -/
def Net.program (n : Net) (k : UInt8) : Net :=
  { n with short := fun a => if a = n.search then some k else n.short a }

def Net.withdraw (n : Net) : Net :=
  { n with withdrawn := fun a => n.withdrawn a || decide (a = n.search) }

theorem program_program (n : Net) (k : UInt8) : (n.program k).program k = n.program k := by
  simp only [Net.program, Net.search]
  congr 1
  funext a
  by_cases h : a = addressOf n.high n.mid n.low <;> simp [h]

theorem atamaVeKontrol_run {w : World Net} {k : UInt8} (hk : k.toNat < 64)
    (h : w.bus.search ∈ P.devices) :
    (atamaVeKontrol (netOps P cast) (k <<< 1 ||| 1)).run w =
      pure (.yes, { w with bus := w.bus.program k }) := by
  have hsend : ∀ n : Net, netSend (specialCommand 0x0B (k <<< 1 ||| 1)) n = n.program k := by
    intro n
    rw [netSend_program, short_of_ats hk]
    rfl
  have hholds : (w.bus.program k).Holds P k := by
    refine ⟨_, h, ?_⟩
    simp [Net.program]
  have hsend' : (netOps P cast).send = netSend := rfl
  simp only [atamaVeKontrol, StateT.run_bind, send_run, pure_bind, hsend', hsend, program_program]
  rw [sendReceive_run _ _ _ (netSend_verify _ _), netReply_verify, short_of_ats hk, if_pos hholds]
  simp [backward]

theorem atamaYap_run {w : World Net} {c : Nat} (h : w.bus.search ∈ P.devices) (hc : c < 64)
    (hslots : ∀ k < 64, 64 < (w.gear k).shortAddr ↔ c ≤ k) :
    (atamaYap (netOps P cast)).run w = pure (0xFF,
      { bus := (w.bus.program (UInt8.ofNat c)).withdraw
        gear := Function.update w.gear c ⟨UInt8.ofNat c, 0x06, 0⟩
        init := w.init ++ [UInt8.ofNat c]
        retry := w.retry }) := by
  have haddr := findAddr_of_slots hc hslots
  have hle : ¬64 < UInt8.ofNat c := by
    rw [UInt8.lt_ofNat_iff (show c < 256 by omega)]
    simp only [UInt8.reduceToNat]
    omega
  have hkontrol := atamaVeKontrol_run cast (k := UInt8.ofNat c)
    (by rw [UInt8.toNat_ofNat_of_lt' (show c < 256 by omega)]; exact hc) h
  have hget : (get : StateM (World Net) (World Net)).run w = pure (w, w) := rfl
  simp only [atamaYap, atamaTekrar, StateT.run_bind, hget, pure_bind, haddr, if_neg hle, hkontrol]
  simp only [ne_eq, not_true_eq_false, if_false, StateT.run_pure, pure_bind, if_true, atamaTamam,
    StateT.run_bind, send_run, UInt8.toNat_ofNat_of_lt' (show c < 256 by omega)]
  rfl

theorem atamaYap_assigned {t a : Nat} {w : World Net} (h : Assigned P t w)
    (ha : Next P.devices t a) (hsearch : w.bus.search = a) (hcard : P.devices.card ≤ 64) :
    ∃ w', (atamaYap (netOps P cast)).run w = pure (0xFF, w') ∧ Assigned P (a + 1) w' := by
  have hrank := ha.rank_eq
  have hlt := rank_lt_card ha.mem
  have hrun := atamaYap_run cast (hsearch ▸ ha.mem) (by omega) h.slots
  refine ⟨_, hrun, ?_, ?_, ?_⟩
  · intro b hb
    have hw := h.withdrawn b hb
    have hleast := ha.least b hb
    have hle := ha.le
    have hsearch' : (w.bus.program (UInt8.ofNat (rank P.devices t))).search = a := hsearch
    simp only [Net.withdraw, hsearch']
    rw [show (w.bus.program (UInt8.ofNat (rank P.devices t))).withdrawn b = decide (b < t) from hw,
      ← Bool.decide_or, decide_eq_decide]
    omega
  · intro b hb hba
    simp only [Net.withdraw, Net.program, hsearch]
    by_cases hb' : b = a
    · rw [if_pos hb', hb', hrank]
    · have hleast := ha.least b hb
      rw [if_neg hb']
      exact h.short b hb (by omega)
  · intro k hk
    dsimp only
    have hsucc := rank_succ_of_mem ha.mem
    by_cases hkc : k = rank P.devices t
    · subst hkc
      rw [Function.update_self, UInt8.lt_ofNat_iff (show rank P.devices t < 256 by omega)]
      simp only [UInt8.reduceToNat]
      omega
    · rw [Function.update_of_ne hkc, h.slots k hk]
      omega

/-! ### The neighbours -/

theorem sonraki_addr (r : Hml) : r.sonraki.addr =
    if (r.addr + 1) % 65536 = 0 then r.addr + 1 - 65536 else r.addr + 1 := by
  have h := r.h.toNat_lt
  have m := r.m.toNat_lt
  have l := r.l.toNat_lt
  unfold Hml.sonraki Hml.addr addressOf
  by_cases hl : r.l = 0xFF
  · rw [if_pos hl, hl]
    simp only [UInt8.toNat_add, UInt8.reduceToNat]
    split <;> omega
  · have hl' : r.l.toNat ≠ 255 := fun h => hl (UInt8.toNat_inj.mp h)
    rw [if_neg hl]
    simp only [UInt8.toNat_add, UInt8.reduceToNat]
    split <;> omega

/-- The device at `a` is a neighbour that `SonrakiniATA` reaches from the address before it. -/
def Reached (P : Population) (a : Nat) : Prop := a ∈ P.devices ∧ a % 65536 ≠ 0

theorem sonrakiniAta_reached {a : Nat} {w : World Net} {r : Hml} (h : Assigned P (a + 1) w)
    (hr : r.addr = a) (hreached : Reached P (a + 1)) (hcard : P.devices.card ≤ 64) :
    ∃ w' r', (sonrakiniAta (netOps P cast) r).run w = pure ((0xFF, r'), w') ∧
      Assigned P (a + 2) w' ∧ r'.addr = a + 1 := by
  have haddr : r.sonraki.addr = a + 1 := by
    rw [sonraki_addr, hr, if_neg hreached.2]
  have hans : Answered P w r.sonraki := by
    rw [h.answered]
    exact ⟨a + 1, hreached.1, le_rfl, haddr.ge⟩
  obtain ⟨w', hrun, hw'⟩ := atamaYap_assigned cast (h.load r.sonraki)
    (Next.of_mem hreached.1) (by rw [search_load, haddr]) hcard
  refine ⟨w', r.sonraki, ?_, hw', haddr⟩
  simp only [sonrakiniAta, StateT.run_bind, compareAll_run, pure_bind]
  rw [if_pos ((answer_eq_yes _).mpr hans), StateT.run_bind, hrun]
  rfl

theorem sonrakiniAta_other {a : Nat} {w : World Net} {r : Hml} (h : Assigned P (a + 1) w)
    (hr : r.addr = a) (hreached : ¬Reached P (a + 1)) :
    ∃ w' r', (sonrakiniAta (netOps P cast) r).run w = pure ((0x00, r'), w') ∧
      Assigned P (a + 1) w' := by
  have hans : ¬Answered P w r.sonraki := by
    rw [h.answered, sonraki_addr, hr]
    rintro ⟨b, hb, hab, hba⟩
    split at hba
    · omega
    · rename_i hmod
      obtain rfl : b = a + 1 := by omega
      exact hreached ⟨hb, hmod⟩
  refine ⟨w.load r.sonraki, r.sonraki, ?_, h.load _⟩
  simp only [sonrakiniAta, StateT.run_bind, compareAll_run, pure_bind]
  rw [if_neg (by rw [answer_eq_yes]; exact hans)]
  rfl

/-- The next `i` addresses from `a` on are assigned: all but the first were reached as neighbours,
and the one after them is not reached, if there are fewer than four. -/
structure Chain (P : Population) (a i : Nat) : Prop where
  pos : 1 ≤ i
  le : i ≤ 4
  reached : ∀ j, 1 ≤ j → j < i → Reached P (a + j)
  ended : i = 4 ∨ ¬Reached P (a + i)

theorem komsular_run {a : Nat} {w : World Net} {r : Hml} (h : Assigned P (a + 1) w)
    (hr : r.addr = a) (hcard : P.devices.card ≤ 64) :
    ∃ w' i, (komsular (netOps P cast) r).run w = pure ((), w') ∧ Assigned P (a + i) w' ∧
      Chain P a i := by
  by_cases h1 : Reached P (a + 1)
  swap
  · obtain ⟨w1, r1, hrun1, hw1⟩ := sonrakiniAta_other cast h hr h1
    refine ⟨w1, 1, ?_, hw1, ⟨le_rfl, by omega, fun j _ _ => by omega, Or.inr h1⟩⟩
    simp only [komsular, StateT.run_bind, hrun1, pure_bind]
    rfl
  obtain ⟨w1, r1, hrun1, hw1, hr1⟩ := sonrakiniAta_reached cast h hr h1 hcard
  by_cases h2 : Reached P (a + 2)
  swap
  · obtain ⟨w2, r2, hrun2, hw2⟩ := sonrakiniAta_other cast hw1 hr1 h2
    refine ⟨w2, 2, ?_, hw2, ⟨by omega, by omega, fun j hj hj' => ?_, Or.inr h2⟩⟩
    · simp only [komsular, StateT.run_bind, hrun1, pure_bind, if_true, hrun2]
      rfl
    · rwa [show j = 1 by omega]
  obtain ⟨w2, r2, hrun2, hw2, hr2⟩ := sonrakiniAta_reached cast hw1 hr1 h2 hcard
  have hreached : ∀ j, 1 ≤ j → j < 3 → Reached P (a + j) := by
    intro j hj hj'
    by_cases hj1 : j = 1
    · rwa [hj1]
    · rwa [show j = 2 by omega]
  by_cases h3 : Reached P (a + 3)
  · obtain ⟨w3, r3, hrun3, hw3, -⟩ := sonrakiniAta_reached cast hw2 hr2 h3 hcard
    refine ⟨w3, 4, ?_, hw3, ⟨by omega, le_rfl, fun j hj hj' => ?_, Or.inl rfl⟩⟩
    · simp only [komsular, StateT.run_bind, hrun1, pure_bind, if_true, hrun2, hrun3]
      rfl
    · by_cases hj3 : j = 3
      · rwa [hj3]
      · exact hreached j hj (by omega)
  · obtain ⟨w3, r3, hrun3, hw3⟩ := sonrakiniAta_other cast hw2 hr2 h3
    refine ⟨w3, 3, ?_, hw3, ⟨by omega, by omega, hreached, Or.inr h3⟩⟩
    simp only [komsular, StateT.run_bind, hrun1, pure_bind, if_true, hrun2, hrun3]
    rfl

/-! ### One round -/

theorem araRound_done {t : Nat} {w : World Net} (h : Assigned P t w)
    (hdone : ∀ a ∈ P.devices, a < t) :
    ∃ w', (araRound (netOps P cast)).run w = pure (false, w') ∧ Assigned P t w' := by
  have hans : ¬Answered P w ⟨0xFF, 0xFF, 0xFF⟩ := by
    rw [h.answered]
    rintro ⟨a, ha, hta, -⟩
    have := hdone a ha
    omega
  refine ⟨_, ?_, h.load ⟨0xFF, 0xFF, 0xFF⟩⟩
  simp only [araRound, StateT.run_bind, compareAll_run, pure_bind]
  rw [if_pos (Or.inl ((answer_eq_no _).mpr hans))]
  simp only [StateT.run_bind, compareAll_run, pure_bind]
  rfl

/-- The step after `find_min_number` does not carry out of the low byte. -/
theorem increment_addr (r : Hml) : Hml.addr { r with l := r.l + 1 } =
    if (r.addr + 1) % 256 = 0 then r.addr + 1 - 256 else r.addr + 1 := by
  have l := r.l.toNat_lt
  unfold Hml.addr addressOf
  rw [UInt8.toNat_add, show (1 : UInt8).toNat = 1 from rfl]
  by_cases h : (r.h.toNat * 65536 + r.m.toNat * 256 + r.l.toNat + 1) % 256 = 0
  · rw [if_pos h]
    dsimp only
    omega
  · rw [if_neg h]
    dsimp only
    omega

/-- The address that a round tries when the smallest one left is `a`. -/
def tried (a : Nat) : Nat := if 0 < a ∧ a % 256 = 0 then a - 256 else a - 1 + 1

theorem araRound_next_of {σ : Type} {ops : BusOps σ} {load : World σ → Hml → World σ}
    {answered : World σ → Hml → Prop} [∀ w r, Decidable (answered w r)]
    (hc : Comparing ops load answered) {w : World σ} {a : Nat}
    (hA : ∀ r, answered w r ↔ a ≤ r.addr) (hlt : a < 2 ^ 24) :
    ∃ r' r : Hml, r.addr = tried a ∧ (araRound ops).run w =
      (araAta ops r).run (load w r') >>= fun p => pure (true, p.2) := by
  have hans : answered w ⟨0xFF, 0xFF, 0xFF⟩ := by
    rw [hA]
    simp only [Hml.addr, addressOf, UInt8.reduceToNat]
    omega
  have hA' : ∀ r, answered (load w ⟨0xFF, 0xFF, 0xFF⟩) r ↔ a ≤ r.addr :=
    fun r => (hc.answered_load _ _ r).trans (hA r)
  obtain ⟨r, r', hrun, hr⟩ := findMinNumber_run_of hc hA' hlt
  refine ⟨r', { r with l := r.l + 1 }, ?_, ?_⟩
  · rw [increment_addr, hr, tried]
    split <;> split <;> omega
  · simp only [araRound, StateT.run_bind, hc.all, pure_bind]
    rw [if_neg (by simp [answer, hans])]
    simp only [StateT.run_bind, hrun, pure_bind, hc.load_load]
    rfl

theorem araRound_next {a : Nat} {w : World Net} (hA : AnsweredFrom P w a) (hlt : a < 2 ^ 24) :
    ∃ r' r : Hml, r.addr = tried a ∧ (araRound (netOps P cast)).run w =
      (araAta (netOps P cast) r).run (w.load r') >>= fun p => pure (true, p.2) :=
  araRound_next_of (comparing_netOps cast) hA hlt

theorem araRound_stuck {t a : Nat} {w : World Net} (h : Assigned P t w) (ha : Next P.devices t a)
    (hpos : 0 < a) (hmod : a % 256 = 0) :
    ∃ w', (araRound (netOps P cast)).run w = pure (true, w') ∧ Assigned P t w' := by
  obtain ⟨r', r, hr, hrun⟩ := araRound_next cast (h.answeredFrom ha) (P.random_lt a ha.mem)
  have hw' := h.load r'
  have hans : ¬Answered P (w.load r') r := by
    rw [hw'.answered, hr, tried, if_pos ⟨hpos, hmod⟩]
    rintro ⟨b, hb, htb, hle⟩
    have := ha.least b hb htb
    omega
  refine ⟨_, ?_, hw'.load r⟩
  rw [hrun]
  simp only [araAta, StateT.run_bind, compareAll_run, pure_bind]
  rw [if_neg (by rw [answer_eq_yes]; exact hans)]
  rfl

theorem araRound_assign {t a : Nat} {w : World Net} (h : Assigned P t w) (ha : Next P.devices t a)
    (hmod : a % 256 ≠ 0) (hcard : P.devices.card ≤ 64) :
    ∃ w' i, (araRound (netOps P cast)).run w = pure (true, w') ∧ Assigned P (a + i) w' ∧
      Chain P a i := by
  obtain ⟨r', r, hr, hrun⟩ := araRound_next cast (h.answeredFrom ha) (P.random_lt a ha.mem)
  have hw' := h.load r'
  have haddr : r.addr = a := by
    rw [hr, tried, if_neg (by omega)]
    omega
  have hans : Answered P (w.load r') r := by
    rw [hw'.answered, haddr]
    exact ⟨a, ha.mem, ha.le, le_rfl⟩
  obtain ⟨w1, hrun1, hw1⟩ := atamaYap_assigned cast (hw'.load r) ha
    (by rw [search_load, haddr]) hcard
  obtain ⟨w2, i, hrun2, hw2, hi⟩ := komsular_run cast hw1 haddr hcard
  refine ⟨w2, i, ?_, hw2, hi⟩
  rw [hrun]
  simp only [araAta, StateT.run_bind, compareAll_run, pure_bind]
  rw [if_pos ((answer_eq_yes _).mpr hans)]
  simp only [StateT.run_bind, hrun1, pure_bind, if_true, hrun2]

end DaliController.Search
