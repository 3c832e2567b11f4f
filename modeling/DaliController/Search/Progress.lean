import DaliController.Search.Lamps
import Mathlib.Logic.Relation

/-! Whether the loop of `Search_Device` makes progress, for any devices and any `GEAR_FILE`.  The
loop ends only on a `COMPARE` of 0xFFFFFF that nobody answers.  A round that locates no device, or
finds no free slot, changes nothing, and the next one repeats it. -/

namespace DaliController.Search

open Dali Ranks Frame

variable (cast : UInt8 → Backword)

/-! ### One round -/

/-- The devices of `P` from `t` on take part, and `s` slots are free. -/
structure Left (P : Population) (t s : Nat) (w : World LampNet) : Prop where
  active : ∀ a, w.bus.Active a ↔ a ∈ P.devices ∧ t ≤ a
  slots : freeSlots w.gear = s

variable {P : Population}

theorem Left.point {t s : Nat} {w : World LampNet} (h : Left P t s w) (r : Hml) :
    Left P t s (w.point r) :=
  ⟨h.active, h.slots⟩

theorem Left.heard {t s : Nat} {w : World LampNet} (h : Left P t s w) (r : Hml) :
    Heard w r ↔ ∃ a ∈ P.devices, t ≤ a ∧ a ≤ r.addr := by
  rw [heard_iff]
  constructor
  · rintro ⟨a, ha, hle⟩
    obtain ⟨hmem, hta⟩ := (h.active a).mp ha
    exact ⟨a, hmem, hta, hle⟩
  · rintro ⟨a, hmem, hta, hle⟩
    exact ⟨a, (h.active a).mpr ⟨hmem, hta⟩, hle⟩

theorem Left.heardFrom {t s a : Nat} {w : World LampNet} (h : Left P t s w)
    (ha : Next P.devices t a) (r : Hml) : Heard w r ↔ a ≤ r.addr := by
  rw [h.heard]
  constructor
  · rintro ⟨b, hb, htb, hle⟩
    have := ha.least b hb htb
    omega
  · intro hle
    exact ⟨a, ha.mem, ha.le, hle⟩

/-- The first device from `t` on is assigned the first free slot. -/
theorem Left.assign {t s a : Nat} {w : World LampNet} (h : Left P t (s + 1) w)
    (ha : Next P.devices t a) (hsearch : w.bus.search.addr = a) :
    ∃ w', (atamaYap (lampOps cast)).run w = pure (0xFF, w') ∧ Left P (a + 1) s w' := by
  have hslots := h.slots
  obtain ⟨w', hrun, hfree, hactive⟩ := atamaYap_lamps cast hsearch
    ((h.active a).mpr ⟨ha.mem, ha.le⟩) (by omega)
  refine ⟨w', hrun, ?_, by omega⟩
  intro b
  rw [hactive, h.active]
  constructor
  · rintro ⟨⟨hb, htb⟩, hne⟩
    have := ha.least b hb htb
    exact ⟨hb, by omega⟩
  · rintro ⟨hb, hle⟩
    have := ha.le
    exact ⟨⟨hb, by omega⟩, by omega⟩

theorem sonrakiniAta_next {a s : Nat} {w : World LampNet} {r : Hml} (h : Left P (a + 1) (s + 1) w)
    (hr : r.addr = a) (hreached : Reached P (a + 1)) :
    ∃ w' r', (sonrakiniAta (lampOps cast) r).run w = pure ((0xFF, r'), w') ∧
      Left P (a + 2) s w' ∧ r'.addr = a + 1 := by
  have haddr : r.sonraki.addr = a + 1 := by
    rw [sonraki_addr, hr, if_neg hreached.2]
  have hans : Heard w r.sonraki := by
    rw [h.heard]
    exact ⟨a + 1, hreached.1, le_rfl, haddr.ge⟩
  obtain ⟨w', hrun, hw'⟩ := (h.point r.sonraki).assign cast (Next.of_mem hreached.1) haddr
  refine ⟨w', r.sonraki, ?_, hw', haddr⟩
  simp only [sonrakiniAta, StateT.run_bind, (comparing_lampOps cast).all, pure_bind]
  rw [if_pos ((answer_eq_yes _).mpr hans), StateT.run_bind, hrun]
  rfl

/-- Without a neighbour or without a free slot `SonrakiniATA` changes nothing. -/
theorem sonrakiniAta_ends {a s : Nat} {w : World LampNet} {r : Hml} (h : Left P (a + 1) s w)
    (hr : r.addr = a) (hend : ¬Reached P (a + 1) ∨ s = 0) :
    ∃ ret w' r', ret ≠ 0xFF ∧ (sonrakiniAta (lampOps cast) r).run w = pure ((ret, r'), w') ∧
      Left P (a + 1) s w' := by
  simp only [sonrakiniAta, StateT.run_bind, (comparing_lampOps cast).all, pure_bind]
  by_cases hans : Heard w r.sonraki
  · have hreached : Reached P (a + 1) := by
      rw [h.heard, sonraki_addr, hr] at hans
      obtain ⟨b, hb, hab, hba⟩ := hans
      split at hba
      · omega
      · rename_i hmod
        obtain rfl : b = a + 1 := by omega
        exact ⟨hb, hmod⟩
    obtain rfl : s = 0 := hend.resolve_left fun hno => hno hreached
    have hfull := atamaYap_full cast (h.point r.sonraki).slots
    refine ⟨0x71, w.point r.sonraki, r.sonraki, by decide, ?_, h.point _⟩
    rw [if_pos ((answer_eq_yes _).mpr hans), StateT.run_bind, hfull]
    rfl
  · refine ⟨0x00, w.point r.sonraki, r.sonraki, by decide, ?_, h.point _⟩
    rw [if_neg (by rw [answer_eq_yes]; exact hans)]
    rfl

/-- The next `i` addresses from `a` on are assigned, all but the first as neighbours, and `s` slots
are left.  If there are fewer than four, no neighbour or no free slot follows. -/
structure Taken (P : Population) (a i s : Nat) : Prop where
  pos : 1 ≤ i
  le : i ≤ 4
  reached : ∀ j, 1 ≤ j → j < i → Reached P (a + j)
  ended : i = 4 ∨ ¬Reached P (a + i) ∨ s = 0

theorem Taken.mem {a i s j : Nat} (h : Taken P a i s) (ha : a ∈ P.devices) (hj : j < i) :
    a + j ∈ P.devices := by
  by_cases hj0 : j = 0
  · rwa [hj0]
  · exact (h.reached j (by omega) hj).1

theorem komsular_left {a s : Nat} {w : World LampNet} {r : Hml} (h : Left P (a + 1) s w)
    (hr : r.addr = a) :
    ∃ w' i s', (komsular (lampOps cast) r).run w = pure ((), w') ∧ Left P (a + i) s' w' ∧
      i + s' = s + 1 ∧ Taken P a i s' := by
  by_cases h1 : ¬Reached P (a + 1) ∨ s = 0
  · obtain ⟨ret, w1, r1, hret, hrun1, hw1⟩ := sonrakiniAta_ends cast h hr h1
    refine ⟨w1, 1, s, ?_, hw1, by omega, le_rfl, by omega, fun j _ _ => by omega, Or.inr h1⟩
    simp only [komsular, StateT.run_bind, hrun1, pure_bind]
    rw [if_neg hret]
    rfl
  obtain ⟨hr1, hs1⟩ := not_or.mp h1
  obtain ⟨s, rfl⟩ := Nat.exists_eq_succ_of_ne_zero hs1
  obtain ⟨w1, r1, hrun1, hw1, haddr1⟩ := sonrakiniAta_next cast h hr (not_not.mp hr1)
  have hreached1 : ∀ j, 1 ≤ j → j < 2 → Reached P (a + j) := by
    intro j hj hj'
    rw [show j = 1 by omega]
    exact not_not.mp hr1
  by_cases h2 : ¬Reached P (a + 2) ∨ s = 0
  · obtain ⟨ret, w2, r2, hret, hrun2, hw2⟩ := sonrakiniAta_ends cast hw1 haddr1 h2
    refine ⟨w2, 2, s, ?_, hw2, by omega, by omega, by omega, hreached1, Or.inr h2⟩
    simp only [komsular, StateT.run_bind, hrun1, pure_bind, if_true, hrun2]
    rw [if_neg hret]
    rfl
  obtain ⟨hr2, hs2⟩ := not_or.mp h2
  obtain ⟨s, rfl⟩ := Nat.exists_eq_succ_of_ne_zero hs2
  obtain ⟨w2, r2, hrun2, hw2, haddr2⟩ := sonrakiniAta_next cast hw1 haddr1 (not_not.mp hr2)
  have hreached2 : ∀ j, 1 ≤ j → j < 3 → Reached P (a + j) := by
    intro j hj hj'
    by_cases hj2 : j = 2
    · rw [hj2]
      exact not_not.mp hr2
    · exact hreached1 j hj (by omega)
  by_cases h3 : ¬Reached P (a + 3) ∨ s = 0
  · obtain ⟨ret, w3, r3, -, hrun3, hw3⟩ := sonrakiniAta_ends cast hw2 haddr2 h3
    refine ⟨w3, 3, s, ?_, hw3, by omega, by omega, by omega, hreached2, Or.inr h3⟩
    simp only [komsular, StateT.run_bind, hrun1, pure_bind, if_true, hrun2, hrun3]
    rfl
  obtain ⟨hr3, hs3⟩ := not_or.mp h3
  obtain ⟨s, rfl⟩ := Nat.exists_eq_succ_of_ne_zero hs3
  obtain ⟨w3, r3, hrun3, hw3, -⟩ := sonrakiniAta_next cast hw2 haddr2 (not_not.mp hr3)
  refine ⟨w3, 4, s, ?_, hw3, by omega, by omega, le_rfl, ?_, Or.inl rfl⟩
  · simp only [komsular, StateT.run_bind, hrun1, pure_bind, if_true, hrun2, hrun3]
    rfl
  · intro j hj hj'
    by_cases hj3 : j = 3
    · rw [hj3]
      exact not_not.mp hr3
    · exact hreached2 j hj (by omega)

/-- When nobody takes part the loop ends. -/
theorem araRound_last {t s : Nat} {w : World LampNet} (h : Left P t s w)
    (hdone : ∀ a ∈ P.devices, a < t) :
    ∃ w', (araRound (lampOps cast)).run w = pure (false, w') := by
  have hans : ¬Heard w ⟨0xFF, 0xFF, 0xFF⟩ := by
    rw [h.heard]
    rintro ⟨a, ha, hta, -⟩
    have := hdone a ha
    omega
  refine ⟨w.point ⟨0xFF, 0xFF, 0xFF⟩, ?_⟩
  simp only [araRound, StateT.run_bind, (comparing_lampOps cast).all, pure_bind]
  rw [if_pos (Or.inl ((answer_eq_no _).mpr hans))]
  simp only [StateT.run_bind, (comparing_lampOps cast).all, pure_bind]
  rfl

/-- A round that locates no device or finds no free slot changes nothing. -/
theorem araRound_idle {t s a : Nat} {w : World LampNet} (h : Left P t s w)
    (ha : Next P.devices t a) (hidle : 0 < a ∧ a % 256 = 0 ∨ 0 < a ∧ s = 0) :
    ∃ w', (araRound (lampOps cast)).run w = pure (true, w') ∧ Left P t s w' := by
  obtain ⟨r', r, hr, hrun⟩ := araRound_next_of (comparing_lampOps cast) (h.heardFrom ha)
    (P.random_lt a ha.mem)
  have hw' := h.point r'
  rw [hrun]
  simp only [araAta, StateT.run_bind, (comparing_lampOps cast).all, pure_bind]
  by_cases hmod : 0 < a ∧ a % 256 = 0
  · have hans : ¬Heard (w.point r') r := by
      rw [hw'.heardFrom ha, hr, tried, if_pos hmod]
      omega
    rw [if_neg (by rw [answer_eq_yes]; exact hans)]
    exact ⟨_, rfl, hw'.point r⟩
  · obtain ⟨hpos, rfl⟩ := hidle.resolve_left hmod
    have hans : Heard (w.point r') r := by
      rw [hw'.heardFrom ha, hr, tried, if_neg hmod]
      omega
    rw [if_pos ((answer_eq_yes _).mpr hans)]
    simp only [StateT.run_bind, atamaYap_full cast (hw'.point r).slots, pure_bind]
    exact ⟨_, rfl, hw'.point r⟩

theorem araRound_takes {t s a : Nat} {w : World LampNet} (h : Left P t (s + 1) w)
    (ha : Next P.devices t a) (hmod : a % 256 ≠ 0) :
    ∃ w' i s', (araRound (lampOps cast)).run w = pure (true, w') ∧ Left P (a + i) s' w' ∧
      i + s' = s + 1 ∧ Taken P a i s' := by
  obtain ⟨r', r, hr, hrun⟩ := araRound_next_of (comparing_lampOps cast) (h.heardFrom ha)
    (P.random_lt a ha.mem)
  have hw' := h.point r'
  have haddr : r.addr = a := by
    rw [hr, tried, if_neg (by omega)]
    omega
  have hans : Heard (w.point r') r := by
    rw [hw'.heardFrom ha, haddr]
  obtain ⟨w1, hrun1, hw1⟩ := (hw'.point r).assign cast ha haddr
  obtain ⟨w2, i, s', hrun2, hw2, hsum, hi⟩ := komsular_left cast hw1 haddr
  refine ⟨w2, i, s', ?_, hw2, hsum, hi⟩
  rw [hrun]
  simp only [araAta, StateT.run_bind, (comparing_lampOps cast).all, pure_bind]
  rw [if_pos ((answer_eq_yes _).mpr hans)]
  simp only [StateT.run_bind, hrun1, pure_bind, if_true, hrun2]

/-! ### The loop -/

/-- A round that another one follows. -/
def GoesOn (cast : UInt8 → Backword) (w w' : World LampNet) : Prop :=
  (araRound (lampOps cast)).run w = pure (true, w')

/-- A device that took part is withdrawn: no device with its random address takes part any more. -/
def Withdraws (w w' : World LampNet) : Prop := ∃ a, w.bus.Active a ∧ ¬w'.bus.Active a

/-- Every round of the loop from `w` on is the last one or withdraws a device. -/
def Progress (cast : UInt8 → Backword) (w : World LampNet) : Prop :=
  ∀ w1 w2, Relation.ReflTransGen (GoesOn cast) w w1 → GoesOn cast w1 w2 → Withdraws w1 w2

/-- The loop from `w` on ends. -/
def LoopEnds (cast : UInt8 → Backword) (w : World LampNet) : Prop :=
  ∃ fuel w', (araLoop (lampOps cast) fuel).run w = pure (true, w')

theorem GoesOn.unique {w w1 w2 : World LampNet} (h1 : GoesOn cast w w1) (h2 : GoesOn cast w w2) :
    w1 = w2 := by
  have h : (true, w1) = (true, w2) := h1.symm.trans h2
  exact (Prod.mk.inj h).2

/-- No device takes part in the loop that did not take part before. -/
def Fewer (w w' : World LampNet) : Prop := ∀ a, w'.bus.Active a → w.bus.Active a

instance : IsPreorder (World LampNet) Fewer where
  refl _ _ h := h
  trans _ _ _ h1 h2 a h := h1 a (h2 a h)

theorem allowsRound_fewer : AllowsRound (lampOps cast) Fewer := by
  have hsend : ∀ com dat, com ≠ 0x02 → Keeps Fewer (send (lampOps cast) (specialCommand com dat)) :=
    fun com dat hcom => keeps_modify fun _ _ h =>
      lampSend_active (f := specialCommand com dat) hcom h
  have hexchange : ∀ com dat, com ≠ 0x02 →
      Keeps Fewer (exchange (lampOps cast) (specialCommand com dat)) :=
    fun com dat hcom => keeps_modifyGet fun _ _ h =>
      lampSend_active (f := specialCommand com dat) hcom h
  have htamam : ∀ abc, Keeps Fewer (atamaTamam (lampOps cast) abc) := by
    intro abc
    refine keeps_bind (keeps_modify fun _ _ h => h) fun _ => keeps_bind ?_ fun _ => keeps_pure _
    exact hsend 0x05 0x00 (by decide)
  have hassign : AllowsAssign (lampOps cast) Fewer :=
    ⟨fun ats => hsend 0x0B ats (by decide), fun ats => hexchange 0x0C ats (by decide), htamam⟩
  exact
    { high := fun dat => hsend 0x08 dat (by decide)
      mid := fun dat => hsend 0x09 dat (by decide)
      low := fun dat => hsend 0x0A dat (by decide)
      compare := hexchange 0x04 0x00 (by decide)
      retry := fun _ => keeps_modify fun _ _ h => h
      assign := keeps_atamaYap hassign }

/-- The random addresses of the devices that take part. -/
def LampNet.active (n : LampNet) : Finset Nat :=
  ((n.lamps.filter fun l => decide (l.phase = .enabled)).map fun l => l.random.addr).toFinset

theorem mem_active {n : LampNet} {a : Nat} : a ∈ n.active ↔ n.Active a := by
  simp [LampNet.active, LampNet.Active, and_assoc]

/-- While every round withdraws a device the number of random addresses left goes down, so the loop
ends. -/
theorem Progress.ends {n : Nat} {w : World LampNet} (h : Progress cast w)
    (hn : w.bus.active.card ≤ n) : LoopEnds cast w := by
  induction n generalizing w with
  | zero =>
    obtain ⟨ara, w1, hrun⟩ : ∃ ara w1, (araRound (lampOps cast)).run w = pure (ara, w1) :=
      ⟨_, _, rfl⟩
    cases ara with
    | false => exact ⟨1, w1, araLoop_succ 0 hrun⟩
    | true =>
      obtain ⟨a, ha, -⟩ := h w w1 .refl hrun
      rw [Nat.le_zero, Finset.card_eq_zero] at hn
      exact absurd (hn ▸ mem_active.mpr ha) (Finset.notMem_empty a)
  | succ n ih =>
    obtain ⟨ara, w1, hrun⟩ : ∃ ara w1, (araRound (lampOps cast)).run w = pure (ara, w1) :=
      ⟨_, _, rfl⟩
    cases ara with
    | false => exact ⟨1, w1, araLoop_succ 0 hrun⟩
    | true =>
      obtain ⟨a, ha, hno⟩ := h w w1 .refl hrun
      have hfewer : Fewer w w1 := (keeps_araRound (allowsRound_fewer cast)).run hrun
      have hlt : w1.bus.active.card < w.bus.active.card := by
        apply Finset.card_lt_card
        refine Finset.ssubset_iff_of_subset ?_ |>.mpr ⟨a, mem_active.mpr ha, mt mem_active.mp hno⟩
        intro b hb
        exact mem_active.mpr (hfewer b (mem_active.mp hb))
      have hrest : Progress cast w1 := fun w2 w3 h2 h3 => h w2 w3 (.head hrun h2) h3
      obtain ⟨fuel, w', hend⟩ := ih hrest (by omega)
      exact ⟨fuel + 1, w', by rw [araLoop_succ fuel hrun, if_pos rfl, hend]⟩

/-- At the head of a round, with `free` the number of free slots at the start of the loop. -/
structure Head (P : Population) (free : Nat) (t s : Nat) (w : World LampNet) : Prop where
  left : Left P t s w
  sum : rank P.devices t + s = free
  head : AtHead P.devices t

/-- A round from `t` on that takes devices leaves the rest for the next round. -/
theorem Head.taken {free t s i s' a : Nat} {w w' : World LampNet} (h : Head P free t (s + 1) w)
    (ha : Next P.devices t a) (hmod : a % 256 ≠ 0) (hw' : Left P (a + i) s' w')
    (hsum : i + s' = s + 1) (hi : Taken P a i s') (hfree : P.devices.card ≤ free) :
    Head P free (a + i) s' w' ∧ Chain P a i := by
  have hrank := rank_add fun j hj => hi.mem ha.mem (j := j) hj
  have hrank' := ha.rank_eq
  have hsum' := h.sum
  have hchain : Chain P a i := by
    refine ⟨hi.pos, hi.le, hi.reached, ?_⟩
    rcases hi.ended with h4 | hend | h0
    · exact Or.inl h4
    · exact Or.inr hend
    · right
      intro hreached
      have := rank_lt_card hreached.1
      omega
  exact ⟨⟨hw', by omega, atHead_chain h.head ha hmod hchain⟩, hchain⟩

theorem progress_of_aligned {free t s : Nat} {w : World LampNet} (h : Head P free t s w)
    (hfree : P.devices.card ≤ free) (halign : Aligned P.devices t) : Progress cast w := by
  -- Each round keeps the invariant of the loop, and withdraws the devices of one chain.
  have hround : ∀ w1 w2, (∃ t s, Head P free t s w1 ∧ Aligned P.devices t) → GoesOn cast w1 w2 →
      Withdraws w1 w2 ∧ ∃ t s, Head P free t s w2 ∧ Aligned P.devices t := by
    rintro w1 w2 ⟨t, s, h1, halign1⟩ hgo
    rcases next_cases P.devices t with hdone | ⟨a, ha⟩
    · obtain ⟨w', hrun⟩ := araRound_last cast h1.left hdone
      have hlast : (true, w2) = (false, w') := hgo.symm.trans hrun
      cases hlast
    have hmod : a % 256 ≠ 0 := by
      intro h0
      have hok := halign1 a ha.mem ha.le h0
      have hhd := h1.head a ha
      omega
    have hlt := rank_lt_card ha.mem
    have hrank := ha.rank_eq
    have hsum := h1.sum
    obtain ⟨s, rfl⟩ : ∃ s', s = s' + 1 := ⟨s - 1, by omega⟩
    obtain ⟨w', i, s', hrun, hw', hsum', hi⟩ := araRound_takes cast h1.left ha hmod
    obtain rfl : w2 = w' := hgo.unique cast hrun
    obtain ⟨hhead, -⟩ := h1.taken ha hmod hw' hsum' hi hfree
    have hpos := hi.pos
    have hle := ha.le
    refine ⟨⟨a, (h1.left.active a).mpr ⟨ha.mem, ha.le⟩, ?_⟩, a + i, s', hhead, ?_⟩
    · rw [hw'.active]
      omega
    · exact fun b hb hib => halign1 b hb (by omega)
  have hreach : ∀ w1, Relation.ReflTransGen (GoesOn cast) w w1 →
      ∃ t s, Head P free t s w1 ∧ Aligned P.devices t := by
    intro w1 hw1
    induction hw1 with
    | refl => exact ⟨t, s, h, halign⟩
    | tail _ hgo ih => exact (hround _ _ ih hgo).2
  intro w1 w2 hw1 hgo
  exact (hround w1 w2 (hreach w1 hw1) hgo).1

/-- With fewer free slots than devices, or a device at the head of a chain that cannot be located,
no round is the last one. -/
def Hopeless (P : Population) (free : Nat) (w : World LampNet) : Prop :=
  ∃ t s, Left P t s w ∧ rank P.devices t + s = free ∧
    (free < P.devices.card ∨
      P.devices.card ≤ free ∧ AtHead P.devices t ∧ ¬Aligned P.devices t)

theorem araRound_hopeless {free : Nat} (h0 : 0 ∉ P.devices) (w : World LampNet)
    (h : Hopeless P free w) :
    ∃ w', (araRound (lampOps cast)).run w = pure (true, w') ∧ Hopeless P free w' := by
  obtain ⟨t, s, hw, hsum, hcases⟩ := h
  rcases next_cases P.devices t with hdone | ⟨a, ha⟩
  · have hcard := rank_eq_card hdone
    rcases hcases with hlt | ⟨-, -, halign⟩
    · omega
    · refine absurd (fun a ha hta => ?_) halign
      have := hdone a ha
      omega
  have hpos : 0 < a := by
    rcases Nat.eq_zero_or_pos a with rfl | hpos
    · exact absurd ha.mem h0
    · exact hpos
  by_cases hidle : 0 < a ∧ a % 256 = 0 ∨ 0 < a ∧ s = 0
  · obtain ⟨w', hrun, hw'⟩ := araRound_idle cast hw ha hidle
    exact ⟨w', hrun, t, s, hw', hsum, hcases⟩
  have hmod : a % 256 ≠ 0 := fun h => hidle (Or.inl ⟨hpos, h⟩)
  obtain ⟨s, rfl⟩ : ∃ s', s = s' + 1 := ⟨s - 1, by omega⟩
  obtain ⟨w', i, s', hrun, hw', hsum', hi⟩ := araRound_takes cast hw ha hmod
  have hrank := rank_add fun j hj => hi.mem ha.mem (j := j) hj
  have hrank' := ha.rank_eq
  refine ⟨w', hrun, a + i, s', hw', by omega, ?_⟩
  rcases hcases with hlt | ⟨hle, hhead, halign⟩
  · exact Or.inl hlt
  · obtain ⟨hhead', hchain⟩ := Head.taken ⟨hw, hsum, hhead⟩ ha hmod hw' hsum' hi hle
    exact Or.inr ⟨hle, hhead'.head, fun h => halign (aligned_chain hhead ha hmod hchain h)⟩

/-! ### A device with random address zero -/

/-- Unless the search address is zero, the devices at zero go on to take part. -/
def SparesFirst (w w' : World LampNet) : Prop :=
  w.bus.search.addr ≠ 0 → w'.bus.search.addr ≠ 0 ∧ (w.bus.Active 0 → w'.bus.Active 0)

instance : IsPreorder (World LampNet) SparesFirst where
  refl _ h := ⟨h, id⟩
  trans _ _ _ h1 h2 h := ⟨(h2 (h1 h).1).1, (h2 (h1 h).1).2 ∘ (h1 h).2⟩

theorem allowsAssign_sparesFirst : AllowsAssign (lampOps cast) SparesFirst where
  program ats := keeps_modify fun w h => ⟨h, (program_active ats w.bus 0).mpr⟩
  verify ats := by
    apply keeps_modifyGet
    intro w h
    have hverify : ((lampOps cast).exchange (specialCommand 0x0C ats) w.bus).2 = w.bus :=
      lampSend_verify _ _
    rw [hverify]
    exact ⟨h, id⟩
  tamam abc := by
    refine keeps_bind (keeps_modify fun _ h => ⟨h, id⟩) fun _ => keeps_bind ?_ fun _ =>
      keeps_pure _
    apply keeps_modify
    intro w h
    exact ⟨h, fun hactive => (withdraw_active w.bus 0).mpr ⟨hactive, h.symm⟩⟩

theorem stays_first : Stays (lampOps cast) World.point Heard fun w => w.bus.Active 0 where
  loads _ _ h := h
  answers w r h := (heard_iff w r).mpr ⟨0, h, Nat.zero_le _⟩
  assign w r h hr := by
    have hkeeps := keeps_atamaYap (allowsAssign_sparesFirst cast) (w.point r) hr
    exact ⟨_, _, rfl, hkeeps.2 h⟩

/-! ### The result -/

/-- After `TERMINATE`, `INITIALISE` and `RANDOMISE` the devices that were addressed take part. -/
def World.started (w : World LampNet) (dev : UInt8) : World LampNet :=
  { w with bus := { w.bus with lamps := w.bus.lamps.map fun l =>
      { l with phase := if l.addressed dev then .enabled else .disabled } } }

/-- The random addresses of the devices that `INITIALISE` addresses. -/
def participants (w : World LampNet) (dev : UInt8) : Finset Nat :=
  ((w.bus.lamps.filter fun l => l.addressed dev).map fun l => l.random.addr).toFinset

theorem started_active (w : World LampNet) (dev : UInt8) (a : Nat) :
    (w.started dev).bus.Active a ↔ a ∈ participants w dev := by
  have hphase : ∀ l : Lamp,
      (if l.addressed dev = true then Phase.enabled else .disabled) = .enabled ↔
        l.addressed dev = true := by
    intro l
    by_cases h : l.addressed dev = true <;> simp [h]
  simp [LampNet.Active, World.started, participants, hphase, and_assoc]

def population (w : World LampNet) (dev : UInt8) : Population where
  devices := participants w dev
  random_lt a ha := by
    obtain ⟨l, -, -, rfl⟩ := (started_active w dev a).mpr ha
    have h := (l.random.h).toNat_lt
    have m := (l.random.m).toNat_lt
    have b := (l.random.l).toNat_lt
    unfold Hml.addr addressOf
    omega

theorem started_head (w : World LampNet) (dev : UInt8) :
    Head (population w dev) (freeSlots w.gear) 0 (freeSlots w.gear) (w.started dev) := by
  refine ⟨⟨fun a => ?_, rfl⟩, ?_, atHead_zero _⟩
  · rw [started_active]
    exact ⟨fun h => ⟨h, Nat.zero_le a⟩, And.left⟩
  · simp [rank]

theorem searchDevice_lamps (dev : UInt8) (fuel : Nat) (w : World LampNet) :
    (searchDevice (lampOps cast) dev fuel).run w =
      (araLoop (lampOps cast) fuel).run (w.started dev) >>= fun p =>
        (do
          if p.1 then doubleSend (lampOps cast) (specialCommand 0x00 0x00)
          return p.1 : StateM (World LampNet) Bool).run p.2 := by
  have hsend : (lampOps cast).send = lampSend := rfl
  have hsteps : ∀ l, lampStep 0x02 dev w.bus.search (lampStep 0x02 dev w.bus.search
      (lampStep 0x00 0x00 w.bus.search (lampStep 0x00 0x00 w.bus.search l))) =
        { l with phase := if l.addressed dev then .enabled else .disabled } := by
    intro l
    have haddressed : ∀ p, ({ l with phase := p } : Lamp).addressed dev = l.addressed dev :=
      fun _ => rfl
    by_cases h : l.addressed dev = true <;> simp [lampStep, haddressed, h]
  have hstarted : lampSend (specialCommand 0x02 dev) (lampSend (specialCommand 0x02 dev)
      (lampSend (specialCommand 0x00 0x00) (lampSend (specialCommand 0x00 0x00) w.bus))) =
        (w.started dev).bus := by
    rw [lampSend_step, lampSend_step, lampSend_step, lampSend_step] <;> try decide
    simp only [List.map_map, World.started]
    congr 1
    exact List.map_congr_left fun l _ => hsteps l
  simp only [searchDevice, doubleSend, StateT.run_bind, send_run, pure_bind, hsend,
    lampSend_randomise, hstarted]
  rfl

/-- The search over the devices of a bus without noise ends. -/
def SearchEnds (cast : UInt8 → Backword) (dev : UInt8) (w : World LampNet) : Prop :=
  ∃ fuel w', (searchDevice (lampOps cast) dev fuel).run w = pure (true, w')

theorem searchEnds_iff (dev : UInt8) (w : World LampNet) :
    SearchEnds cast dev w ↔ LoopEnds cast (w.started dev) := by
  have hfuel : ∀ fuel, (∃ w', (searchDevice (lampOps cast) dev fuel).run w = pure (true, w')) ↔
      ∃ w', (araLoop (lampOps cast) fuel).run (w.started dev) = pure (true, w') := by
    intro fuel
    obtain ⟨bitti, w1, hrun⟩ : ∃ bitti w1,
        (araLoop (lampOps cast) fuel).run (w.started dev) = pure (bitti, w1) := ⟨_, _, rfl⟩
    rw [searchDevice_lamps, hrun, pure_bind]
    cases bitti with
    | false =>
      constructor
      · rintro ⟨w', h⟩
        cases h
      · rintro ⟨w', h⟩
        cases h
    | true => exact ⟨fun _ => ⟨w1, rfl⟩, fun _ => ⟨_, rfl⟩⟩
  exact exists_congr hfuel

/-- There are as many free slots as random addresses that take part, and every one of these that
ends in a zero byte comes right after another one, in the same chain of four and not across a
16-bit boundary. -/
def Served (D : Finset Nat) (free : Nat) : Prop :=
  D.card ≤ free ∧ ∀ a ∈ D, a % 256 = 0 → a % 65536 ≠ 0 ∧ runBefore D a % 4 ≠ 0

theorem progress_of_served {dev : UInt8} {w : World LampNet}
    (h : Served (participants w dev) (freeSlots w.gear)) : Progress cast (w.started dev) :=
  progress_of_aligned cast (started_head w dev) h.1 fun a ha _ => h.2 a ha

theorem not_loopEnds {dev : UInt8} {w : World LampNet}
    (h : ¬Served (participants w dev) (freeSlots w.gear)) : ¬LoopEnds cast (w.started dev) := by
  rintro ⟨fuel, w', hend⟩
  have hnever : ∃ w', (araLoop (lampOps cast) fuel).run (w.started dev) = pure (false, w') := by
    by_cases h0 : 0 ∈ participants w dev
    · exact araLoop_never (araRound_stays (comparing_lampOps cast) (stays_first cast))
        ((started_active w dev 0).mpr h0) fuel
    · have hhead := started_head w dev
      have hround : ∀ w1, Hopeless (population w dev) (freeSlots w.gear) w1 →
          ∃ w2, (araRound (lampOps cast)).run w1 = pure (true, w2) ∧
            Hopeless (population w dev) (freeSlots w.gear) w2 := araRound_hopeless cast h0
      refine araLoop_never hround ⟨0, _, hhead.left, hhead.sum, ?_⟩ fuel
      by_cases hcard : (participants w dev).card ≤ freeSlots w.gear
      · exact Or.inr ⟨hcard, atHead_zero _, fun halign => h ⟨hcard, fun a ha =>
          halign a ha (Nat.zero_le a)⟩⟩
      · exact Or.inl (Nat.lt_of_not_le hcard)
  obtain ⟨w1, hrun⟩ := hnever
  have hboth : (true, w') = (false, w1) := hend.symm.trans hrun
  cases hboth

/-- Every iteration withdraws a device or is the last one, and the loop ends, in the same cases:
when all the devices that take part can be located, and find a free slot. -/
theorem search_device_progress (dev : UInt8) (w : World LampNet) :
    ((∀ w1 w2, Relation.ReflTransGen (GoesOn cast) (w.started dev) w1 → GoesOn cast w1 w2 →
        Withdraws w1 w2) ↔ Served (participants w dev) (freeSlots w.gear)) ∧
      (SearchEnds cast dev w ↔ Served (participants w dev) (freeSlots w.gear)) := by
  rw [searchEnds_iff]
  constructor
  · refine ⟨fun h => ?_, progress_of_served cast⟩
    by_contra hno
    exact not_loopEnds cast hno (Progress.ends cast h le_rfl)
  · refine ⟨fun h => ?_, fun h => Progress.ends cast (progress_of_served cast h) le_rfl⟩
    by_contra hno
    exact not_loopEnds cast hno h

/-- One device without a short address, and a `GEAR_FILE` without a free slot. -/
def fullFile : World LampNet where
  bus := ⟨⟨0, 0, 0⟩, [⟨⟨0x12, 0x34, 0x56⟩, .disabled, none⟩]⟩
  gear k := ⟨UInt8.ofNat k, 6, 0⟩
  init := []
  retry := 0

theorem search_device_full_file :
    ¬(∀ w1 w2, Relation.ReflTransGen (GoesOn .other) (fullFile.started 0xFF) w1 →
        GoesOn .other w1 w2 → Withdraws w1 w2) ∧ ¬SearchEnds .other 0xFF fullFile := by
  have hserved : ¬Served (participants fullFile 0xFF) (freeSlots fullFile.gear) := by
    rintro ⟨hcard, -⟩
    exact absurd hcard (by decide)
  rw [searchEnds_iff]
  exact ⟨fun h => not_loopEnds .other hserved (Progress.ends .other h le_rfl),
    not_loopEnds .other hserved⟩

end DaliController.Search
