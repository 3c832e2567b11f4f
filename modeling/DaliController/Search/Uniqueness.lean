import DaliController.Search.Frames

/-! Short addresses on a bus that may lose replies.  `AtamaYAP` programs a device with the first
free slot's number and takes the slot once a reply to `VERIFY` is heard.  It asks twelve times.  If
all twelve replies are lost, the device holds the number of a slot that is still free, and another
device may be programmed with it. -/

namespace DaliController.Search

open Dali Frame

variable {P : Population} (lost : Nat → Bool) (cast : UInt8 → Backword)

/-- No two devices hold the same short address. -/
def Net.Distinct (P : Population) (n : Net) : Prop :=
  ∀ a ∈ P.devices, ∀ b ∈ P.devices, ∀ k, n.short a = some k → n.short b = some k → a = b

/-- When a device is programmed, the bus does not lose all of the next twelve replies. -/
def VerifyHeard (P : Population) (lost : Nat → Bool) (st : BusStep) : Prop :=
  isProgram st.frame = true → st.net.search ∈ P.devices →
    ∃ j < 12, lost (st.exchanges + j) = false

/-- A bus that never loses twelve replies in a row. -/
theorem verifyHeard_of_burst {lost : Nat → Bool} (h : ∀ i, ∃ j < 12, lost (i + j) = false)
    (st : BusStep) : VerifyHeard P lost st :=
  fun _ _ => h st.exchanges

/-! ### The invariant -/

/-- A short address is held by one device at most, and its slot is taken. -/
structure Tidy (P : Population) (w : World LossyNet) : Prop where
  past : ∀ n ∈ w.bus.past, n.Distinct P
  distinct : w.bus.net.Distinct P
  held : ∀ a ∈ P.devices, ∀ k, w.bus.net.short a = some k →
    (w.gear k.toNat).shortAddr ≤ 64 ∧ k.toNat < 64

/-- A part of the search keeps the invariant if all its frames are heard. -/
structure Preserves (P : Population) (lost : Nat → Bool) (w w' : World LossyNet) : Prop where
  steps : w.bus.steps ⊆ w'.bus.steps
  tidy : (∀ st ∈ w'.bus.steps, VerifyHeard P lost st) → Tidy P w → Tidy P w'

instance : IsPreorder (World LossyNet) (Preserves P lost) where
  refl _ := ⟨List.Subset.refl _, fun _ h => h⟩
  trans _ _ _ h1 h2 := ⟨fun _ hst => h2.steps (h1.steps hst), fun hheard h =>
    h2.tidy hheard (h1.tidy (fun st hst => hheard st (h2.steps hst)) h)⟩

/-- A step that programs no device. -/
structure Quiet (w w' : World LossyNet) : Prop where
  gear : w'.gear = w.gear
  short : w'.bus.net.short = w.bus.net.short
  steps : ∃ l, w'.bus.steps = w.bus.steps ++ l ∧ ∀ st ∈ l, st.after.short = w.bus.net.short

theorem Net.Distinct.congr {n m : Net} (h : n.Distinct P) (hs : m.short = n.short) :
    m.Distinct P := by
  unfold Net.Distinct
  rw [hs]
  exact h

theorem Quiet.preserves {w w' : World LossyNet} (h : Quiet w w') : Preserves P lost w w' := by
  obtain ⟨l, hl, hs⟩ := h.steps
  refine ⟨?_, fun _ ht => ⟨fun n hn => ?_, ht.distinct.congr h.short, ?_⟩⟩
  · rw [hl]
    exact List.subset_append_left _ _
  · obtain ⟨st, hst, rfl⟩ := List.mem_map.mp hn
    rw [hl] at hst
    rcases List.mem_append.mp hst with hst | hst
    · exact ht.past _ (List.mem_map_of_mem hst)
    · exact ht.distinct.congr (hs st hst)
  · rw [h.short, h.gear]
    exact ht.held

theorem quiet_send {f : Forward} (hs : ∀ n, (netSend f n).short = n.short) :
    Keeps (Preserves P lost) (send (lossyOps P lost cast) f) := by
  apply keeps_modify
  intro w
  refine Quiet.preserves lost ⟨rfl, hs _, [⟨f, w.bus.exchanges, w.bus.net⟩], rfl, fun st hst => ?_⟩
  rw [List.mem_singleton.mp hst]
  exact hs _

theorem quiet_compare :
    Keeps (Preserves P lost) (exchange (lossyOps P lost cast) (specialCommand 0x04 0x00)) := by
  apply keeps_modifyGet
  intro w
  refine Quiet.preserves lost ⟨rfl, rfl, [⟨specialCommand 0x04 0x00, w.bus.exchanges, w.bus.net⟩],
    rfl, fun st hst => ?_⟩
  rw [List.mem_singleton.mp hst]
  rfl

/-! ### One assignment -/

theorem findAddr_free {gear : Nat → Gear} (h : ¬64 < findAddr gear) :
    (findAddr gear).toNat < 64 ∧ ¬(gear (findAddr gear).toNat).shortAddr ≤ 64 := by
  unfold findAddr at h ⊢
  cases hfind : (List.range 64).find? fun i => decide (64 < (gear i).shortAddr) with
  | none =>
    rw [hfind] at h
    exact absurd (by decide) h
  | some i =>
    have hi := List.mem_range.mp (List.mem_of_find?_eq_some hfind)
    have hfree := List.find?_some hfind
    have htoNat : (UInt8.ofNat i).toNat = i :=
      UInt8.toNat_ofNat_of_lt' (show i < 256 by omega)
    simp only [htoNat]
    exact ⟨hi, UInt8.not_le.mpr (of_decide_eq_true hfree)⟩

/-- From `w0` on, `AtamaYAP` has programmed the device at the search address with `k`. -/
structure Programmed (w0 : World LossyNet) (k : UInt8) (w : World LossyNet) : Prop where
  gear : w.gear = w0.gear
  search : w.bus.net.search = w0.bus.net.search
  short : w.bus.net.short = fun a => if a = w0.bus.net.search then some k else w0.bus.net.short a
  steps : w0.bus.steps ⊆ w.bus.steps
  since : ∀ st ∈ w.bus.steps, st ∈ w0.bus.steps ∨ st.after.short = w.bus.net.short
  start : ∃ st ∈ w.bus.steps, isProgram st.frame = true ∧
    st.exchanges = w0.bus.exchanges ∧ st.net.search = w0.bus.net.search

/-- None of the `n` replies since then was heard.  A device that was programmed has sent each. -/
structure Unheard (P : Population) (lost : Nat → Bool) (w0 : World LossyNet) (k : UInt8) (n : Nat)
    (w : World LossyNet) : Prop extends Programmed w0 k w where
  exchanges : w.bus.exchanges = w0.bus.exchanges + n
  lost : w0.bus.net.search ∈ P.devices → ∀ j < n, lost (w0.bus.exchanges + j) = true

section Assign

variable {lost} {w0 w : World LossyNet} {k ats : UInt8} {n d : Nat}

/-- A frame that leaves the programmed device alone. -/
theorem Programmed.frame (h : Programmed w0 k w) {f : Forward} {s : LossyNet}
    (hnet : s.net = netSend f w.bus.net)
    (hsteps : s.steps = w.bus.steps ++ [⟨f, w.bus.exchanges, w.bus.net⟩])
    (hsearch : (netSend f w.bus.net).search = w.bus.net.search)
    (hshort : (netSend f w.bus.net).short = w.bus.net.short) :
    Programmed w0 k { w with bus := s } := by
  have hmem {st : BusStep} (hst : st ∈ w.bus.steps) : st ∈ s.steps := by
    rw [hsteps]
    exact List.mem_append_left _ hst
  obtain ⟨st0, hst0, hstart⟩ := h.start
  refine ⟨h.gear, ?_, ?_, fun st hst => hmem (h.steps hst), fun st hst => ?_,
    st0, hmem hst0, hstart⟩
  · show s.net.search = _
    rw [hnet, hsearch, h.search]
  · show s.net.short = _
    rw [hnet, hshort, h.short]
  · show _ ∨ st.after.short = s.net.short
    rw [hnet, hshort]
    rw [hsteps] at hst
    rcases List.mem_append.mp hst with hst | hst
    · exact h.since st hst
    · rw [List.mem_singleton.mp hst]
      exact Or.inr hshort

theorem programmed_start (hats : ats >>> 1 = k) (w0 : World LossyNet) :
    Unheard P lost w0 k 0
      { w0 with bus := lossySend (specialCommand 0x0B ats) w0.bus } where
  gear := rfl
  search := rfl
  short := hats ▸ rfl
  steps := List.subset_append_left _ _
  since st hst := (List.mem_append.mp hst).imp_right fun h => by
    rw [List.mem_singleton.mp h]
    rfl
  start := ⟨_, List.mem_append_right _ (List.mem_singleton_self _), rfl, rfl, rfl⟩
  exchanges := rfl
  lost _ j hj := absurd hj (Nat.not_lt_zero j)

/-- Programming once more changes nothing. -/
theorem Unheard.program (h : Unheard P lost w0 k n w) (hats : ats >>> 1 = k) :
    Unheard P lost w0 k n { w with bus := lossySend (specialCommand 0x0B ats) w.bus } := by
  refine ⟨h.toProgrammed.frame rfl rfl rfl ?_, h.exchanges, h.lost⟩
  rw [netSend_program, hats, h.search, h.short]
  funext a
  by_cases ha : a = w0.bus.net.search
  · simp only [if_pos ha]
  · simp only [if_neg ha]

/-- The programmed device answers `VERIFY`, so a reply that is not heard was lost. -/
theorem verify_run (h : Unheard P lost w0 k n w) (hats : ats >>> 1 = k) :
    ∃ reply w', (exchange (lossyOps P lost cast) (specialCommand 0x0C ats)).run w =
        pure (reply, w') ∧
      (reply = none ∧ Unheard P lost w0 k (n + 1) w' ∨
        reply = some 0xFF ∧ Programmed w0 k w') := by
  have hprogrammed := h.toProgrammed.frame
    (s := ((lossyOps P lost cast).exchange (specialCommand 0x0C ats) w.bus).2) rfl rfl rfl rfl
  refine ⟨_, _, rfl, ?_⟩
  cases hreply : ((lossyOps P lost cast).exchange (specialCommand 0x0C ats) w.bus).1 with
  | none =>
    refine Or.inl ⟨rfl, hprogrammed, ?_, fun hdevice j hj => ?_⟩
    · show w.bus.exchanges + 1 = _
      rw [h.exchanges, Nat.add_assoc]
    · rcases Nat.lt_succ_iff_lt_or_eq.mp hj with hj | rfl
      · exact h.lost hdevice j hj
      · have hholds : w.bus.net.Holds P (ats >>> 1) := by
          refine ⟨_, hdevice, ?_⟩
          rw [h.short, hats]
          exact if_pos rfl
        rw [← h.exchanges]
        simp only [lossyOps, lossyExchange, netReply_verify, if_pos hholds] at hreply
        split at hreply
        · assumption
        · cases hreply
  | some data =>
    refine Or.inr ⟨?_, hprogrammed⟩
    simp only [lossyOps, lossyExchange, netReply_verify] at hreply
    split at hreply
    · cases hreply
    · split at hreply
      · exact hreply.symm
      · cases hreply

/-- What a try to verify leaves after `n` replies that were not heard. -/
def Tried (P : Population) (lost : Nat → Bool) (w0 : World LossyNet) (k : UInt8) (n : Nat)
    (rr : Backword) (w : World LossyNet) : Prop :=
  rr = .yes ∧ Programmed w0 k w ∨ rr ≠ .yes ∧ Unheard P lost w0 k n w

theorem sendReceive_verify (h : Unheard P lost w0 k n w) (hats : ats >>> 1 = k) :
    ∃ rr w', (sendReceive (lossyOps P lost cast) (specialCommand 0x0C ats)).run w =
      pure (rr, w') ∧ Tried P lost w0 k (n + 3) rr w' := by
  have hagain : ∀ (m : Nat) (kk : Option UInt8) (w : World LossyNet),
      kk = none ∧ Unheard P lost w0 k m w ∨ kk = some 0xFF ∧ Programmed w0 k w →
      ∃ kk' w', (exchangeAgain (lossyOps P lost cast) (specialCommand 0x0C ats) kk).run w =
        pure (kk', w') ∧
        (kk' = none ∧ Unheard P lost w0 k (m + 1) w' ∨ kk' = some 0xFF ∧ Programmed w0 k w') := by
    rintro m kk w (⟨rfl, hw⟩ | ⟨rfl, hw⟩)
    · exact verify_run cast hw hats
    · exact ⟨some 0xFF, w, rfl, Or.inr ⟨rfl, hw⟩⟩
  obtain ⟨kk1, w1, hrun1, h1⟩ := verify_run cast h hats
  obtain ⟨kk2, w2, hrun2, h2⟩ := hagain (n + 1) kk1 w1 h1
  obtain ⟨kk3, w3, hrun3, h3⟩ := hagain (n + 2) kk2 w2 h2
  refine ⟨backward (lossyOps P lost cast) kk3, w3, ?_, ?_⟩
  · simp only [sendReceive, StateT.run_bind, hrun1, pure_bind, hrun2, hrun3]
    rfl
  · rcases h3 with ⟨rfl, hw⟩ | ⟨rfl, hw⟩
    · exact Or.inr ⟨nofun, hw⟩
    · exact Or.inl ⟨rfl, hw⟩

theorem Tried.again {m : StateM (World LossyNet) Backword} {rr : Backword}
    (hm : ∀ w, Unheard P lost w0 k n w →
      ∃ rr' w', m.run w = pure (rr', w') ∧ Tried P lost w0 k (n + d) rr' w')
    (h : Tried P lost w0 k n rr w) :
    ∃ rr' w', (if rr ≠ .yes then m else pure rr).run w = pure (rr', w') ∧
      Tried P lost w0 k (n + d) rr' w' := by
  rcases h with ⟨rfl, hw⟩ | ⟨hrr, hw⟩
  · rw [if_neg fun h => h rfl]
    exact ⟨_, w, rfl, Or.inl ⟨rfl, hw⟩⟩
  · rw [if_pos hrr]
    exact hm w hw

theorem atamaVeKontrol_tried (hats : ats >>> 1 = k)
    (h : Unheard P lost w0 k n { w with bus := lossySend (specialCommand 0x0B ats) w.bus }) :
    ∃ rr w', (atamaVeKontrol (lossyOps P lost cast) ats).run w = pure (rr, w') ∧
      Tried P lost w0 k (n + 6) rr w' := by
  obtain ⟨rr1, w1, hrun1, h1⟩ := sendReceive_verify cast (h.program hats) hats
  have hsend : (lossyOps P lost cast).send = lossySend := rfl
  simp only [atamaVeKontrol, StateT.run_bind, send_run, pure_bind, hsend, hrun1]
  exact h1.again (d := 3) fun w hw => sendReceive_verify cast hw hats

/-- A device other than the programmed one has a slot of its own, which is taken. -/
theorem distinct_programmed (h : Tidy P w0) (hfree : ¬(w0.gear k.toNat).shortAddr ≤ 64) {m : Net}
    (hm : m.short = fun a => if a = w0.bus.net.search then some k else w0.bus.net.short a) :
    m.Distinct P := by
  have hother : ∀ b ∈ P.devices, w0.bus.net.short b ≠ some k := fun b hb hbk =>
    hfree (h.held b hb k hbk).1
  intro x hx y hy i hxi hyi
  rw [hm] at hxi hyi
  by_cases hxa : x = w0.bus.net.search <;> by_cases hya : y = w0.bus.net.search
  · exact hxa.trans hya.symm
  · simp only [if_pos hxa, Option.some_inj] at hxi
    simp only [if_neg hya, ← hxi] at hyi
    exact absurd hyi (hother y hy)
  · simp only [if_pos hya, Option.some_inj] at hyi
    simp only [if_neg hxa, ← hyi] at hxi
    exact absurd hxi (hother x hx)
  · simp only [if_neg hxa] at hxi
    simp only [if_neg hya] at hyi
    exact h.distinct x hx y hy i hxi hyi

theorem Programmed.distinct (h : Programmed w0 k w) (ht : Tidy P w0)
    (hfree : ¬(w0.gear k.toNat).shortAddr ≤ 64) :
    (∀ n ∈ w.bus.past, n.Distinct P) ∧ w.bus.net.Distinct P := by
  refine ⟨fun n hn => ?_, distinct_programmed ht hfree h.short⟩
  obtain ⟨st, hst, rfl⟩ := List.mem_map.mp hn
  rcases h.since st hst with hst | hst
  · exact ht.past _ (List.mem_map_of_mem hst)
  · exact distinct_programmed ht hfree (hst.trans h.short)

/-- The world once the slot `k` is written. -/
def World.taken (w : World LossyNet) (k : UInt8) : World LossyNet :=
  { w with
    gear := Function.update w.gear k.toNat ⟨k, 0x06, 0⟩
    init := w.init ++ [k] }

theorem taken_slot (w : World LossyNet) {m : UInt8} (hk : k.toNat < 64)
    (h : m = k ∨ (w.gear m.toNat).shortAddr ≤ 64 ∧ m.toNat < 64) :
    ((w.taken k).gear m.toNat).shortAddr ≤ 64 ∧ m.toNat < 64 := by
  have hk' : k ≤ 64 := by
    rw [UInt8.le_iff_toNat_le]
    simp only [UInt8.reduceToNat]
    omega
  by_cases hmk : m.toNat = k.toNat
  · have hupdate : (w.taken k).gear m.toNat = ⟨k, 0x06, 0⟩ := by
      rw [hmk]
      exact Function.update_self _ _ _
    rw [hupdate, hmk]
    exact ⟨hk', hk⟩
  · have hupdate : (w.taken k).gear m.toNat = w.gear m.toNat := Function.update_of_ne hmk _ _
    rw [hupdate]
    rcases h with rfl | h
    · exact absurd rfl hmk
    · exact h

/-- With a reply to `VERIFY` the slot is taken. -/
theorem Programmed.preserves_taken (h : Programmed w0 k w) (hk : k.toNat < 64)
    (hfree : ¬(w0.gear k.toNat).shortAddr ≤ 64) : Preserves P lost w0 (w.taken k) := by
  refine ⟨h.steps, fun _ ht => ?_⟩
  obtain ⟨hpast, hdistinct⟩ := h.distinct ht hfree
  refine ⟨hpast, hdistinct, fun a ha m hm => taken_slot w hk ?_⟩
  change w.bus.net.short a = some m at hm
  rw [h.short] at hm
  by_cases has : a = w0.bus.net.search
  · simp only [if_pos has, Option.some_inj] at hm
    exact Or.inl hm.symm
  · simp only [if_neg has] at hm
    rw [h.gear]
    exact Or.inr (ht.held a ha m hm)

/-- Without a reply there was no device to program: of a device, not all twelve replies are lost. -/
theorem Unheard.preserves (h : Unheard P lost w0 k 12 w)
    (hfree : ¬(w0.gear k.toNat).shortAddr ≤ 64) : Preserves P lost w0 w := by
  refine ⟨h.steps, fun hheard ht => ?_⟩
  have hdevice : w0.bus.net.search ∉ P.devices := by
    intro hdevice
    obtain ⟨st, hst, hprogram, hexchanges, hsearch⟩ := h.start
    rw [← hsearch] at hdevice
    obtain ⟨j, hj, hlost⟩ := hheard st hst hprogram hdevice
    rw [hsearch] at hdevice
    rw [hexchanges] at hlost
    exact absurd ((h.lost hdevice j hj).symm.trans hlost) (by decide)
  obtain ⟨hpast, hdistinct⟩ := h.toProgrammed.distinct ht hfree
  refine ⟨hpast, hdistinct, fun a ha m hm => ?_⟩
  have has : a ≠ w0.bus.net.search := fun heq => hdevice (heq ▸ ha)
  rw [h.short] at hm
  simp only [if_neg has] at hm
  rw [h.gear]
  exact ht.held a ha m hm

end Assign

theorem preserves_atamaYap : Keeps (Preserves P lost) (atamaYap (lossyOps P lost cast)) := by
  intro w
  have hget : (get : StateM (World LossyNet) (World LossyNet)).run w = pure (w, w) := rfl
  simp only [atamaYap, StateT.run_bind, hget, pure_bind]
  by_cases hfull : 64 < findAddr w.gear
  · rw [if_pos hfull]
    exact refl_of (Preserves P lost) w
  · obtain ⟨hlt, hfree⟩ := findAddr_free hfull
    have hats : (findAddr w.gear <<< 1 ||| 1) >>> 1 = findAddr w.gear := short_of_ats hlt
    have hstart : Unheard P lost w (findAddr w.gear) 0 _ := programmed_start hats w
    obtain ⟨rr1, w1, hrun1, h1⟩ := atamaVeKontrol_tried cast hats hstart
    obtain ⟨rr2, w2, hrun2, h2⟩ := h1.again fun w hw =>
      atamaVeKontrol_tried cast hats (hw.program hats)
    rw [if_neg hfull]
    simp only [StateT.run_bind, hrun1, pure_bind, atamaTekrar, hrun2]
    rcases h2 with ⟨hyes, hw2⟩ | ⟨hno, hw2⟩
    · rw [if_pos hyes]
      have hwithdraw : Keeps (Preserves P lost)
          (send (lossyOps P lost cast) (specialCommand 0x05 0x00)) :=
        quiet_send lost cast fun _ => rfl
      exact trans_of (Preserves P lost) (hw2.preserves_taken hlt hfree) (hwithdraw _)
    · rw [if_neg hno]
      exact hw2.preserves hfree

/-! ### The whole search -/

theorem allowsSearch_preserves : AllowsSearch (lossyOps P lost cast) (Preserves P lost) where
  high _ := quiet_send lost cast fun _ => rfl
  mid _ := quiet_send lost cast fun _ => rfl
  low _ := quiet_send lost cast fun _ => rfl
  compare := quiet_compare lost cast
  retry _ := keeps_modify fun _ => Quiet.preserves lost ⟨rfl, rfl, [], by simp, nofun⟩
  terminate := quiet_send lost cast fun _ => rfl
  initialise _ := quiet_send lost cast fun _ => rfl
  randomise := quiet_send lost cast fun _ => rfl
  assign := preserves_atamaYap lost cast

/-- No device has a short address, no slot is taken, and nothing was sent yet. -/
structure Begins (P : Population) (w : World LossyNet) : Prop where
  short : ∀ a ∈ P.devices, w.bus.net.short a = none
  free : AllFree w.gear
  steps : w.bus.steps = []

theorem Begins.tidy {w : World LossyNet} (h : Begins P w) : Tidy P w := by
  refine ⟨fun n hn => ?_, fun a ha b _ k hk => ?_, fun a ha k hk => ?_⟩
  · rw [LossyNet.past, h.steps] at hn
    cases hn
  · rw [h.short a ha] at hk
    cases hk
  · rw [h.short a ha] at hk
    cases hk

/-- The world after the search has run for `fuel` rounds, if it does not end before. -/
def searched (P : Population) (lost : Nat → Bool) (cast : UInt8 → Backword) (w : World LossyNet)
    (fuel : Nat) : World LossyNet :=
  (Id.run ((searchDevice (lossyOps P lost cast) 0x00 fuel).run w)).2

/-- While the bus does not lose all twelve replies of a device that is programmed, no two devices
hold the same short address in any state of the search, whatever other replies are lost. -/
theorem search_device_distinct (P : Population) (lost : Nat → Bool) (cast : UInt8 → Backword)
    {w : World LossyNet} (hw : Begins P w) (fuel : Nat)
    (hheard : ∀ st ∈ (searched P lost cast w fuel).bus.steps, VerifyHeard P lost st) :
    ∀ n ∈ (searched P lost cast w fuel).bus.past, n.Distinct P :=
  ((keeps_searchDevice (allowsSearch_preserves lost cast) 0x00 fuel w).tidy hheard hw.tidy).past

/-- Two devices with neighbouring random addresses. -/
def pair : Population := ⟨{1, 2}, by decide⟩

/-- Nothing sent yet, and an empty `GEAR_FILE`. -/
def beginning : World LossyNet where
  bus := ⟨⟨0, 0, 0, fun _ => false, fun _ => none⟩, 0, []⟩
  gear _ := ⟨200, 0, 0⟩
  init := []
  retry := 0

theorem begins_beginning (P : Population) : Begins P beginning :=
  ⟨fun _ _ => rfl, fun _ _ => (by decide : (64 : UInt8) < 200), rfl⟩

/-- The first reply to `VERIFY` is lost, but the second one is heard. -/
def lucky (i : Nat) : Bool := decide (i = 32)

theorem search_device_distinct_lucky : Begins pair beginning ∧
    (∀ n ∈ (searched pair lucky .other beginning 1).bus.past, n.Distinct pair) ∧
    ∃ n ∈ (searched pair lucky .other beginning 1).bus.past,
      n.short 1 = some 0 ∧ n.short 2 = some 1 := by
  refine ⟨begins_beginning pair,
    search_device_distinct pair lucky .other (begins_beginning pair) 1 fun st _ => ?_, ?_⟩
  · refine verifyHeard_of_burst (fun i => ?_) st
    by_cases hi : i = 32
    · exact ⟨1, by decide, decide_eq_false (by omega)⟩
    · exact ⟨0, by decide, decide_eq_false hi⟩
  · have hlast : (searched pair lucky .other beginning 1).bus.past.getLast?.map
        (fun n => (n.short 1, n.short 2)) = some (some 0, some 1) := by
      decide +kernel
    obtain ⟨n, hn, hshort⟩ := Option.map_eq_some_iff.mp hlast
    obtain ⟨h1, h2⟩ := Prod.mk.inj hshort
    exact ⟨n, List.mem_of_getLast? hn, h1, h2⟩

/-- All replies to `VERIFY` for the first device are lost, and those to one comparison of the next
search. -/
def unlucky (i : Nat) : Bool := decide (32 ≤ i ∧ i ≤ 43 ∨ 74 ≤ i ∧ i ≤ 76)

theorem search_device_clash : Begins pair beginning ∧
    ∃ n ∈ (searched pair unlucky .other beginning 2).bus.past, ¬n.Distinct pair := by
  refine ⟨begins_beginning pair, ?_⟩
  have hlast : (searched pair unlucky .other beginning 2).bus.past.getLast?.map
      (fun n => (n.short 1, n.short 2)) = some (some 0, some 0) := by
    decide +kernel
  obtain ⟨n, hn, hshort⟩ := Option.map_eq_some_iff.mp hlast
  obtain ⟨h1, h2⟩ := Prod.mk.inj hshort
  refine ⟨n, List.mem_of_getLast? hn, fun hdistinct => ?_⟩
  exact absurd (hdistinct 1 (by decide) 2 (by decide) 0 h1 h2) (by decide)

end DaliController.Search
