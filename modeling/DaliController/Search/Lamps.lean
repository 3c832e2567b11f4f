import DaliController.Search.Discovery
import Mathlib.Tactic.SplitIfs

/-! The bus as a list of devices, several of which may have drawn the same random address.  Only the
devices that `INITIALISE` addressed take part in the search, until they are withdrawn. -/

namespace DaliController.Search

open Dali Frame

inductive Phase
  | disabled
  | enabled
  | withdrawn
  deriving DecidableEq, Repr

/-- A device, with the address that `RANDOMISE` gave it. -/
structure Lamp where
  random : Hml
  phase : Phase
  short : Option UInt8
  deriving DecidableEq, Repr

structure LampNet where
  search : Hml
  lamps : List Lamp

/-- Whether `INITIALISE` addresses the device: 0x00 means all devices, 0xFF those without a short
address, and any other value the one whose short address it carries. -/
def Lamp.addressed (l : Lamp) (dev : UInt8) : Bool :=
  if dev = 0x00 then true
  else if dev = 0xFF then l.short.isNone
  else decide (dev &&& 0x81 = 0x01) && decide (l.short = some (dev >>> 1))

/-- What a forward frame with a special command does to one device. -/
def lampStep (com dat : UInt8) (search : Hml) (l : Lamp) : Lamp :=
  if com = 0x00 then { l with phase := .disabled }
  else if com = 0x02 then if l.addressed dat then { l with phase := .enabled } else l
  else if com = 0x05 then
    if l.phase = .enabled ∧ l.random.addr = search.addr then { l with phase := .withdrawn } else l
  else if com = 0x0B then
    if l.phase ≠ .disabled ∧ l.random.addr = search.addr then { l with short := some (dat >>> 1) }
    else l
  else l

def lampSend (f : Forward) (n : LampNet) : LampNet :=
  if f.address.special then
    if f.address.data = 0x08 then { n with search := { n.search with h := f.data1 } }
    else if f.address.data = 0x09 then { n with search := { n.search with m := f.data1 } }
    else if f.address.data = 0x0A then { n with search := { n.search with l := f.data1 } }
    else { n with lamps := n.lamps.map (lampStep f.address.data f.data1 n.search) }
  else n

/-- Some device that takes part has a random address up to the search address. -/
def LampNet.Compares (n : LampNet) : Prop :=
  ∃ l ∈ n.lamps, l.phase = .enabled ∧ l.random.addr ≤ n.search.addr

def LampNet.Holds (n : LampNet) (k : UInt8) : Prop :=
  ∃ l ∈ n.lamps, l.phase ≠ .disabled ∧ l.short = some k

instance (n : LampNet) : Decidable n.Compares :=
  inferInstanceAs (Decidable (∃ l ∈ n.lamps, _ ∧ _))

instance (n : LampNet) (k : UInt8) : Decidable (n.Holds k) :=
  inferInstanceAs (Decidable (∃ l ∈ n.lamps, _ ∧ _))

def lampReply (f : Forward) (n : LampNet) : Option UInt8 :=
  if f.address.special then
    if f.address.data = 0x04 then if n.Compares then some 0xFF else none
    else if f.address.data = 0x0C then if n.Holds (f.data1 >>> 1) then some 0xFF else none
    else none
  else none

/-- The bus without noise, where devices that answer at once are heard as one. -/
def lampOps (cast : UInt8 → Backword) : BusOps LampNet where
  send := lampSend
  exchange f n := (lampReply f n, lampSend f n)
  cast := cast

/-- A device with the random address `a` takes part. -/
def LampNet.Active (n : LampNet) (a : Nat) : Prop :=
  ∃ l ∈ n.lamps, l.phase = .enabled ∧ l.random.addr = a

/-! ### Comparisons -/

/-- The search address that `send_compare` compares with. -/
def LampNet.loadFor (n : LampNet) (r : Hml) : SndNible → LampNet
  | .sndH => { n with search := { n.search with h := r.h } }
  | .sndM => { n with search := { n.search with m := r.m } }
  | .sndL => { n with search := { n.search with l := r.l } }
  | .sndA => { n with search := r }

/-- The world with a search address loaded. -/
def World.point (w : World LampNet) (r : Hml) : World LampNet :=
  { w with bus := { w.bus with search := r }, retry := 0 }

/-- Whether a comparison with the address is answered in the state `w`. -/
abbrev Heard (w : World LampNet) (r : Hml) : Prop := (w.point r).bus.Compares

theorem heard_iff (w : World LampNet) (r : Hml) :
    Heard w r ↔ ∃ a, w.bus.Active a ∧ a ≤ r.addr := by
  constructor
  · rintro ⟨l, hl, hphase, hle⟩
    exact ⟨_, ⟨l, hl, hphase, rfl⟩, hle⟩
  · rintro ⟨a, ⟨l, hl, hphase, rfl⟩, hle⟩
    exact ⟨l, hl, hphase, hle⟩

variable (cast : UInt8 → Backword)

theorem lampStep_id {com : UInt8} (h0 : com ≠ 0x00) (h2 : com ≠ 0x02) (h5 : com ≠ 0x05)
    (hB : com ≠ 0x0B) (dat : UInt8) (search : Hml) : lampStep com dat search = id := by
  funext l
  simp [lampStep, h0, h2, h5, hB]

theorem lampSend_step {com : UInt8} (h8 : com ≠ 0x08) (h9 : com ≠ 0x09) (hA : com ≠ 0x0A)
    (dat : UInt8) (n : LampNet) : lampSend (specialCommand com dat) n =
      { n with lamps := n.lamps.map (lampStep com dat n.search) } := by
  simp [lampSend, specialCommand, h8, h9, hA]

theorem lampStep_random (com dat : UInt8) (search : Hml) (l : Lamp) :
    (lampStep com dat search l).random = l.random := by
  unfold lampStep
  split_ifs <;> rfl

/-- Only `INITIALISE` lets a device take part. -/
theorem lampStep_enabled {com dat : UInt8} {search : Hml} {l : Lamp} (hcom : com ≠ 0x02)
    (h : (lampStep com dat search l).phase = .enabled) : l.phase = .enabled := by
  unfold lampStep at h
  split_ifs at h <;> exact h

theorem lampSend_active {f : Forward} (hf : f.address.data ≠ 0x02) {n : LampNet} {a : Nat}
    (h : (lampSend f n).Active a) : n.Active a := by
  unfold lampSend at h
  split_ifs at h
  · exact h
  · exact h
  · exact h
  · obtain ⟨l, hl, hphase, haddr⟩ := h
    obtain ⟨l, hmem, rfl⟩ := List.mem_map.mp hl
    rw [lampStep_random] at haddr
    exact ⟨l, hmem, lampStep_enabled hf hphase, haddr⟩
  · exact h

/-- `COMPARE` and `VERIFY` leave the devices as they are. -/
theorem sendReceive_lamps {f : Forward} (w : World LampNet) (hf : lampSend f w.bus = w.bus) :
    (sendReceive (lampOps cast) f).run w =
      pure (backward (lampOps cast) (lampReply f w.bus), w) := by
  cases h : lampReply f w.bus <;> simp [sendReceive, exchangeAgain, lampOps, hf, h]

theorem lampSend_compare (n : LampNet) : lampSend (specialCommand 0x04 0x00) n = n := by
  simp [lampSend, specialCommand, lampStep_id]

theorem lampSend_verify (n : LampNet) (ats : UInt8) :
    lampSend (specialCommand 0x0C ats) n = n := by
  simp [lampSend, specialCommand, lampStep_id]

theorem lampSend_randomise (n : LampNet) : lampSend (specialCommand 0x03 0x00) n = n := by
  simp [lampSend, specialCommand, lampStep_id]

theorem comparing_lampOps : Comparing (lampOps cast) World.point Heard := by
  have hload : ∀ r snd (w : World LampNet), (loadSearch (lampOps cast) r snd).run w =
      pure ((), { w with bus := w.bus.loadFor r snd }) := by
    intro r snd w
    cases snd <;> simp [loadSearch, sendWhen, lampOps, lampSend, specialCommand, LampNet.loadFor]
  have hcompare : ∀ w : World LampNet, ∃ rr,
      (sendReceive (lampOps cast) (specialCommand 0x04 0x00)).run w = pure (rr, w) ∧
        (if rr = .timeout then .no else rr) = answer w.bus.Compares := by
    intro w
    refine ⟨_, sendReceive_lamps cast w (lampSend_compare _), ?_⟩
    by_cases h : w.bus.Compares <;> simp [lampReply, specialCommand, h, backward, answer]
  refine ⟨fun _ _ _ => rfl, fun _ _ _ => Iff.rfl, ?_, ?_⟩
  · intro r w
    exact sendCompare_run_of hload hcompare r .sndA w
  · intro r snd hsnd x b w
    rw [compareNible, if_neg hsnd, sendCompare_run_of hload hcompare]
    cases snd with
    | sndA => exact absurd rfl hsnd
    | sndH | sndM | sndL => rfl

/-! ### One assignment -/

/-- The number of free slots of `GEAR_FILE`. -/
def freeSlots (gear : Nat → Gear) : Nat :=
  ((Finset.range 64).filter fun k => 64 < (gear k).shortAddr).card

theorem findAddr_full {gear : Nat → Gear} (h : freeSlots gear = 0) : findAddr gear = 200 := by
  have hnone : ((List.range 64).find? fun i => decide (64 < (gear i).shortAddr)) = none := by
    rw [List.find?_eq_none]
    intro k hk hfree
    rw [freeSlots, Finset.card_eq_zero, Finset.filter_eq_empty_iff] at h
    exact h (Finset.mem_range.mpr (List.mem_range.mp hk)) (of_decide_eq_true hfree)
  rw [findAddr, hnone]

theorem findAddr_some {gear : Nat → Gear} (h : 0 < freeSlots gear) :
    ∃ c < 64, findAddr gear = UInt8.ofNat c ∧ 64 < (gear c).shortAddr := by
  obtain ⟨k, hk⟩ := Finset.card_pos.mp h
  obtain ⟨hk64, hfree⟩ := Finset.mem_filter.mp hk
  cases hfind : (List.range 64).find? fun i => decide (64 < (gear i).shortAddr) with
  | none =>
    have hall := List.find?_eq_none.mp hfind k (List.mem_range.mpr (Finset.mem_range.mp hk64))
    exact absurd (decide_eq_true hfree) hall
  | some c =>
    have hslot := List.find?_some hfind
    refine ⟨c, List.mem_range.mp (List.mem_of_find?_eq_some hfind), ?_, of_decide_eq_true hslot⟩
    rw [findAddr, hfind]

theorem freeSlots_update {gear : Nat → Gear} {c : Nat} (hc : c < 64)
    (hfree : 64 < (gear c).shortAddr) {g : Gear} (hg : g.shortAddr ≤ 64) :
    freeSlots (Function.update gear c g) + 1 = freeSlots gear := by
  have herase : (Finset.range 64).filter (fun k => 64 < (Function.update gear c g k).shortAddr) =
      ((Finset.range 64).filter fun k => 64 < (gear k).shortAddr).erase c := by
    ext k
    simp only [Finset.mem_filter, Finset.mem_erase]
    by_cases hkc : k = c
    · subst hkc
      simp [UInt8.not_lt.mpr hg]
    · simp [hkc]
  have hmem : c ∈ (Finset.range 64).filter fun k => 64 < (gear k).shortAddr :=
    Finset.mem_filter.mpr ⟨Finset.mem_range.mpr hc, hfree⟩
  rw [freeSlots, herase, freeSlots, Finset.card_erase_add_one hmem]

/-- `AtamaYAP` with a full `GEAR_FILE` sends nothing. -/
theorem atamaYap_full {w : World LampNet} (h : freeSlots w.gear = 0) :
    (atamaYap (lampOps cast)).run w = pure (0x71, w) := by
  have hget : (get : StateM (World LampNet) (World LampNet)).run w = pure (w, w) := rfl
  have hlt : (64 : UInt8) < 200 := by decide
  simp only [atamaYap, StateT.run_bind, hget, pure_bind, findAddr_full h]
  rw [if_pos hlt]
  rfl

theorem program_active (ats : UInt8) (n : LampNet) (a : Nat) :
    (lampSend (specialCommand 0x0B ats) n).Active a ↔ n.Active a := by
  have hphase : ∀ l, (lampStep 0x0B ats n.search l).phase = l.phase := by
    intro l
    by_cases h : l.phase ≠ .disabled ∧ l.random.addr = n.search.addr <;> simp [lampStep, h]
  rw [lampSend_step (by decide) (by decide) (by decide)]
  simp only [LampNet.Active, List.mem_map, exists_exists_and_eq_and, hphase, lampStep_random]

theorem program_holds (ats : UInt8) {n : LampNet} (h : n.Active n.search.addr) :
    (lampSend (specialCommand 0x0B ats) n).Holds (ats >>> 1) := by
  obtain ⟨l, hl, hphase, haddr⟩ := h
  have hne : l.phase ≠ .disabled := by
    rw [hphase]
    decide
  have hstep : lampStep 0x0B ats n.search l = { l with short := some (ats >>> 1) } := by
    simp [lampStep, hne, haddr]
  rw [lampSend_step (by decide) (by decide) (by decide)]
  refine ⟨lampStep 0x0B ats n.search l, List.mem_map_of_mem hl, ?_⟩
  rw [hstep]
  exact ⟨hne, rfl⟩

theorem withdraw_active (n : LampNet) (a : Nat) :
    (lampSend (specialCommand 0x05 0x00) n).Active a ↔ n.Active a ∧ a ≠ n.search.addr := by
  have hstep : ∀ l : Lamp, (lampStep 0x05 0x00 n.search l).phase = .enabled ∧
      (lampStep 0x05 0x00 n.search l).random.addr = a ↔
        (l.phase = .enabled ∧ l.random.addr = a) ∧ a ≠ n.search.addr := by
    intro l
    have hunfold : lampStep 0x05 0x00 n.search l =
        if l.phase = .enabled ∧ l.random.addr = n.search.addr then
          { l with phase := .withdrawn } else l := by
      simp [lampStep]
    rw [hunfold]
    by_cases h : l.phase = .enabled ∧ l.random.addr = n.search.addr
    · rw [if_pos h]
      constructor
      · rintro ⟨hphase, -⟩
        cases hphase
      · rintro ⟨⟨-, haddr⟩, hne⟩
        exact absurd (haddr ▸ h.2) hne
    · rw [if_neg h]
      constructor
      · rintro ⟨hphase, rfl⟩
        exact ⟨⟨hphase, rfl⟩, fun heq => h ⟨hphase, heq⟩⟩
      · exact And.left
  rw [lampSend_step (by decide) (by decide) (by decide)]
  simp only [LampNet.Active, List.mem_map, exists_exists_and_eq_and, hstep]
  constructor
  · rintro ⟨l, hl, h, hne⟩
    exact ⟨⟨l, hl, h⟩, hne⟩
  · rintro ⟨⟨l, hl, h⟩, hne⟩
    exact ⟨l, hl, h, hne⟩

/-- With a device at the search address and a free slot, the assignment succeeds: all the devices at
that address are withdrawn. -/
theorem atamaYap_lamps {w : World LampNet} {a : Nat} (hsearch : w.bus.search.addr = a)
    (h : w.bus.Active a) (hfree : 0 < freeSlots w.gear) :
    ∃ w', (atamaYap (lampOps cast)).run w = pure (0xFF, w') ∧
      freeSlots w'.gear + 1 = freeSlots w.gear ∧
        ∀ b, w'.bus.Active b ↔ w.bus.Active b ∧ b ≠ a := by
  obtain ⟨c, hc, haddr, hslot⟩ := findAddr_some hfree
  have htoNat : (UInt8.ofNat c).toNat = c := UInt8.toNat_ofNat_of_lt' (show c < 256 by omega)
  have hle : ¬64 < UInt8.ofNat c := by
    rw [UInt8.lt_iff_toNat_lt, htoNat]
    simp only [UInt8.reduceToNat]
    omega
  obtain ⟨ats, hats⟩ : ∃ ats, ats = UInt8.ofNat c <<< 1 ||| 1 := ⟨_, rfl⟩
  obtain ⟨n, hn⟩ : ∃ n, n = lampSend (specialCommand 0x0B ats)
      (lampSend (specialCommand 0x0B ats) w.bus) := ⟨_, rfl⟩
  have hprogram : ∀ b, n.Active b ↔ w.bus.Active b := by
    intro b
    rw [hn, program_active, program_active]
  have hholds : n.Holds (ats >>> 1) := by
    rw [hn]
    apply program_holds
    rw [program_active]
    exact hsearch ▸ h
  have hkontrol : (atamaVeKontrol (lampOps cast) ats).run w = pure (.yes, { w with bus := n }) := by
    have hreply : lampReply (specialCommand 0x0C ats) n = some 0xFF := by
      simp [lampReply, specialCommand, hholds]
    have hsend : (lampOps cast).send = lampSend := rfl
    simp only [atamaVeKontrol, StateT.run_bind, send_run, pure_bind, hsend, ← hn]
    rw [sendReceive_lamps cast _ (lampSend_verify _ _), hreply]
    simp [backward]
  have hget : (get : StateM (World LampNet) (World LampNet)).run w = pure (w, w) := rfl
  refine ⟨
    { bus := lampSend (specialCommand 0x05 0x00) n
      gear := Function.update w.gear c ⟨UInt8.ofNat c, 0x06, 0⟩
      init := w.init ++ [UInt8.ofNat c]
      retry := w.retry }, ?_, ?_, ?_⟩
  · simp only [atamaYap, atamaTekrar, StateT.run_bind, hget, pure_bind, haddr, if_neg hle, ← hats,
      hkontrol]
    simp only [ne_eq, not_true_eq_false, if_false, StateT.run_pure, pure_bind, if_true, atamaTamam,
      StateT.run_bind, send_run, htoNat]
    rfl
  · refine freeSlots_update hc hslot ?_
    rw [UInt8.le_iff_toNat_le, htoNat]
    simp only [UInt8.reduceToNat]
    omega
  · intro b
    have hsame : n.search = w.bus.search := by
      rw [hn]
      rfl
    rw [withdraw_active, hprogram, hsame, hsearch]

end DaliController.Search
