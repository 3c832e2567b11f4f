import DaliController.Lib.Runs
import DaliController.Search.Frames
import DaliController.Udp.Gateway

/-! `GEAR_FILE` over whole runs.  Slot `k` is free or belongs to short address `k`, whoever wrote
it: `config`, `clear_number`, the addressing, or a scan of the cable or of the wireless network.  So
the slots can be read as a table of addresses. -/

namespace DaliController.Search

open Dali Udp Frame

/-- The record of a free slot. -/
def freeGear : Gear := ⟨200, 0, 0⟩

/-- The loop of `config` and of `clear_number` over the slots. -/
def fillFree (gear : Nat → Gear) : Nat → Gear :=
  (List.range 64).foldl (fun g i => Function.update g i freeGear) gear

/-- `file_empty`.  What is read behind the end of the file stays as the caller zeroed it. -/
def emptyFile : Nat → Gear := fun _ => ⟨0, 0, 0⟩

/-- The table that `config` creates. -/
def configTable : Nat → Gear := fillFree emptyFile

/-- What `list_number` reports of a slot. -/
structure ListEntry where
  addr : UInt8
  type : UInt8
  extType : UInt8
  wifi : Bool
  deriving DecidableEq, Repr

def listNumber (gear : Nat → Gear) : List ListEntry :=
  (List.range 64).filterMap fun i =>
    let ff := gear i
    if ff.shortAddr < 64 then some ⟨ff.shortAddr, ff.type, ff.extType, decide (0x0A ≤ ff.type)⟩
    else none

/-- A query of the lamp with short address `i`. -/
def query (i : Nat) (data1 : UInt8) : Forward where
  address :=
    { shortAdr := true
      groupAdr := false
      broadcastAdr := false
      special := false
      data := UInt8.ofNat i }
  data1 := data1
  type := .block16

section Program

variable {σ : Type} (ops : BusOps σ) (udp : UdpOps σ) (package : Forward → BitVec 32)

def writeGear (i : Nat) (zz : Gear) : StateM (World σ) Unit :=
  modify fun w => { w with gear := Function.update w.gear i zz }

/-- `send_and_receive_dali` with `fast` set. -/
def radioQuery (f : Forward) : StateM (World σ) UInt8 :=
  modifyGet fun w =>
    let r := sendAndReceiveDali udp (package f) true w.bus
    (r.1, { w with bus := r.2 })

/-- Slot `i` of `Device_Control_cable`, and the record if a lamp answered. -/
def cableSlot (kayit : Bool) (i : Nat) : StateM (World σ) (Option Gear) := do
  match ← exchange ops (query i 0x99) with
  | none => return none
  | some type =>
    let ext ← exchange ops (query i 0xA7)
    let zz : Gear := ⟨UInt8.ofNat i, type, ext.getD type⟩
    if kayit then writeGear i zz
    return some zz

/-- Slot `i` of `Device_Control_Wireless`. -/
def wirelessSlot (kayit : Bool) (i : Nat) : StateM (World σ) (Option Gear) := do
  let vv ← radioQuery udp package (query i 0x99)
  let kk := if vv = 0x71 then 0 else vv
  if 0 < kk then
    let kk0 ← radioQuery udp package (query i 0xA7)
    let zz : Gear := ⟨UInt8.ofNat i, kk, if kk0 ≠ 0x71 then kk0 else kk⟩
    if kayit then writeGear i zz
    return some zz
  else return none

/-- A scan over slots, and the records that it reports. -/
def scan (slot : Nat → StateM (World σ) (Option Gear)) : List Nat → StateM (World σ) (List Gear)
  | [] => return []
  | i :: is => do
    let zz ← slot i
    let rest ← scan slot is
    return zz.toList ++ rest

def deviceControlCable (kayit : Bool) : StateM (World σ) (List Gear) :=
  scan (cableSlot ops kayit) (List.range 64)

def deviceControlWireless (kayit : Bool) : StateM (World σ) (List Gear) :=
  scan (wirelessSlot udp package kayit) (List.range 64)

def clearNumber : StateM (World σ) Unit := do
  modify fun w => { w with gear := emptyFile }
  modify fun w => { w with gear := fillFree w.gear }

def deviceControlBoth (kayit : Bool) : StateM (World σ) (List Gear) := do
  let wired ← deviceControlCable ops kayit
  let radio ← deviceControlWireless udp package kayit
  return wired ++ radio

/-- The branches of `search`. -/
def search (kayit cable : UInt8) : StateM (World σ) (List Gear) :=
  if cable = 1 then deviceControlCable ops (kayit != 0)
  else if cable = 0 then deviceControlWireless udp package (kayit != 0)
  else if cable = 2 then deviceControlBoth ops udp package (kayit != 0)
  else return []

end Program

/-- A command that uses the table.  `init` ends if its loop does in `fuel` rounds. -/
inductive TableCommand
  | clearNumber
  | search (kayit cable : UInt8)
  | init (type : UInt8) (fuel : Nat)
  deriving DecidableEq, Repr

section Run

variable {σ : Type} (ops : BusOps σ) (udp : UdpOps σ) (package : Forward → BitVec 32)

def tableStep (w : World σ) : TableCommand → Option (World σ)
  | .clearNumber => some (clearNumber.run w).2
  | .search kayit cable => some ((search ops udp package kayit cable).run w).2
  | .init type fuel =>
    let r := Id.run ((searchDevice ops type fuel).run w)
    if r.1 then some r.2 else none

end Run

/-! ### The invariant -/

/-- Each slot is free or belongs to its own short address. -/
def InPlace (gear : Nat → Gear) : Prop :=
  ∀ k < 64, (gear k).shortAddr = 200 ∨ (gear k).shortAddr = UInt8.ofNat k

theorem fillFree_get (gear : Nat → Gear) {k : Nat} (hk : k < 64) : fillFree gear k = freeGear := by
  have hfill (is : List Nat) (g : Nat → Gear) (h : k ∈ is ∨ g k = freeGear) :
      is.foldl (fun g i => Function.update g i freeGear) g k = freeGear := by
    induction is generalizing g with
    | nil => exact h.resolve_left List.not_mem_nil
    | cons i is ih =>
      rw [List.foldl_cons]
      apply ih
      rcases eq_or_ne k i with rfl | hne
      · exact Or.inr (Function.update_self ..)
      · refine h.imp (fun hmem => (List.mem_cons.mp hmem).resolve_left hne) fun hfree => ?_
        rw [Function.update_of_ne hne, hfree]
  exact hfill (List.range 64) gear (Or.inl (List.mem_range.mpr hk))

theorem inPlace_fillFree (gear : Nat → Gear) : InPlace (fillFree gear) := by
  intro k hk
  rw [fillFree_get gear hk]
  exact Or.inl rfl

theorem InPlace.update {gear : Nat → Gear} (h : InPlace gear) {i : Nat} {zz : Gear}
    (hzz : i < 64 → zz.shortAddr = UInt8.ofNat i) : InPlace (Function.update gear i zz) := by
  intro k hk
  rcases eq_or_ne k i with rfl | hne
  · rw [Function.update_self]
    exact Or.inr (hzz hk)
  · rw [Function.update_of_ne hne]
    exact h k hk

/-- A program that leaves the table in place. -/
def KeepsPlace {σ : Type} (w w' : World σ) : Prop := InPlace w.gear → InPlace w'.gear

section Keeps

variable {σ : Type}

instance : IsPreorder (World σ) KeepsPlace where
  refl _ := id
  trans _ _ _ h1 h2 := h2 ∘ h1

variable {ops : BusOps σ} {udp : UdpOps σ} {package : Forward → BitVec 32}

theorem keepsPlace_send (f : Forward) : Keeps KeepsPlace (send ops f) := keeps_modify fun _ => id

theorem keepsPlace_exchange (f : Forward) : Keeps KeepsPlace (exchange ops f) :=
  keeps_modifyGet fun _ => id

theorem keepsPlace_radioQuery (f : Forward) : Keeps KeepsPlace (radioQuery udp package f) :=
  keeps_modifyGet fun _ => id

theorem keepsPlace_writeGear (i : Nat) {zz : Gear} (hzz : zz.shortAddr = UInt8.ofNat i) :
    Keeps (KeepsPlace (σ := σ)) (writeGear i zz) :=
  keeps_modify fun _ h => h.update fun _ => hzz

theorem keepsPlace_atamaTamam (abc : UInt8) : Keeps KeepsPlace (atamaTamam ops abc) := by
  refine keeps_bind (keeps_modify fun _ h => h.update fun _ => ?_) fun _ => ?_
  · exact UInt8.ofNat_toNat.symm
  · exact keeps_bind (keepsPlace_send _) fun _ => keeps_pure _

/-- The addressing writes slot `abc` for address `abc` only. -/
theorem allowsSearch_keepsPlace : AllowsSearch ops KeepsPlace where
  high _ := keepsPlace_send _
  mid _ := keepsPlace_send _
  low _ := keepsPlace_send _
  compare := keepsPlace_exchange _
  retry _ := keeps_modify fun _ => id
  terminate := keepsPlace_send _
  initialise _ := keepsPlace_send _
  randomise := keepsPlace_send _
  assign := keeps_atamaYap ⟨fun _ => keepsPlace_send _, fun _ => keepsPlace_exchange _,
    keepsPlace_atamaTamam⟩

theorem keepsPlace_scan {slot : Nat → StateM (World σ) (Option Gear)}
    (h : ∀ i, Keeps KeepsPlace (slot i)) (is : List Nat) : Keeps KeepsPlace (scan slot is) := by
  induction is with
  | nil => exact keeps_pure _
  | cons i is ih => exact keeps_bind (h i) fun _ => keeps_bind ih fun _ => keeps_pure _

/-- The write of a scan, if it is to be saved. -/
theorem keepsPlace_save (kayit : Bool) (i : Nat) {zz : Gear} (hzz : zz.shortAddr = UInt8.ofNat i) :
    Keeps (KeepsPlace (σ := σ)) (do
      if kayit then writeGear i zz
      return some zz) :=
  keeps_ite (keeps_bind (keepsPlace_writeGear i hzz) fun _ => keeps_pure _) (keeps_pure _)

theorem keepsPlace_cableSlot (kayit : Bool) (i : Nat) :
    Keeps KeepsPlace (cableSlot ops kayit i) := by
  apply keeps_bind (keepsPlace_exchange _)
  intro kk
  cases kk with
  | none => exact keeps_pure _
  | some type =>
    apply keeps_bind (keepsPlace_exchange _)
    intro ext
    exact keepsPlace_save kayit i rfl

theorem keepsPlace_wirelessSlot (kayit : Bool) (i : Nat) :
    Keeps KeepsPlace (wirelessSlot udp package kayit i) := by
  apply keeps_bind (keepsPlace_radioQuery _)
  intro vv
  refine keeps_ite (p := 0 < if vv = 0x71 then 0 else vv) ?_ (keeps_pure _)
  apply keeps_bind (keepsPlace_radioQuery _)
  intro kk0
  exact keepsPlace_save kayit i rfl

theorem keepsPlace_search (kayit cable : UInt8) :
    Keeps KeepsPlace (search ops udp package kayit cable) := by
  have hwired : Keeps KeepsPlace (deviceControlCable ops (kayit != 0)) :=
    keepsPlace_scan (keepsPlace_cableSlot _) _
  have hradio : Keeps KeepsPlace (deviceControlWireless udp package (kayit != 0)) :=
    keepsPlace_scan (keepsPlace_wirelessSlot _) _
  have hboth : Keeps KeepsPlace (deviceControlBoth ops udp package (kayit != 0)) :=
    keeps_bind hwired fun _ => keeps_bind hradio fun _ => keeps_pure _
  exact keeps_ite hwired (keeps_ite hradio (keeps_ite hboth (keeps_pure _)))

theorem tableStep_inPlace (w : World σ) (c : TableCommand) (w' : World σ) (h : InPlace w.gear)
    (hstep : tableStep ops udp package w c = some w') : InPlace w'.gear := by
  cases c with
  | clearNumber =>
    cases hstep
    exact inPlace_fillFree _
  | search kayit cable =>
    cases hstep
    exact keepsPlace_search kayit cable w h
  | init type fuel =>
    simp only [tableStep] at hstep
    split at hstep
    · cases hstep
      exact keeps_searchDevice allowsSearch_keepsPlace type fuel w h
    · cases hstep

end Keeps

/-! ### What the readers find -/

/-- `find_addr` returns the smallest free slot, and 200 when there is none. -/
structure FirstFree (gear : Nat → Gear) (r : UInt8) : Prop where
  full : r = 200 ↔ ∀ k < 64, (gear k).shortAddr ≠ 200
  free : r ≠ 200 → r.toNat < 64 ∧ (gear r.toNat).shortAddr = 200 ∧
    ∀ j < r.toNat, (gear j).shortAddr ≠ 200

/-- The entries are those of the occupied slots, in order. -/
structure Reports (gear : Nat → Gear) (es : List ListEntry) : Prop where
  increasing : (es.map ListEntry.addr).Pairwise (· < ·)
  occupied : ∀ a, a ∈ es.map ListEntry.addr ↔ a.toNat < 64 ∧ (gear a.toNat).shortAddr ≠ 200
  slot : ∀ e ∈ es, e.type = (gear e.addr.toNat).type ∧ e.extType = (gear e.addr.toNat).extType

/-- In place, a slot is free for `find_addr` when its record says so. -/
theorem InPlace.free_iff {gear : Nat → Gear} (h : InPlace gear) {k : Nat} (hk : k < 64) :
    64 < (gear k).shortAddr ↔ (gear k).shortAddr = 200 := by
  rcases h k hk with hfree | haddr
  · rw [hfree]
    exact iff_of_true (by decide) rfl
  · have hval : (gear k).shortAddr.toNat = k := by
      rw [haddr, UInt8.toNat_ofNat_of_lt' (Nat.lt_trans hk (by decide))]
    refine iff_of_false (fun hlt => ?_) fun heq => ?_
    · rw [UInt8.lt_iff_toNat_lt, hval] at hlt
      exact absurd (Nat.lt_trans hlt hk) (by decide)
    · rw [heq] at hval
      exact absurd (hval ▸ hk) (by decide)

theorem InPlace.occupied_iff {gear : Nat → Gear} (h : InPlace gear) {k : Nat} (hk : k < 64) :
    (gear k).shortAddr < 64 ↔ (gear k).shortAddr ≠ 200 := by
  rcases h k hk with hfree | haddr
  · rw [hfree]
    exact iff_of_false (by decide) fun h => h rfl
  · have hval : (gear k).shortAddr.toNat = k := by
      rw [haddr, UInt8.toNat_ofNat_of_lt' (Nat.lt_trans hk (by decide))]
    refine iff_of_true ?_ fun heq => ?_
    · rw [UInt8.lt_iff_toNat_lt, hval]
      exact hk
    · rw [heq] at hval
      exact absurd (hval ▸ hk) (by decide)

theorem findAddr_firstFree {gear : Nat → Gear} (h : InPlace gear) :
    FirstFree gear (findAddr gear) := by
  unfold findAddr
  cases hfind : (List.range 64).find? fun i => decide (64 < (gear i).shortAddr) with
  | none =>
    refine ⟨iff_of_true rfl fun k hk hfree => ?_, fun hne => absurd rfl hne⟩
    have hk' := List.find?_eq_none.mp hfind k (List.mem_range.mpr hk)
    exact hk' (decide_eq_true ((h.free_iff hk).mpr hfree))
  | some i =>
    obtain ⟨hi, hmem, hbefore⟩ := List.find?_range_eq_some.mp hfind
    have hlt : i < 64 := List.mem_range.mp hmem
    have hfree := (h.free_iff hlt).mp (of_decide_eq_true hi)
    have hval : (UInt8.ofNat i).toNat = i := UInt8.toNat_ofNat_of_lt' (Nat.lt_trans hlt (by decide))
    have hne : UInt8.ofNat i ≠ 200 := by
      intro he
      rw [he] at hval
      exact absurd (hval ▸ hlt) (by decide)
    refine ⟨iff_of_false hne fun hall => hall i hlt hfree, fun _ => ?_⟩
    rw [hval]
    refine ⟨hlt, hfree, fun j hj hfree' => ?_⟩
    have hj' := hbefore j hj
    rw [decide_eq_true ((h.free_iff (Nat.lt_trans hj hlt)).mpr hfree')] at hj'
    cases hj'

/-- The entry of an occupied slot. -/
def entryOf (gear : Nat → Gear) (i : Nat) : ListEntry :=
  ⟨UInt8.ofNat i, (gear i).type, (gear i).extType, decide (0x0A ≤ (gear i).type)⟩

theorem listNumber_eq {gear : Nat → Gear} (h : InPlace gear) :
    listNumber gear =
      ((List.range 64).filter fun i => decide ((gear i).shortAddr ≠ 200)).map (entryOf gear) := by
  rw [← List.filterMap_eq_map, List.filterMap_filter, listNumber]
  refine List.filterMap_congr fun i hi => ?_
  have hlt : i < 64 := List.mem_range.mp hi
  by_cases hocc : (gear i).shortAddr ≠ 200
  · have haddr : (gear i).shortAddr = UInt8.ofNat i := (h i hlt).resolve_left hocc
    rw [if_pos ((h.occupied_iff hlt).mpr hocc), if_pos (decide_eq_true hocc), haddr]
    rfl
  · rw [if_neg (mt (h.occupied_iff hlt).mp hocc), if_neg (by simpa using hocc)]

theorem toNat_slot {i : Nat} (hi : i < 64) : (UInt8.ofNat i).toNat = i :=
  UInt8.toNat_ofNat_of_lt' (Nat.lt_trans hi (by decide))

theorem listNumber_reports {gear : Nat → Gear} (h : InPlace gear) :
    Reports gear (listNumber gear) := by
  rw [listNumber_eq h]
  refine ⟨?_, fun a => ?_, fun e he => ?_⟩
  · rw [List.map_map, List.pairwise_map]
    apply List.Pairwise.filter
    refine List.pairwise_lt_range.imp_of_mem fun {i j} hi hj hij => ?_
    show UInt8.ofNat i < UInt8.ofNat j
    rw [UInt8.lt_iff_toNat_lt, toNat_slot (List.mem_range.mp hi), toNat_slot (List.mem_range.mp hj)]
    exact hij
  · simp only [List.map_map, List.mem_map, List.mem_filter, List.mem_range, decide_eq_true_eq]
    constructor
    · rintro ⟨i, ⟨hi, hocc⟩, rfl⟩
      show (UInt8.ofNat i).toNat < 64 ∧ (gear (UInt8.ofNat i).toNat).shortAddr ≠ 200
      rw [toNat_slot hi]
      exact ⟨hi, hocc⟩
    · rintro ⟨ha, hocc⟩
      exact ⟨a.toNat, ⟨ha, hocc⟩, UInt8.ofNat_toNat⟩
  · obtain ⟨i, hi, rfl⟩ := List.mem_map.mp he
    have hlt : i < 64 := List.mem_range.mp (List.mem_filter.mp hi).1
    show (gear i).type = (gear (UInt8.ofNat i).toNat).type ∧
      (gear i).extType = (gear (UInt8.ofNat i).toNat).extType
    rw [toNat_slot hlt]
    exact ⟨rfl, rfl⟩

/-- Between the commands of any run the table is in place, and both readers find what it holds. -/
theorem gearFile_run {σ : Type} {ops : BusOps σ} {udp : UdpOps σ} {package : Forward → BitVec 32}
    {w w' : World σ} {cs : List TableCommand} (hw : w.gear = configTable)
    (hrun : Runs.run (tableStep ops udp package) w cs = some w') :
    InPlace w'.gear ∧ FirstFree w'.gear (findAddr w'.gear) ∧
      Reports w'.gear (listNumber w'.gear) := by
  have hinit : InPlace w.gear := by
    rw [hw]
    exact inPlace_fillFree _
  have h : InPlace w'.gear :=
    Runs.run_invariant (I := fun w => InPlace w.gear) tableStep_inPlace hinit hrun
  exact ⟨h, findAddr_firstFree h, listNumber_reports h⟩

/-- A cable on which only lamp 3 answers, as a lamp of type 6. -/
def oneLamp : BusOps Unit where
  send _ _ := ()
  exchange f _ := (if f.address = (query 3 0x99).address then some 0x06 else none, ())
  cast := Backword.other

/-- A gateway that answers every request with the text `17`. -/
def chatty : UdpOps Unit where
  sendAndReceive _ _ := (some [0x31, 0x37], ())

def newTable : World Unit := ⟨(), configTable, [], 0⟩

theorem gearFile_run_search : ∃ w, Runs.run (tableStep oneLamp chatty fun _ => 0) newTable
      [.search 1 1, .init 0 1, .search 1 0, .clearNumber, .search 0 2, .search 1 1] = some w ∧
    InPlace w.gear ∧ FirstFree w.gear (findAddr w.gear) ∧ Reports w.gear (listNumber w.gear) := by
  have hends : (Runs.run (tableStep oneLamp chatty fun _ => 0) newTable
      [.search 1 1, .init 0 1, .search 1 0, .clearNumber, .search 0 2, .search 1 1]).isSome := by
    decide +kernel
  obtain ⟨w, hw⟩ := Option.isSome_iff_exists.mp hends
  exact ⟨w, hw, gearFile_run rfl hw⟩

end DaliController.Search
