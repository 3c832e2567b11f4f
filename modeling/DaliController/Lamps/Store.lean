import DaliController.Lamps.Settings

/-! The lamps as a store.  Whatever messages are sent in whatever order, every lamp keeps what the
last message for it has set, and what is read is what is kept.  Messages for other lamps change
nothing, although every value goes to all lamps first. -/

namespace DaliController.Lamps.Settings

open Confirm Dali Schedule Udp

/-! ### What is to be kept -/

/-- What a lamp keeps, and what it makes of a value. -/
structure Kept where
  medium : Medium
  short : UInt8
  groups : UInt8 → Bool
  registers : Register → UInt8
  keep : Register → UInt8 → UInt8
  defaults : Register → UInt8
  fade : UInt8 → UInt8 → UInt8

namespace Kept

variable (k : Kept)

def Concerned (adr type : UInt8) : Prop := adr = k.short ∧ Covers type k.medium

instance (adr type : UInt8) : Decidable (k.Concerned adr type) :=
  inferInstanceAs (Decidable (_ ∧ _))

def set (r : Register) (value : UInt8) : Kept :=
  { k with registers := Function.update k.registers r value }

end Kept

def sceneRegister (scn : UInt8) : Register := .scene (sceneOf scn)

/-- The register of each of the seven messages. -/
def fadeRegister (comm : Fin 7) : Register :=
  match comm with
  | 0 => .fadeRate
  | 1 => .fadeTime
  | 2 => .extFade
  | 3 => .failLevel
  | 4 => .powerOnLevel
  | 5 => .maxLevel
  | 6 => .minLevel

/-- What a lamp keeps after a message. -/
def Kept.after (k : Kept) : Message → Kept
  | .setScene adr scn val typ =>
    if k.Concerned adr typ then k.set (sceneRegister scn) (k.keep (sceneRegister scn) val) else k
  | .clearScene adr scn typ => if k.Concerned adr typ then k.set (sceneRegister scn) 0xFF else k
  | .setFade comm adr val typ =>
    if k.Concerned adr typ then k.set (fadeRegister comm) (k.keep (fadeRegister comm) val) else k
  | .setGurup c =>
    if k.Concerned c.adres c.type then
      { k with groups := Function.update k.groups (c.gurup - 1) (decide (c.yaz = 1)) }
    else k
  | .dalireset adr typ =>
    if k.Concerned adr typ then { k with groups := fun _ => false, registers := k.defaults } else k
  | .arcPower .. | .off .. | .action .. | .sRefresh .. | .sReset .. => k
  | .getScene .. | .getDetail .. | .getGurup .. => k

/-- The medium that a query with this type goes to. -/
def mediumOf (type : UInt8) : Medium := if type < 0x0A then .cable else .radio

/-- A value of the lamp that a query is for.  Behind the gateway, 0x71 stands for no reply. -/
def readOf (ks : List Kept) (adr type : UInt8) (value : Kept → UInt8) : Option UInt8 :=
  ((ks.find? fun k => decide (k.medium = mediumOf type ∧ k.short = adr)).map value).filter
    fun b => decide (type < 0x0A ∨ b ≠ 0x71)

def sceneReport (ks : List Kept) (adr scn type : UInt8) : Report :=
  let v := readOf ks adr type fun k => k.registers (sceneRegister scn)
  .sceneStatus adr scn (v.getD 0) v.isNone

def groupReport (ks : List Kept) (adr type : UInt8) : Report :=
  let low := readOf ks adr type fun k => groupByte k.groups 0
  let high := readOf ks adr type fun k => groupByte k.groups 1
  .group adr (low.getD 0) (high.getD 0) (low.isNone || high.isNone)

/-- The status byte is not kept: any reply will do. -/
def detailReport (ks : List Kept) (adr type : UInt8) (glob : Option UInt8) : Report :=
  let read r := readOf ks adr type fun k => k.registers r
  let fade := readOf ks adr type fun k => k.fade (k.registers .fadeTime) (k.registers .fadeRate)
  .getDetail adr
    ⟨(read .minLevel).getD 0, (read .maxLevel).getD 0, (read .failLevel).getD 0, fade.getD 0,
      (read .extFade).getD 0, (read .powerOnLevel).getD 0, glob.getD 0⟩
    ((read .minLevel).isNone || (read .maxLevel).isNone || (read .failLevel).isNone ||
      (read .powerOnLevel).isNone || fade.isNone || (read .extFade).isNone || glob.isNone)

/-- The report that a message is to send when the lamps keep `ks` after it. -/
def Message.Reports (ks : List Kept) (r : Option Report) : Message → Prop
  | .getScene adr scn typ | .setScene adr scn _ typ | .clearScene adr scn typ =>
    r = some (sceneReport ks adr scn typ)
  | .getGurup adr typ => r = some (groupReport ks adr typ)
  | .setGurup c => r = some (groupReport ks c.adres c.type)
  | .getDetail adr typ => ∃ glob, r = some (detailReport ks adr typ glob)
  | .sRefresh adr _ => ∃ power error, r = some (.status adr 0 power (decide (0 < power)) error)
  | .arcPower adr grp power => r = some (.status adr grp (if power = 255 then 254 else power)
      (decide (0 < if power = 255 then 254 else power)) false)
  | .off adr grp => r = some (.status adr grp 0 false false)
  | .action .. | .dalireset .. | .sReset .. | .setFade .. => r = none

/-- The reports of a list of messages, each of them sent when the lamps keep what the messages so
far have set. -/
def Served (ks : List Kept) : List Message → List (Option Report) → Prop
  | [], rs => rs = []
  | m :: ms, rs => ∃ r rest, rs = r :: rest ∧ m.Reports (ks.map fun k => k.after m) r ∧
      Served (ks.map fun k => k.after m) ms rest

/-! ### What is assumed -/

/-- `package_address` encodes lamps, groups, all lamps and the transfer register as DALI does. -/
structure EncodesAll (packageAddress : Address → UInt8) : Prop
    extends Encodes packageAddress where
  level : ∀ a < 64, packageAddress { shortAdr := true, arcPower := true, data := a } = 2 * a
  all : ∀ arc, packageAddress { broadcastAdr := true, arcPower := arc, data := 255 } =
    if arc then 0xFE else 0xFF
  dtr : packageAddress { special := true, data := 0x01 } = 0xA3

/-- A lamp, a group from 1 on, or all lamps. -/
def Addressed (adr gurup : UInt8) : Prop :=
  gurup = 0 ∧ (adr < 64 ∨ adr = 255) ∨ gurup ≠ 0 ∧ 1 ≤ adr ∧ adr ≤ 16

/-- The parameters are in range. -/
def Message.Valid : Message → Prop
  | .arcPower adr grp _ | .off adr grp | .action adr grp _ => Addressed adr grp
  | .dalireset adr _ | .sRefresh adr _ | .sReset adr _ | .setFade _ adr _ _ => adr < 64
  | .getDetail adr _ | .getGurup adr _ => adr < 64
  | .getScene adr scn _ | .setScene adr scn _ _ | .clearScene adr scn _ => adr < 64 ∧ scn < 16
  | .setGurup c => c.Valid

/-! ### One lamp -/

section Gear

variable {ρ : Type}

/-- What is kept of a lamp. -/
def ControlGear.kept (g : ControlGear ρ) : Kept :=
  ⟨g.medium, g.short, g.groups, g.registers, g.kind.keep, g.kind.defaults, g.kind.fade⟩

theorem heed_kept (g : ControlGear ρ) (pk : Package) : (g.heed pk).kept = g.kept := by
  unfold ControlGear.heed
  split <;> rfl

theorem heed_configures (g : ControlGear ρ) (pk f : Package) :
    (g.heed pk).configures f = g.configures f := by
  unfold ControlGear.heed
  split <;> rfl

theorem configure_medium (g : ControlGear ρ) (pk : Package) :
    (g.configure pk).medium = g.medium := by
  unfold ControlGear.configure
  repeat' split
  all_goals rfl

theorem receive_medium (d : Device (ControlGear ρ) Package) (pk : Package) :
    (d.receive (gearRules ρ) pk).state.medium = d.state.medium := by
  unfold Device.receive
  split
  · split
    · exact configure_medium d.state pk
    · rfl
  · exact congrArg Kept.medium (heed_kept d.state pk)

/-- The frames on one medium. -/
def framesOn (m : Medium) (fs : List (Medium × Package)) : List Package :=
  (fs.filter fun f => decide (m = f.1)).map Prod.snd

theorem foldl_hear (fs : List (Medium × Package)) (d : Device (ControlGear ρ) Package) :
    fs.foldl (fun d f => hear f d) d =
      (framesOn d.state.medium fs).foldl (Device.receive (gearRules ρ)) d := by
  induction fs generalizing d with
  | nil => rfl
  | cons f fs ih =>
    rw [List.foldl_cons, ih]
    unfold hear framesOn
    by_cases hm : d.state.medium = f.1
    · rw [if_pos hm, receive_medium]
      simp [hm]
    · rw [if_neg hm]
      simp [hm]

/-- The blocks that a lamp gets when they are sent with this type. -/
def blocksOn (m : Medium) (type : UInt8) (bs : List (Block Package)) : List (Block Package) :=
  if Covers type m then bs else []

/-- The frames are these blocks, on each medium that the type covers. -/
def Sends (fs : List (Medium × Package)) (type : UInt8) (bs : List (Block Package)) : Prop :=
  ∀ m, framesOn m fs = (blocksOn m type bs).flatMap Block.frames

theorem sends_daliSend (pk : Package) (type : UInt8) :
    Sends (daliSend pk type) type [.single pk] := by
  intro m
  unfold framesOn blocksOn daliSend Covers
  by_cases hall : type = 0x99
  · cases m <;> simp [hall, Block.frames]
  · by_cases hcable : type < 0x0A <;> cases m <;> simp [hall, hcable, Block.frames]

theorem framesOn_append (m : Medium) (fs fs' : List (Medium × Package)) :
    framesOn m (fs ++ fs') = framesOn m fs ++ framesOn m fs' := by
  rw [framesOn, List.filter_append, List.map_append]
  rfl

theorem Sends.append {fs fs' : List (Medium × Package)} {type : UInt8}
    {bs bs' : List (Block Package)} (h : Sends fs type bs) (h' : Sends fs' type bs') :
    Sends (fs ++ fs') type (bs ++ bs') := by
  intro m
  rw [framesOn_append, h m, h' m]
  unfold blocksOn
  split
  · exact List.flatMap_append.symm
  · rfl

theorem sends_daliDoubleSend (pk : Package) (type : UInt8) :
    Sends (daliDoubleSend pk type) type [.double pk] := by
  intro m
  rw [daliDoubleSend, framesOn_append, sends_daliSend]
  unfold blocksOn
  split <;> rfl

/-- A lamp goes through the blocks that are sent on its medium. -/
theorem foldl_sends {fs : List (Medium × Package)} {type : UInt8} {bs : List (Block Package)}
    (h : Sends fs type bs) (hbs : ∀ b ∈ bs, b.Fits (gearRules ρ)) (g : ControlGear ρ) :
    fs.foldl (fun d f => hear f d) ⟨g, none⟩ =
      ⟨if Covers type g.medium then bs.foldl (Block.run (gearRules ρ)) g else g, none⟩ := by
  rw [foldl_hear, h]
  unfold blocksOn
  split
  · exact foldl_blocks hbs g
  · rfl

/-! ### Blocks -/

/-- A frame that no lamp takes for a command that has to come twice. -/
def Plain (pk : Package) : Prop :=
  pk.data0 = 0xA3 ∨ ¬(pk.data0 &&& 1 = 1 ∧ 0x20 ≤ pk.data1 ∧ pk.data1 ≤ 0x81)

theorem reached_dtr (l : Lamp) : l.reached 0xA3 = false := by
  have hgroup : groupOf 0xA3 = none := by decide
  have hshort : ¬((0xA3 : UInt8) &&& 0x80 = 0 ∧ (0xA3 : UInt8) >>> 1 = l.short) := by
    rintro ⟨h, -⟩
    revert h
    decide
  have hall : ¬(0xA3 : UInt8) &&& 0xFE = 0xFE := by decide
  rw [Lamp.reached, hgroup, decide_eq_false hshort, decide_eq_false hall]
  rfl

theorem Plain.configures {pk : Package} (h : Plain pk) (g : ControlGear ρ) :
    g.configures pk = false := by
  unfold ControlGear.configures ControlGear.reached
  rcases h with h | h
  · rw [h, reached_dtr]
    rfl
  · rw [decide_eq_false h, Bool.and_false]

theorem fits_single {pk : Package} (h : Plain pk) :
    (Block.single pk).Fits (gearRules ρ) := h.configures

theorem fits_double (pk : Package) : (Block.double pk).Fits (gearRules ρ) :=
  fun g h => (heed_configures g pk pk).trans h

theorem run_double_plain {pk : Package} (h : Plain pk) (g : ControlGear ρ) :
    (Block.double pk).run (gearRules ρ) g = (g.heed pk).heed pk := by
  apply if_neg
  show ¬g.configures pk = true
  rw [h.configures]
  exact Bool.false_ne_true

/-- A command for one lamp. -/
theorem run_double {packageAddress : Address → UInt8} (hpa : EncodesAll packageAddress)
    (g : ControlGear ρ) {adr data1 : UInt8} (hadr : adr < 64)
    (hdata : 0x20 ≤ data1 ∧ data1 ≤ 0x81) :
    ((Block.double (frame packageAddress (shortAddress adr) data1)).run (gearRules ρ) g).kept =
      if adr = g.short then (g.configure (frame packageAddress (shortAddress adr) data1)).kept
      else g.kept := by
  have hodd := (shortByte hadr).2.2.2.2
  have hconfigures : g.configures (frame packageAddress (shortAddress adr) data1) =
      decide (adr = g.short) := by
    have hreached := reached_short ⟨g.medium, g.short, g.groups, none⟩ hadr
    have hcommand : (2 * adr + 1) &&& 1 = 1 ∧ 0x20 ≤ data1 ∧ data1 ≤ 0x81 := ⟨hodd, hdata⟩
    simp only [ControlGear.configures, ControlGear.reached, frame, hpa.short adr hadr, hreached,
      decide_eq_true hcommand, Bool.and_true]
  have hrun : (Block.double (frame packageAddress (shortAddress adr) data1)).run (gearRules ρ) g =
      if g.configures (frame packageAddress (shortAddress adr) data1) = true then
        g.configure (frame packageAddress (shortAddress adr) data1)
      else (g.heed (frame packageAddress (shortAddress adr) data1)).heed
        (frame packageAddress (shortAddress adr) data1) := rfl
  rw [hrun, hconfigures]
  by_cases hmine : adr = g.short
  · simp [hmine]
  · simp [hmine, heed_kept]

/-! ### Commands -/

/-- A command byte that stores the transfer register. -/
structure Stores (data1 : UInt8) (r : Register) : Prop where
  register : storeRegister data1 = some r
  command : 0x20 ≤ data1 ∧ data1 ≤ 0x81
  other : data1 ≠ 0x20 ∧ data1 ≠ 0x21 ∧ data1 &&& 0xF0 ≠ 0x50 ∧ data1 &&& 0xE0 ≠ 0x60

theorem Stores.configure {data1 : UInt8} {r : Register} (h : Stores data1 r)
    (packageAddress : Address → UInt8) (bb : Address) (g : ControlGear ρ) :
    g.configure (frame packageAddress bb data1) = g.store r (g.kind.keep r g.dtr) := by
  obtain ⟨hreset, hlevel, hclear, hgroup⟩ := h.other
  simp [ControlGear.configure, frame, hreset, hlevel, hclear, hgroup, h.register]

theorem stores_fade (comm : Fin 7) : Stores (fadeData (UInt8.ofNat comm)) (fadeRegister comm) := by
  refine ⟨?_, ?_, ?_⟩ <;> revert comm <;> decide

theorem stores_scene {scn : UInt8} (h : scn < 16) : Stores (0x40 + scn) (sceneRegister scn) := by
  have hall : ∀ n : Fin 256, UInt8.ofNat n < 16 →
      storeRegister (0x40 + UInt8.ofNat n) = some (sceneRegister (UInt8.ofNat n)) ∧
      (0x20 ≤ 0x40 + UInt8.ofNat n ∧ 0x40 + UInt8.ofNat n ≤ 0x81) ∧
      0x40 + UInt8.ofNat n ≠ 0x20 ∧ 0x40 + UInt8.ofNat n ≠ 0x21 ∧
      (0x40 + UInt8.ofNat n) &&& 0xF0 ≠ 0x50 ∧ (0x40 + UInt8.ofNat n) &&& 0xE0 ≠ 0x60 := by
    decide +kernel
  obtain ⟨hregister, hcommand, hother⟩ := hall ⟨scn.toNat, scn.toNat_lt⟩ (by simpa using h)
  simp only [UInt8.ofNat_toNat] at hregister hcommand hother
  exact ⟨hregister, hcommand, hother⟩

theorem clear_scene {scn : UInt8} (h : scn < 16) :
    (0x20 ≤ 0x50 + scn ∧ 0x50 + scn ≤ 0x81) ∧ 0x50 + scn ≠ 0x20 ∧ 0x50 + scn ≠ 0x21 ∧
      (0x50 + scn) &&& 0xF0 = 0x50 ∧ sceneOf (0x50 + scn) = sceneOf scn := by
  obtain ⟨⟨scn⟩⟩ := scn
  revert scn
  decide +kernel

theorem group_command {data1 : UInt8} (h : data1 &&& 0xE0 = 0x60) :
    (0x20 ≤ data1 ∧ data1 ≤ 0x81) ∧ data1 ≠ 0x20 ∧ data1 ≠ 0x21 ∧ data1 &&& 0xF0 ≠ 0x50 := by
  revert h
  obtain ⟨⟨data1⟩⟩ := data1
  revert data1
  decide +kernel

variable {packageAddress : Address → UInt8}

/-- A value for the transfer register, sent twice. -/
theorem heed_dtr (hpa : EncodesAll packageAddress) (g : ControlGear ρ) (val : UInt8) :
    g.heed (specialPackage packageAddress 0x01 val) = { g with dtr := val } := by
  simp [ControlGear.heed, specialPackage, frame, hpa.dtr]

theorem plain_dtr (hpa : EncodesAll packageAddress) (val : UInt8) :
    Plain (specialPackage packageAddress 0x01 val) := .inl hpa.dtr

/-- A value and the command to store it, for one lamp. -/
theorem run_store (hpa : EncodesAll packageAddress) (g : ControlGear ρ) {adr data1 : UInt8}
    {r : Register} (hadr : adr < 64) (h : Stores data1 r) (val : UInt8) :
    ((Block.double (frame packageAddress (shortAddress adr) data1)).run (gearRules ρ)
        { g with dtr := val }).kept =
      if adr = g.short then g.kept.set r (g.kept.keep r val) else g.kept := by
  rw [run_double hpa _ hadr h.command, h.configure]
  rfl

end Gear

/-! ### All lamps -/

section Bus

variable {ρ : Type}

def Ready (w : Bus ρ) : Prop := ∀ d ∈ w, d.first = none

def keptOf (w : Bus ρ) : List Kept := w.map fun d => d.state.kept

/-- No lamp stays with half a command, and what is kept changes by `f`. -/
structure Leads (w w' : Bus ρ) (f : Kept → Kept) : Prop where
  ready : Ready w'
  kept : keptOf w' = (keptOf w).map f

theorem Leads.refl {w : Bus ρ} (hw : Ready w) : Leads w w id := ⟨hw, (List.map_id _).symm⟩

theorem Leads.trans {w w' w'' : Bus ρ} {f f' : Kept → Kept} (h : Leads w w' f)
    (h' : Leads w' w'' f') : Leads w w'' (f' ∘ f) :=
  ⟨h'.ready, by rw [h'.kept, h.kept, List.map_map]⟩

theorem leads_transmit {fs : List (Medium × Package)} {type : UInt8} {bs : List (Block Package)}
    (h : Sends fs type bs) (hbs : ∀ b ∈ bs, b.Fits (gearRules ρ)) {f : Kept → Kept}
    (hf : ∀ g : ControlGear ρ, f g.kept =
      if Covers type g.medium then (bs.foldl (Block.run (gearRules ρ)) g).kept else g.kept)
    {w : Bus ρ} (hw : Ready w) : Leads w (transmit fs w) f := by
  have hlamp : ∀ d ∈ w, fs.foldl (fun d f => hear f d) d =
      ⟨if Covers type d.state.medium then bs.foldl (Block.run (gearRules ρ)) d.state else d.state,
        none⟩ := by
    intro d hd
    have hfirst : d = ⟨d.state, none⟩ := by rw [← hw d hd]
    rw [hfirst]
    exact foldl_sends h hbs d.state
  constructor
  · intro d hd
    obtain ⟨d, hmem, rfl⟩ := List.mem_map.mp hd
    rw [hlamp d hmem]
  · rw [keptOf, transmit, keptOf, List.map_map, List.map_map]
    refine List.map_congr_left fun d hd => ?_
    show (fs.foldl (fun d f => hear f d) d).state.kept = f d.state.kept
    rw [hlamp d hd, hf]
    split <;> rfl

/-! ### Messages that set something -/

variable {packageAddress : Address → UInt8} {w : Bus ρ}

theorem leads_daliSend {pk : Package} (h : Plain pk) (type : UInt8) (hw : Ready w) :
    Leads w (transmit (daliSend pk type) w) id := by
  refine leads_transmit (sends_daliSend pk type) ?_ (fun g => ?_) hw
  · exact List.forall_mem_singleton.mpr (fits_single h)
  · have hkept : ([Block.single pk].foldl (Block.run (gearRules ρ)) g).kept = g.kept :=
      heed_kept g pk
    rw [hkept, ite_self]
    rfl

theorem leads_daliDoubleSend {pk : Package} (h : Plain pk) (type : UInt8) (hw : Ready w) :
    Leads w (transmit (daliDoubleSend pk type) w) id := by
  refine leads_transmit (sends_daliDoubleSend pk type) ?_ (fun g => ?_) hw
  · exact List.forall_mem_singleton.mpr (fits_double pk)
  · have hkept : ([Block.double pk].foldl (Block.run (gearRules ρ)) g).kept = g.kept := by
      show ((Block.double pk).run (gearRules ρ) g).kept = _
      rw [run_double_plain h, heed_kept, heed_kept]
    rw [hkept, ite_self]
    rfl

/-- A command for one lamp that the lamp carries out at once. -/
theorem leads_command (hpa : EncodesAll packageAddress) {adr data1 : UInt8} (hadr : adr < 64)
    (hdata : 0x20 ≤ data1 ∧ data1 ≤ 0x81) {f : Kept → Kept}
    (hf : ∀ g : ControlGear ρ,
      (g.configure (frame packageAddress (shortAddress adr) data1)).kept = f g.kept)
    (type : UInt8) (hw : Ready w) :
    Leads w (transmit (daliDoubleSend (frame packageAddress (shortAddress adr) data1) type) w)
      fun k => if k.Concerned adr type then f k else k := by
  refine leads_transmit (sends_daliDoubleSend _ type) ?_ (fun g => ?_) hw
  · exact List.forall_mem_singleton.mpr (fits_double _)
  · show (if adr = g.short ∧ Covers type g.medium then f g.kept else g.kept) =
      if Covers type g.medium then ((Block.double (frame packageAddress (shortAddress adr)
        data1)).run (gearRules ρ) g).kept else g.kept
    rw [run_double hpa g hadr hdata, hf]
    by_cases hcovers : Covers type g.medium <;> by_cases hmine : adr = g.short <;>
      simp [hcovers, hmine]

/-- A value that is sent at least once, and the command to store it. -/
theorem leads_store (hpa : EncodesAll packageAddress) {adr data1 val type : UInt8} {r : Register}
    (hadr : adr < 64) (h : Stores data1 r) {fs : List (Medium × Package)}
    {bs : List (Block Package)} (hfs : Sends fs type bs) (hbs : ∀ b ∈ bs, b.Fits (gearRules ρ))
    (hrun : ∀ g : ControlGear ρ, bs.foldl (Block.run (gearRules ρ)) g = { g with dtr := val })
    (hw : Ready w) :
    Leads w (transmit (fs ++ daliDoubleSend (frame packageAddress (shortAddress adr) data1) type) w)
      fun k => if k.Concerned adr type then k.set r (k.keep r val) else k := by
  refine leads_transmit (hfs.append (sends_daliDoubleSend _ type)) ?_ (fun g => ?_) hw
  · intro b hb
    rcases List.mem_append.mp hb with hb | hb
    · exact hbs b hb
    · rw [List.mem_singleton.mp hb]
      exact fits_double _
  · rw [List.foldl_append, hrun]
    show (if adr = g.short ∧ Covers type g.medium then g.kept.set r (g.kept.keep r val)
      else g.kept) = if Covers type g.medium then
        ((Block.double (frame packageAddress (shortAddress adr) data1)).run (gearRules ρ)
          { g with dtr := val }).kept else g.kept
    rw [run_store hpa g hadr h]
    by_cases hcovers : Covers type g.medium <;> by_cases hmine : adr = g.short <;>
      simp [hcovers, hmine]

theorem leads_setFade (hpa : EncodesAll packageAddress) (comm : Fin 7) {adr : UInt8}
    (hadr : adr < 64) (val type : UInt8) (hw : Ready w) :
    Leads w (transmit (setFade packageAddress adr val (UInt8.ofNat comm) type) w)
      fun k => k.after (.setFade comm adr val type) := by
  refine leads_store hpa hadr (stores_fade comm) (sends_daliDoubleSend _ type) ?_ (fun g => ?_) hw
  · exact List.forall_mem_singleton.mpr (fits_double _)
  · show (Block.double (specialPackage packageAddress 0x01 val)).run (gearRules ρ) g = _
    rw [run_double_plain (plain_dtr hpa val), heed_dtr hpa, heed_dtr hpa]

theorem leads_setScene (hpa : EncodesAll packageAddress) {adr scn : UInt8} (hadr : adr < 64)
    (hscn : scn < 16) (val type : UInt8) (hw : Ready w) :
    Leads w (transmit ((setScene packageAddress adr scn val type).map fun f =>
        (f.medium, f.package)) w)
      fun k => k.after (.setScene adr scn val type) := by
  have hframes : ((setScene packageAddress adr scn val type).map fun f => (f.medium, f.package)) =
      (daliSend (specialPackage packageAddress 0x01 val) type ++
        daliSend (specialPackage packageAddress 0x01 val) type) ++
      daliDoubleSend (frame packageAddress (shortAddress adr) (0x40 + scn)) type := by
    simp [setScene, sentAs, Function.comp_def]
  rw [hframes]
  refine leads_store hpa hadr (stores_scene hscn)
    ((sends_daliSend _ type).append (sends_daliSend _ type)) ?_ (fun g => ?_) hw
  · intro b hb
    rcases List.mem_pair.mp hb with rfl | rfl <;> exact fits_single (plain_dtr hpa val)
  · show ((g.heed (specialPackage packageAddress 0x01 val)).heed
      (specialPackage packageAddress 0x01 val)) = _
    rw [heed_dtr hpa, heed_dtr hpa]

theorem leads_clearScene (hpa : EncodesAll packageAddress) {adr scn : UInt8} (hadr : adr < 64)
    (hscn : scn < 16) (type : UInt8) (hw : Ready w) :
    Leads w (transmit ((clearScene packageAddress adr scn type).map fun f =>
        (f.medium, f.package)) w)
      fun k => k.after (.clearScene adr scn type) := by
  have hframes : ((clearScene packageAddress adr scn type).map fun f => (f.medium, f.package)) =
      daliDoubleSend (frame packageAddress (shortAddress adr) (0x50 + scn)) type := by
    simp [clearScene, sentAs, Function.comp_def]
  obtain ⟨hdata, hreset, hlevel, hclass, hnumber⟩ := clear_scene hscn
  rw [hframes]
  refine leads_command hpa hadr hdata (f := fun k => k.set (sceneRegister scn) 0xFF) (fun g => ?_)
    type hw
  have hconfigure : g.configure (frame packageAddress (shortAddress adr) (0x50 + scn)) =
      g.store (.scene (sceneOf (0x50 + scn))) 0xFF := by
    rw [ControlGear.configure, frame, if_neg hreset, if_neg hlevel, if_pos hclass]
  rw [hconfigure, hnumber]
  rfl

theorem leads_setGroup (hpa : EncodesAll packageAddress) {c : SetGurup} (hc : c.Valid)
    (hw : Ready w) : Leads w (transmit (setGroup packageAddress c.gurup c.adres c.yaz c.type) w)
      fun k => k.after (.setGurup c) := by
  obtain ⟨hclass, hconfigure⟩ := groupData_valid hc
  obtain ⟨hdata, hreset, hlevel, hclear⟩ := group_command hclass
  refine leads_command hpa hc.adres hdata (f := fun k => { k with
    groups := Function.update k.groups (c.gurup - 1) (decide (c.yaz = 1)) }) (fun g => ?_) c.type hw
  have hgroups := congrArg Lamp.groups (hconfigure ⟨g.medium, g.short, g.groups, none⟩)
  rw [ControlGear.configure, frame, if_neg hreset, if_neg hlevel, if_neg hclear, if_pos hclass]
  exact congrArg (fun groups => { g.kept with groups }) hgroups

theorem leads_gearReset (hpa : EncodesAll packageAddress) {adr : UInt8} (hadr : adr < 64)
    (type : UInt8) (hw : Ready w) :
    Leads w (transmit (gearReset packageAddress adr type) w)
      fun k => k.after (.dalireset adr type) :=
  leads_command hpa hadr (by decide) (fun _ => rfl) type hw

/-! ### Replies -/

variable {clash : List UInt8 → Option UInt8} {top : TopByte}

theorem leads_one {pk : Package} (h : Plain pk) (m : Medium) (hw : Ready w) :
    Leads w (transmit [(m, pk)] w) id := by
  cases m with
  | cable => exact leads_daliSend h 0 hw
  | radio => exact leads_daliSend h 0x0A hw

theorem attempts_some {pk : Package} {b : UInt8}
    (h : reply clash (.radio, pk) (transmit [(.radio, pk)] w) = some b) (mm : List UInt8)
    (n : Nat) : attempts (air clash pk) mm n w = (b, transmit [(.radio, pk)] w) := by
  have hair : (air clash pk).sendAndReceive mm w =
      (some (Decimal.decimal b.toNat), transmit [(.radio, pk)] w) := by
    simp [air, h]
  cases n <;> simp only [attempts, hair, replyByte_decimal]

theorem attempts_none {pk : Package}
    (h : reply clash (.radio, pk) (transmit [(.radio, pk)] w) = none) (mm : List UInt8) (n : Nat) :
    attempts (air clash pk) mm n w =
      match n with
      | 0 => (0x71, transmit [(.radio, pk)] w)
      | n + 1 => attempts (air clash pk) mm n (transmit [(.radio, pk)] w) := by
  have hair : (air clash pk).sendAndReceive mm w = (none, transmit [(.radio, pk)] w) := by
    simp [air, h]
  cases n <;> simp only [attempts, hair]

theorem leads_attempts {pk : Package} (h : Plain pk) (mm : List UInt8) (n : Nat)
    (hw : Ready w) : Leads w (attempts (air clash pk) mm n w).2 id := by
  induction n generalizing w with
  | zero =>
    have hone := leads_one h .radio hw
    cases hreply : reply clash (.radio, pk) (transmit [(.radio, pk)] w) with
    | none => rwa [attempts_none hreply]
    | some b => rwa [attempts_some hreply]
  | succ n ih =>
    have hone := leads_one h .radio hw
    cases hreply : reply clash (.radio, pk) (transmit [(.radio, pk)] w) with
    | none =>
      rw [attempts_none hreply]
      exact hone.trans (ih hone.ready)
    | some b => rwa [attempts_some hreply]

variable (clash top) in
/-- A query changes nothing that is kept. -/
theorem leads_query {pk : Package} (h : Plain pk) (type : UInt8) (hw : Ready w) :
    Leads w (query clash top pk type w).2 id := by
  unfold query daliSendReceive
  split
  · have hone := leads_one h .cable hw
    unfold ysendReceive
    dsimp only
    split <;> exact hone
  · have htry : Leads w (sendAndReceiveDali (air clash pk) (pk.word top) false w).2 id :=
      leads_attempts h (Decimal.decimalInt (pk.word top).toInt) 2 hw
    dsimp only
    split <;> exact htry

def Kept.key (k : Kept) : Medium × UInt8 := (k.medium, k.short)

/-- No two lamps on a medium have the same address. -/
def Distinct (w : Bus ρ) : Prop := ((keptOf w).map Kept.key).Nodup

theorem filter_key_eq {α κ : Type} [DecidableEq κ] {key : α → κ} {a : κ} {ks : List α}
    (h : (ks.map key).Nodup) : ks.filter (fun k => decide (key k = a)) =
      (ks.find? fun k => decide (key k = a)).toList := by
  induction ks with
  | nil => rfl
  | cons k ks ih =>
    obtain ⟨hk, hks⟩ := List.nodup_cons.mp h
    by_cases hmine : key k = a
    · have hnone : ks.filter (fun k => decide (key k = a)) = [] := by
        refine List.filter_eq_nil_iff.mpr fun j hj hja => hk ?_
        rw [hmine, ← of_decide_eq_true hja]
        exact List.mem_map_of_mem hj
      simp [hmine, hnone]
    · simp [hmine, ih hks]

/-- The frame is a query for one lamp, answered with a value that the lamp keeps. -/
def Asks (ρ : Type) (pk : Package) (adr : UInt8) (value : Kept → UInt8) : Prop :=
  ∀ g : ControlGear ρ, g.answer pk = if g.short = adr then some (value g.kept) else none

variable (clash) in
theorem reply_eq {pk : Package} {adr : UInt8} {value : Kept → UInt8} (h : Asks ρ pk adr value)
    (hw : Distinct w) (m : Medium) : reply clash (m, pk) w =
      ((keptOf w).find? fun k => decide (k.medium = m ∧ k.short = adr)).map value := by
  have hkey : (fun k : Kept => decide (k.medium = m ∧ k.short = adr)) =
      fun k => decide (k.key = (m, adr)) := by
    funext k
    simp [Kept.key]
  have hreplies : (w.filterMap fun d =>
      if d.state.medium = m then d.state.answer pk else none) =
        ((keptOf w).filter fun k => decide (k.key = (m, adr))).map value := by
    rw [keptOf, List.filter_map, List.map_map, ← List.filterMap_eq_map, List.filterMap_filter]
    refine List.filterMap_congr fun d _ => ?_
    by_cases hm : d.state.medium = m <;> by_cases hs : d.state.short = adr <;>
      simp [h d.state, hm, hs, Kept.key, ControlGear.kept]
  rw [hkey, reply, hreplies, filter_key_eq hw]
  cases (keptOf w).find? fun k => decide (k.key = (m, adr)) <;> rfl

/-- The result for a value, or for no reply. -/
def backword (v : Option UInt8) : BackwordT := v.elim ⟨.timeout, 0⟩ fun b => ⟨.data, b⟩

theorem attempts_eq {pk : Package} {adr : UInt8} {value : Kept → UInt8} (h : Asks ρ pk adr value)
    (hplain : Plain pk) (mm : List UInt8) (n : Nat) (hready : Ready w) (hw : Distinct w) :
    (attempts (air clash pk) mm n w).1 =
      (((keptOf w).find? fun k => decide (k.medium = .radio ∧ k.short = adr)).map value).getD
        0x71 := by
  have hstep : ∀ w : Bus ρ, Ready w → Distinct w →
      keptOf (transmit [(.radio, pk)] w) = keptOf w ∧ Distinct (transmit [(.radio, pk)] w) ∧
      reply clash (.radio, pk) (transmit [(.radio, pk)] w) =
        ((keptOf w).find? fun k => decide (k.medium = .radio ∧ k.short = adr)).map value := by
    intro w hready hw
    have hkept : keptOf (transmit [(.radio, pk)] w) = keptOf w :=
      (leads_one hplain .radio hready).kept.trans (List.map_id _)
    have hdistinct : Distinct (transmit [(.radio, pk)] w) := by
      rw [Distinct, hkept]
      exact hw
    exact ⟨hkept, hdistinct, by rw [reply_eq clash h hdistinct, hkept]⟩
  induction n generalizing w with
  | zero =>
    obtain ⟨-, -, hreply⟩ := hstep w hready hw
    rw [← hreply]
    cases hr : reply clash (.radio, pk) (transmit [(.radio, pk)] w) with
    | none => rw [attempts_none hr, Option.getD_none]
    | some b => rw [attempts_some hr, Option.getD_some]
  | succ n ih =>
    obtain ⟨hkept, hdistinct, hreply⟩ := hstep w hready hw
    have hagain := ih (leads_one hplain .radio hready).ready hdistinct
    rw [hkept, ← hreply] at hagain
    rw [← hreply]
    cases hr : reply clash (.radio, pk) (transmit [(.radio, pk)] w) with
    | none =>
      rw [hr] at hagain
      rw [attempts_none hr]
      exact hagain
    | some b => rw [attempts_some hr, Option.getD_some]

variable (clash top) in
/-- What a query returns is what the lamp keeps. -/
theorem query_eq {pk : Package} {adr : UInt8} {value : Kept → UInt8} (h : Asks ρ pk adr value)
    (hplain : Plain pk) (type : UInt8) (hready : Ready w) (hw : Distinct w) :
    (query clash top pk type w).1 = backword (readOf (keptOf w) adr type value) := by
  unfold query daliSendReceive readOf mediumOf
  by_cases hcable : type < 0x0A
  · have hone := leads_one hplain .cable hready
    have hkept : keptOf (transmit [(.cable, pk)] w) = keptOf w := hone.kept.trans (List.map_id _)
    have hdistinct : Distinct (transmit [(.cable, pk)] w) := by
      rw [Distinct, hkept]
      exact hw
    have hreply := reply_eq clash h hdistinct .cable
    rw [hkept] at hreply
    rw [if_pos hcable, if_pos hcable, ysendReceive]
    rw [hreply]
    cases ((keptOf w).find? fun k => decide (k.medium = .cable ∧ k.short = adr)).map value with
    | none => rfl
    | some b => simp [hcable, backword, Option.filter]
  · have htry : (sendAndReceiveDali (air clash pk) (pk.word top) false w).1 = _ :=
      attempts_eq h hplain (Decimal.decimalInt (pk.word top).toInt) 2 hready hw
    rw [if_neg hcable, if_neg hcable]
    dsimp only
    rw [htry]
    cases ((keptOf w).find? fun k => decide (k.medium = .radio ∧ k.short = adr)).map value with
    | none => rfl
    | some b => by_cases hb : b = 0x71 <;> simp [hcable, hb, backword, Option.filter]

/-! ### Messages -/

theorem dataOr_backword (v : Option UInt8) : dataOr (backword v) = v.getD 0 := by
  cases v <;> rfl

theorem isTimeout_backword (v : Option UInt8) : isTimeout (backword v) = v.isNone := by
  cases v <;> rfl

/-- Any result of a query looks like a reply or like none. -/
theorem exists_backword (r : BackwordT) :
    ∃ v : Option UInt8, dataOr r = v.getD 0 ∧ isTimeout r = v.isNone := by
  cases h : r.backword with
  | timeout => exact ⟨none, by simp [dataOr, h], by simp [isTimeout, h]⟩
  | data => exact ⟨some r.data, by simp [dataOr, h], by simp [isTimeout, h]⟩

/-- A query for one lamp. -/
theorem plain_query {packageAddress : Address → UInt8} (bb : Address) {data1 : UInt8}
    (h : 0x81 < data1) : Plain (frame packageAddress bb data1) :=
  .inr fun hnot => UInt8.not_lt.mpr hnot.2.2 h

theorem asks_of (hpa : EncodesAll packageAddress) {adr data1 : UInt8} (hadr : adr < 64)
    {value : Kept → UInt8} (h : ∀ g : ControlGear ρ, g.tell data1 = some (value g.kept)) :
    Asks ρ (frame packageAddress (shortAddress adr) data1) adr value := by
  intro g
  have hodd := (shortByte hadr).2.2.2.2
  have hreached : g.reached (2 * adr + 1) = decide (adr = g.short) :=
    reached_short ⟨g.medium, g.short, g.groups, none⟩ hadr
  rw [ControlGear.answer, frame, hpa.short adr hadr, hreached, h]
  by_cases hmine : g.short = adr
  · simp [hmine, hodd]
  · simp [hmine, Ne.symm hmine]

/-- The lamps keep `ks`, and none of them stays with half a command. -/
structure Holds (ks : List Kept) (w : Bus ρ) : Prop where
  ready : Ready w
  kept : keptOf w = ks

theorem Leads.holds {w w' : Bus ρ} {f : Kept → Kept} (h : Leads w w' f) {ks : List Kept}
    (hw : Holds ks w) : Holds (ks.map f) w' :=
  ⟨h.ready, by rw [h.kept, hw.kept]⟩

theorem Leads.holds_id {w w' : Bus ρ} (h : Leads w w' id) {ks : List Kept} (hw : Holds ks w) :
    Holds ks w' := by
  rw [← List.map_id ks]
  exact h.holds hw

variable {ks : List Kept}

variable (clash top) in
/-- Reading a value that a lamp keeps. -/
theorem query_run {pk : Package} {adr : UInt8} {value : Kept → UInt8} (h : Asks ρ pk adr value)
    (hplain : Plain pk) (type : UInt8) (hks : (ks.map Kept.key).Nodup) (hw : Holds ks w) :
    ∃ w', query clash top pk type w = (backword (readOf ks adr type value), w') ∧ Holds ks w' := by
  have hdistinct : Distinct w := by
    rw [Distinct, hw.kept]
    exact hks
  have hvalue := query_eq clash top h hplain type hw.ready hdistinct
  rw [hw.kept] at hvalue
  exact ⟨_, Prod.ext hvalue rfl, (leads_query clash top hplain type hw.ready).holds_id hw⟩

theorem scene_query {scn : UInt8} (h : scn < 16) : 0x81 < 0xB0 + scn ∧
    ¬0xB0 + scn = 0x90 ∧ ¬0xB0 + scn = 0x98 ∧ ¬0xB0 + scn = 0xA0 ∧ ¬0xB0 + scn = 0xA1 ∧
    ¬0xB0 + scn = 0xA2 ∧ ¬0xB0 + scn = 0xA3 ∧ ¬0xB0 + scn = 0xA4 ∧ ¬0xB0 + scn = 0xA5 ∧
    ¬0xB0 + scn = 0xA8 ∧ (0xB0 + scn) &&& 0xF0 = 0xB0 ∧
    sceneOf (0xB0 + scn) = sceneOf scn := by
  obtain ⟨⟨scn⟩⟩ := scn
  revert scn
  decide +kernel

theorem tell_scene {scn : UInt8} (h : scn < 16) (g : ControlGear ρ) :
    g.tell (0xB0 + scn) = some (g.kept.registers (sceneRegister scn)) := by
  obtain ⟨-, h1, h2, h3, h4, h5, h6, h7, h8, h9, hscene, hnumber⟩ := scene_query h
  rw [ControlGear.tell, if_neg h1, if_neg h2, if_neg h3, if_neg h4, if_neg h5, if_neg h6,
    if_neg h7, if_neg h8, if_neg h9, if_pos hscene, hnumber]
  rfl

variable (clash top)

theorem reportScene_run (hpa : EncodesAll packageAddress) {adr scn : UInt8} (hadr : adr < 64)
    (hscn : scn < 16) (type : UInt8) (hks : (ks.map Kept.key).Nodup) (hw : Holds ks w) :
    ∃ w', reportScene packageAddress clash top adr scn type w =
      (some (sceneReport ks adr scn type), w') ∧ Holds ks w' := by
  have hasks : Asks ρ (frame packageAddress (shortAddress adr) (0xB0 + scn)) adr
      fun k => k.registers (sceneRegister scn) :=
    asks_of hpa hadr fun g => tell_scene hscn g
  have hplain : Plain (frame packageAddress (shortAddress adr) (0xB0 + scn)) :=
    plain_query _ (scene_query hscn).1
  obtain ⟨w', hrun, hheld⟩ := query_run clash top hasks hplain type hks hw
  refine ⟨w', ?_, hheld⟩
  rw [reportScene, getScene, hrun]
  simp only [dataOr_backword, isTimeout_backword]
  rfl

/-- A query with this command byte, answered with a value that is kept. -/
theorem getLevelCommand_run (hpa : EncodesAll packageAddress) {adr : UInt8} (hadr : adr < 64)
    (comm : UInt8) (hcomm : 0x81 < comm) (value : Kept → UInt8)
    (h : ∀ g : ControlGear ρ, g.tell comm = some (value g.kept)) (type : UInt8)
    (hks : (ks.map Kept.key).Nodup) (hw : Holds ks w) :
    ∃ w', getLevelCommand packageAddress clash top adr comm type w =
      (backword (readOf ks adr type value), w') ∧ Holds ks w' :=
  query_run clash top (asks_of hpa hadr h) (plain_query _ hcomm) type hks hw

theorem reportGroup_run (hpa : EncodesAll packageAddress) {adr : UInt8} (hadr : adr < 64)
    (type : UInt8) (hks : (ks.map Kept.key).Nodup) (hw : Holds ks w) :
    ∃ w', reportGroup packageAddress clash top adr type w =
      (some (groupReport ks adr type), w') ∧ Holds ks w' := by
  obtain ⟨w1, hlow, h1⟩ := getLevelCommand_run clash top hpa hadr 0xC0 (by decide)
    (fun k => groupByte k.groups 0) (fun _ => rfl) type hks hw
  obtain ⟨w2, hhigh, h2⟩ := getLevelCommand_run clash top hpa hadr 0xC1 (by decide)
    (fun k => groupByte k.groups 1) (fun _ => rfl) type hks h1
  have hget1 : getGroup packageAddress clash top adr 0 type w = _ := hlow
  have hget2 : getGroup packageAddress clash top adr 1 type w1 = _ := hhigh
  refine ⟨w2, ?_, h2⟩
  rw [reportGroup, hget1]
  dsimp only
  rw [hget2]
  simp only [dataOr_backword, isTimeout_backword]
  rfl

theorem reportDetail_run (hpa : EncodesAll packageAddress) {adr : UInt8} (hadr : adr < 64)
    (type : UInt8) (hks : (ks.map Kept.key).Nodup) (hw : Holds ks w) :
    ∃ glob w', reportDetail packageAddress clash top adr type w =
      (some (detailReport ks adr type glob), w') ∧ Holds ks w' := by
  obtain ⟨w1, hmin, h1⟩ := getLevelCommand_run clash top hpa hadr 0xA2 (by decide)
    (fun k => k.registers .minLevel) (fun _ => rfl) type hks hw
  obtain ⟨w2, hmax, h2⟩ := getLevelCommand_run clash top hpa hadr 0xA1 (by decide)
    (fun k => k.registers .maxLevel) (fun _ => rfl) type hks h1
  obtain ⟨w3, hfail, h3⟩ := getLevelCommand_run clash top hpa hadr 0xA4 (by decide)
    (fun k => k.registers .failLevel) (fun _ => rfl) type hks h2
  obtain ⟨w4, hpow, h4⟩ := getLevelCommand_run clash top hpa hadr 0xA3 (by decide)
    (fun k => k.registers .powerOnLevel) (fun _ => rfl) type hks h3
  obtain ⟨w5, hfade, h5⟩ := getLevelCommand_run clash top hpa hadr 0xA5 (by decide)
    (fun k => k.fade (k.registers .fadeTime) (k.registers .fadeRate)) (fun _ => rfl) type hks h4
  obtain ⟨w6, hefade, h6⟩ := getLevelCommand_run clash top hpa hadr 0xA8 (by decide)
    (fun k => k.registers .extFade) (fun _ => rfl) type hks h5
  -- The status byte may be anything.
  have hplain : Plain (frame packageAddress (shortAddress adr) 0x90) := plain_query _ (by decide)
  have h7 := (leads_query clash top hplain type h6.ready).holds_id h6
  obtain ⟨glob, hdata, hnone⟩ := exists_backword
    (query clash top (frame packageAddress (shortAddress adr) 0x90) type w6).1
  refine ⟨glob, _, ?_, h7⟩
  simp only [reportDetail, hmin, hmax, hfail, hpow, hfade, hefade, dataOr_backword,
    isTimeout_backword]
  rw [getLevelCommand, hdata, hnone]
  rfl

/-- Asking for the level may store it in the transfer register, and changes nothing else. -/
theorem getLevel_holds (hpa : EncodesAll packageAddress) {adr : UInt8} (hadr : adr < 64)
    (type : UInt8) (hw : Holds ks w) :
    Holds ks (getLevel packageAddress clash top adr type w).2 := by
  have hlevel : Plain (frame packageAddress (shortAddress adr) 0xA0) := plain_query _ (by decide)
  have hdtr : Plain (frame packageAddress (shortAddress adr) 0x98) := plain_query _ (by decide)
  have h1 := (leads_query clash top hlevel type hw.ready).holds_id hw
  unfold getLevel
  dsimp only
  split
  · have hstore := leads_command (f := id) hpa hadr (by decide : (0x20 : UInt8) ≤ 0x21 ∧ _)
      (fun _ => rfl) type h1.ready
    have hsame : (fun k : Kept => if k.Concerned adr type then id k else k) = id := by
      funext k
      exact ite_self _
    rw [hsame] at hstore
    have h2 := hstore.holds_id h1
    exact (leads_query clash top hdtr type h2.ready).holds_id h2
  · exact h1

theorem singleRefresh_run (hpa : EncodesAll packageAddress) {adr : UInt8} (hadr : adr < 64)
    (type : UInt8) (hw : Holds ks w) :
    ∃ power error w', singleRefresh packageAddress clash top adr type w =
      (some (.status adr 0 power (decide (0 < power)) error), w') ∧ Holds ks w' := by
  have h1 := getLevel_holds clash top hpa hadr type hw
  unfold singleRefresh
  dsimp only
  split
  · exact ⟨_, _, _, rfl, getLevel_holds clash top hpa hadr type h1⟩
  · exact ⟨_, _, _, rfl, h1⟩

/-- A level has an even address byte. -/
theorem even_level {packageAddress : Address → UInt8} (hpa : EncodesAll packageAddress)
    {adr gurup : UInt8} (h : Addressed adr gurup) :
    packageAddress { adresType adr gurup {} with arcPower := true } &&& 1 ≠ 1 := by
  have heven : ∀ a : UInt8, 2 * a &&& 1 ≠ 1 := by
    rintro ⟨⟨a⟩⟩
    revert a
    decide +kernel
  rcases h with ⟨rfl, hadr | rfl⟩ | ⟨hgurup, hadr⟩
  · have hall : adr ≠ 255 := by
      rintro rfl
      exact absurd hadr (by decide)
    have haddress : ({ adresType adr 0 {} with arcPower := true } : Address) =
        { shortAdr := true, arcPower := true, data := adr } := by
      simp [adresType, hall]
    rw [haddress, hpa.level adr hadr]
    exact heven adr
  · have hbyte := hpa.all true
    have haddress : ({ adresType 255 0 {} with arcPower := true } : Address) =
        { broadcastAdr := true, arcPower := true, data := 255 } := by
      simp [adresType]
    rw [haddress, hbyte]
    decide
  · rw [adresType_group adr hgurup]
    show packageAddress { groupAdr := true, arcPower := true, data := adr - 1 } &&& 1 ≠ 1
    rw [hpa.group (adr - 1) (pred_lt_sixteen hadr) true]
    have hgroup : ∀ d : UInt8, (0x80 + 2 * d + if true = true then 0 else 1) &&& 1 ≠ 1 := by
      rintro ⟨⟨d⟩⟩
      revert d
      decide +kernel
    exact hgroup (adr - 1)

theorem commandByte_lt (comm : UInt8) : commandByte comm < 0x20 := by
  obtain ⟨⟨comm⟩⟩ := comm
  revert comm
  decide +kernel

/-- Commands and levels never have to come twice. -/
theorem plain_call {packageAddress : Address → UInt8} (hpa : EncodesAll packageAddress)
    {adr gurup : UInt8} (h : Addressed adr gurup) (power comm : UInt8) :
    Plain ((DaliCall.arcPower adr gurup power).package packageAddress) ∧
    Plain ((DaliCall.off adr gurup).package packageAddress) ∧
    Plain ((DaliCall.commandAction adr gurup comm).package packageAddress) := by
  refine ⟨.inr fun hnot => even_level hpa h hnot.1, .inr fun hnot => ?_, .inr fun hnot => ?_⟩
  · exact absurd hnot.2.1 (by decide : ¬(0x20 : UInt8) ≤ 0x00)
  · exact UInt8.not_le.mpr (commandByte_lt comm) hnot.2.1

theorem after_key (k : Kept) (m : Message) : (k.after m).key = k.key := by
  unfold Kept.after
  split
  all_goals first | rfl | (split <;> rfl)

theorem after_keys (ks : List Kept) (m : Message) :
    (ks.map fun k => k.after m).map Kept.key = ks.map Kept.key := by
  rw [List.map_map]
  exact List.map_congr_left fun k _ => after_key k m

/-- A message leaves with every lamp what it is to keep, and sends its report. -/
theorem handle_run (hpa : EncodesAll packageAddress) {m : Message} (hm : m.Valid)
    (hks : (ks.map Kept.key).Nodup) (hw : Holds ks w) :
    ∃ r w', handle packageAddress clash top w m = (r, w') ∧ m.Reports (ks.map (·.after m)) r ∧
      Holds (ks.map (·.after m)) w' := by
  have hnext : ((ks.map (·.after m)).map Kept.key).Nodup := by
    rw [after_keys]
    exact hks
  cases m with
  | arcPower adr grp power =>
    have hplain := (plain_call hpa hm (if power = 255 then 254 else power) 0).1
    refine ⟨_, _, rfl, rfl, ?_⟩
    exact (leads_daliSend hplain 0x99 hw.ready).holds hw
  | off adr grp =>
    have hplain := (plain_call hpa hm 0 0).2.1
    exact ⟨_, _, rfl, rfl, (leads_daliSend hplain 0x99 hw.ready).holds hw⟩
  | action adr grp com =>
    have hplain := (plain_call hpa hm 0 com).2.2
    exact ⟨_, _, rfl, rfl, (leads_daliSend hplain 0x99 hw.ready).holds hw⟩
  | dalireset adr typ =>
    exact ⟨_, _, rfl, rfl, (leads_gearReset hpa hm typ hw.ready).holds hw⟩
  | sRefresh adr typ =>
    obtain ⟨power, error, w', hrun, hheld⟩ := singleRefresh_run clash top hpa hm typ hw
    refine ⟨_, w', hrun, ⟨power, error, rfl⟩, ?_⟩
    rw [show ks.map (·.after (.sRefresh adr typ)) = ks from List.map_id ks]
    exact hheld
  | sReset adr typ =>
    have hplain : Plain (frame packageAddress (shortAddress adr) 0xE0) :=
      plain_query _ (by decide)
    exact ⟨_, _, rfl, rfl, (leads_daliDoubleSend hplain typ hw.ready).holds hw⟩
  | setFade comm adr val typ =>
    exact ⟨_, _, rfl, rfl, (leads_setFade hpa comm hm val typ hw.ready).holds hw⟩
  | getScene adr scn typ =>
    obtain ⟨w', hrun, hheld⟩ := reportScene_run clash top hpa hm.1 hm.2 typ hks hw
    rw [show ks.map (·.after (.getScene adr scn typ)) = ks from List.map_id ks]
    exact ⟨_, w', hrun, rfl, hheld⟩
  | setScene adr scn val typ =>
    have hset := (leads_setScene hpa hm.1 hm.2 val typ hw.ready).holds hw
    obtain ⟨w', hrun, hheld⟩ := reportScene_run clash top hpa hm.1 hm.2 typ hnext hset
    exact ⟨_, w', hrun, rfl, hheld⟩
  | clearScene adr scn typ =>
    have hset := (leads_clearScene hpa hm.1 hm.2 typ hw.ready).holds hw
    obtain ⟨w', hrun, hheld⟩ := reportScene_run clash top hpa hm.1 hm.2 typ hnext hset
    exact ⟨_, w', hrun, rfl, hheld⟩
  | getDetail adr typ =>
    obtain ⟨glob, w', hrun, hheld⟩ := reportDetail_run clash top hpa hm typ hks hw
    rw [show ks.map (·.after (.getDetail adr typ)) = ks from List.map_id ks]
    exact ⟨_, w', hrun, ⟨glob, rfl⟩, hheld⟩
  | getGurup adr typ =>
    obtain ⟨w', hrun, hheld⟩ := reportGroup_run clash top hpa hm typ hks hw
    rw [show ks.map (·.after (.getGurup adr typ)) = ks from List.map_id ks]
    exact ⟨_, w', hrun, rfl, hheld⟩
  | setGurup c =>
    have hset := (leads_setGroup hpa hm hw.ready).holds hw
    obtain ⟨w', hrun, hheld⟩ := reportGroup_run clash top hpa hm.adres c.type hnext hset
    exact ⟨_, w', hrun, rfl, hheld⟩

end Bus

/-- The lamps follow the store through a run. -/
theorem handleAll_run {ρ : Type} {packageAddress : Address → UInt8}
    (hpa : EncodesAll packageAddress) (clash : List UInt8 → Option UInt8) (top : TopByte)
    {ms : List Message} (hms : ∀ m ∈ ms, m.Valid) {ks : List Kept}
    (hks : (ks.map Kept.key).Nodup) {w : Bus ρ} (hw : Holds ks w) :
    Served ks ms (handleAll packageAddress clash top w ms).1 ∧
      Holds (ms.foldl (fun ks m => ks.map fun k => k.after m) ks)
        (handleAll packageAddress clash top w ms).2 := by
  induction ms generalizing ks w with
  | nil => exact ⟨rfl, hw⟩
  | cons m ms ih =>
    obtain ⟨hm, hrest⟩ := List.forall_mem_cons.mp hms
    obtain ⟨r, w', hrun, hreport, hheld⟩ := handle_run clash top hpa hm hks hw
    have hnext : ((ks.map fun k => k.after m).map Kept.key).Nodup := by
      rw [after_keys]
      exact hks
    obtain ⟨hserved, hkept⟩ := ih hrest hnext hheld
    refine ⟨⟨r, (handleAll packageAddress clash top w' ms).1, ?_, hreport, hserved⟩, ?_⟩
    · rw [handleAll, hrun]
    · rw [handleAll, hrun]
      exact hkept

/-- `addressByte`, and the transfer register. -/
def packageByte (bb : Address) : UInt8 :=
  if bb.special then 0xA1 + 2 * bb.data else addressByte bb

theorem packageByte_encodes : EncodesAll packageByte where
  short a _ := rfl
  group d _ arc := by cases arc <;> rfl
  level a _ := by simp [packageByte, addressByte]
  all arc := by cases arc <;> rfl
  dtr := rfl

/-- A lamp that keeps every value, and is always at its highest level. -/
def plainKind : GearKind Unit where
  keep _ value := value
  defaults _ := 0xFF
  fade time rate := 16 * time + rate
  react _ rest := rest
  level _ := 0xFE
  status _ := 0x04

/-- Lamp 5, once on the cable and once behind the gateway. -/
def twoLamps : Bus Unit :=
  [⟨⟨plainKind, .cable, 5, fun _ => false, fun _ => 0xFF, 0, ()⟩, none⟩,
    ⟨⟨plainKind, .radio, 5, fun _ => false, fun _ => 0xFF, 0, ()⟩, none⟩]

/-- Both lamps get scene 3, and the wireless one loses it again. -/
def sceneMessages : List Message :=
  [.setScene 5 3 200 0x99, .clearScene 5 3 0x0A, .getScene 5 3 0x00]

end DaliController.Lamps.Settings
