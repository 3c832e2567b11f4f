import DaliController.Schedule.Targets
import Mathlib.Logic.Function.Basic

/-! Groups of lamps.  `set_group` adds a lamp to group `n`, counted from 1, and `adres_type` takes 1
from a group number.  A TCP command passes the number on as it is.  A wall button that is set up
for group `n` passes on its option value, which is `n - 1` already, so its commands go to another
group. -/

namespace DaliController.Lamps

open Dali Schedule

/-- The wired bus, and the lamps behind the wireless gateway. -/
inductive Medium
  | cable
  | radio
  deriving DecidableEq, Repr

/-! ### The commands -/

/-- Where `DaliSend` sends a frame. -/
def daliSend (pk : Package) (type : UInt8) : List (Medium × Package) :=
  if type = 0x99 then [(.cable, pk), (.radio, pk)]
  else if type < 0x0A then [(.cable, pk)]
  else [(.radio, pk)]

def daliDoubleSend (pk : Package) (type : UInt8) : List (Medium × Package) :=
  daliSend pk type ++ daliSend pk type

section

variable (packageAddress : Address → UInt8)

/-- The command byte of `set_group`. -/
def groupData (grp wr : UInt8) : UInt8 :=
  if wr = 0 then 0x70 + grp - 1 else if wr = 1 then 0x60 + grp - 1 else 0x00

/-- The address of one lamp. -/
def shortAddress (adr : UInt8) : Address := { shortAdr := true, data := adr }

def setGroup (grp adr wr type : UInt8) : List (Medium × Package) :=
  daliDoubleSend (frame packageAddress (shortAddress adr) (groupData grp wr)) type

/-- The query of `get_group`. -/
def getGroup (adr hl type : UInt8) : List (Medium × Package) :=
  let data1 : UInt8 := if hl = 1 then 0xC1 else if hl = 0 then 0xC0 else 0x00
  [(if type < 0x0A then .cable else .radio, frame packageAddress (shortAddress adr) data1)]

/-- The message `set_gurup`. -/
structure SetGurup where
  gurup : UInt8
  adres : UInt8
  yaz : UInt8
  type : UInt8
  deriving DecidableEq, Repr

def SetGurup.frames (c : SetGurup) : List (Medium × Package) :=
  setGroup packageAddress c.gurup c.adres c.yaz c.type ++
    getGroup packageAddress c.adres 0 c.type ++ getGroup packageAddress c.adres 1 c.type

end

/-- The choices of the setup page for a wall button. -/
inductive TusChoice
  | gurup (n : UInt8)
  | senaryo (n : UInt8)
  | tumLambalar
  | etkisiz
  deriving DecidableEq, Repr

/-- The options of `TUS1`, `TUS2` and `TUS3`, with their values. -/
def tusOptions : List (UInt8 × TusChoice) :=
  [(0, .gurup 1), (1, .gurup 2), (2, .gurup 3), (3, .gurup 4), (4, .gurup 5), (5, .gurup 6),
    (6, .gurup 7), (7, .gurup 8), (8, .senaryo 1), (9, .senaryo 2), (10, .senaryo 3),
    (11, .senaryo 4), (12, .tumLambalar), (13, .etkisiz)]

inductive ButtonStatus
  | on
  | off
  | all
  | empty
  deriving DecidableEq, Repr

def btnStat (cfg : UInt8) (btn : ButtonStatus) : ButtonStatus :=
  let kk := if cfg = 13 then .empty else btn
  let kk := if cfg < 8 ∨ cfg = 12 then (if kk = .on then .off else .on) else kk
  if 7 < cfg ∧ cfg < 12 then .all else kk

def btnAction (cfg : UInt8) (btn : ButtonStatus) (pow : UInt8) : List DaliCall :=
  (if cfg < 8 then
    (if btn = .on then [.arcPower cfg 1 pow] else []) ++
      (if btn = .off then [.off cfg 1] else [])
  else []) ++
  (if cfg = 12 then
    (if btn = .on then [.arcPower 255 0 pow] else []) ++
      (if btn = .off then [.off 255 0] else [])
  else []) ++
  (if 7 < cfg ∧ cfg < 12 then
    (if btn = .all then [.commandAction 255 0 (cfg - 2)] else [])
  else [])

/-- A message `arc_power` or `off`, or a click of a button that is set up with `cfg`. -/
inductive LampCommand
  | arcPower (adres gurup power : UInt8)
  | off (adres gurup : UInt8)
  | click (cfg : UInt8) (status : ButtonStatus) (pow : UInt8)
  deriving DecidableEq, Repr

def LampCommand.calls : LampCommand → List DaliCall
  | .arcPower adres gurup power => [.arcPower adres gurup (if power = 255 then 254 else power)]
  | .off adres gurup => [.off adres gurup]
  | .click cfg status pow => btnAction cfg (btnStat cfg status) pow

/-- A command for group `n`. -/
def LampCommand.For (n : UInt8) : LampCommand → Prop
  | .arcPower adres gurup _ | .off adres gurup => adres = n ∧ gurup ≠ 0
  | .click cfg _ _ => (cfg, .gurup n) ∈ tusOptions

/-! ### The lamps -/

/-- A lamp: its groups, and the configuration command that it has received once. -/
structure Lamp where
  medium : Medium
  short : UInt8
  groups : UInt8 → Bool
  first : Option Package

def newLamp (medium : Medium) (short : UInt8) : Lamp := ⟨medium, short, fun _ => false, none⟩

/-- The group that an address byte stands for. -/
def groupOf (b : UInt8) : Option UInt8 :=
  if b &&& 0xE0 = 0x80 then some (b >>> 1 &&& 0x0F) else none

/-- The address byte reaches the lamp: its own address, one of its groups, or all lamps. -/
def Lamp.reached (l : Lamp) (b : UInt8) : Bool :=
  decide (b &&& 0x80 = 0 ∧ b >>> 1 = l.short) || ((groupOf b).any l.groups) ||
    decide (b &&& 0xFE = 0xFE)

/-- The frame is a command of the lamp to join or leave a group. -/
def Lamp.configures (l : Lamp) (pk : Package) : Bool :=
  l.reached pk.data0 && decide (pk.data0 &&& 1 = 1 ∧ pk.data1 &&& 0xE0 = 0x60)

def Lamp.configure (l : Lamp) (data1 : UInt8) : Lamp :=
  { l with groups := Function.update l.groups (data1 &&& 0x0F) (decide (data1 &&& 0xF0 = 0x60)) }

/-- A lamp receives the frames on its medium.  A configuration command takes effect when it comes a
second time in a row. -/
def Lamp.receive (l : Lamp) (f : Medium × Package) : Lamp :=
  if f.1 ≠ l.medium then l
  else if l.configures f.2 then
    if l.first = some f.2 then { l.configure f.2.data1 with first := none }
    else { l with first := some f.2 }
  else { l with first := none }

section

variable (packageAddress : Address → UInt8)

/-- A new lamp after the messages `set_gurup`. -/
def lampAfter (medium : Medium) (short : UInt8) (cs : List SetGurup) : Lamp :=
  (cs.flatMap fun c => c.frames packageAddress).foldl Lamp.receive (newLamp medium short)

/-- `package_address` encodes short addresses and groups as DALI does. -/
structure Encodes : Prop where
  short : ∀ a < 64, packageAddress (shortAddress a) = 2 * a + 1
  group : ∀ d < 16, ∀ arc, packageAddress { groupAdr := true, arcPower := arc, data := d } =
    0x80 + 2 * d + if arc then 0 else 1

end

/-- The numbers that the app sends. -/
structure SetGurup.Valid (c : SetGurup) : Prop where
  gurup : 1 ≤ c.gurup ∧ c.gurup ≤ 16
  adres : c.adres < 64
  yaz : c.yaz = 0 ∨ c.yaz = 1

/-- The type stands for the medium, or for both. -/
def Covers (type : UInt8) (medium : Medium) : Prop :=
  type = 0x99 ∨ (type < 0x0A ↔ medium = .cable)

instance (type : UInt8) (medium : Medium) : Decidable (Covers type medium) :=
  inferInstanceAs (Decidable (_ ∨ _))

/-- The message is for the lamp and the group. -/
def SetGurup.Concerns (c : SetGurup) (medium : Medium) (short n : UInt8) : Prop :=
  c.adres = short ∧ Covers c.type medium ∧ c.gurup = n

instance (c : SetGurup) (medium : Medium) (short n : UInt8) :
    Decidable (c.Concerns medium short n) := inferInstanceAs (Decidable (_ ∧ _ ∧ _))

/-- The last message for the lamp and the group added it. -/
def LastAdded (cs : List SetGurup) (medium : Medium) (short n : UInt8) : Prop :=
  ∃ c, (cs.filter (·.Concerns medium short n)).getLast? = some c ∧ c.yaz = 1

/-! ### Bytes -/

theorem shortByte {a : UInt8} (ha : a < 64) : (2 * a + 1) &&& 0x80 = 0 ∧ (2 * a + 1) >>> 1 = a ∧
    groupOf (2 * a + 1) = none ∧ (2 * a + 1) &&& 0xFE ≠ 0xFE ∧ (2 * a + 1) &&& 1 = 1 := by
  obtain ⟨⟨a⟩⟩ := a
  revert a
  decide +kernel

theorem groupOf_groupByte {d : UInt8} (hd : d < 16) (arc : Bool) :
    groupOf (0x80 + 2 * d + if arc then 0 else 1) = some d := by
  obtain ⟨⟨d⟩⟩ := d
  revert d
  cases arc <;> decide +kernel

/-- A group byte is no short address and does not reach all lamps. -/
theorem groupOf_class {b : UInt8} (hb : (groupOf b).isSome) :
    b &&& 0x80 ≠ 0 ∧ b &&& 0xFE ≠ 0xFE := by
  obtain ⟨⟨b⟩⟩ := b
  revert b
  decide +kernel

/-- The command bytes of `set_group`. -/
theorem groupCommand {n : UInt8} (hn : 1 ≤ n ∧ n ≤ 16) :
    (0x60 + n - 1 &&& 0xE0 = 0x60 ∧ 0x60 + n - 1 &&& 0x0F = n - 1 ∧
      0x60 + n - 1 &&& 0xF0 = 0x60) ∧
    0x70 + n - 1 &&& 0xE0 = 0x60 ∧ 0x70 + n - 1 &&& 0x0F = n - 1 ∧
      0x70 + n - 1 &&& 0xF0 ≠ 0x60 := by
  obtain ⟨⟨n⟩⟩ := n
  revert n
  decide +kernel

/-! ### What a lamp makes of one message -/

theorem reached_short (l : Lamp) {a : UInt8} (ha : a < 64) :
    l.reached (2 * a + 1) = decide (a = l.short) := by
  obtain ⟨hclass, hshift, hgroup, hall, -⟩ := shortByte ha
  simp [Lamp.reached, hclass, hshift, hgroup, hall]

theorem configures_frame {packageAddress : Address → UInt8} (hpa : Encodes packageAddress)
    (l : Lamp) {a : UInt8} (ha : a < 64) (data1 : UInt8) :
    l.configures (frame packageAddress (shortAddress a) data1) =
      decide (a = l.short ∧ data1 &&& 0xE0 = 0x60) := by
  obtain ⟨-, -, -, -, hcommand⟩ := shortByte ha
  simp [Lamp.configures, frame, hpa.short a ha, reached_short l ha, hcommand]

theorem receive_other {l : Lamp} {f : Medium × Package} (h : f.1 ≠ l.medium) : l.receive f = l :=
  if_pos h

theorem receive_idle {l : Lamp} (hl : l.first = none) {f : Medium × Package}
    (h : l.configures f.2 = false) : l.receive f = l := by
  unfold Lamp.receive
  split
  · rfl
  · rw [h, if_neg Bool.false_ne_true, ← hl]

theorem receive_twice {l : Lamp} (hl : l.first = none) {f : Medium × Package}
    (hmedium : f.1 = l.medium) (h : l.configures f.2 = true) :
    (l.receive f).receive f = l.configure f.2.data1 := by
  have hfirst : l.receive f = { l with first := some f.2 } := by
    unfold Lamp.receive
    rw [if_neg (not_not_intro hmedium), if_pos h, if_neg (by rw [hl]; exact nofun)]
  have hagain : ({ l with first := some f.2 } : Lamp).configures f.2 = true := h
  rw [hfirst, Lamp.receive, if_neg (not_not_intro hmedium), if_pos hagain, if_pos rfl]
  show ({ l.configure f.2.data1 with first := none } : Lamp) = _
  rw [← hl]
  rfl

theorem groupData_valid {c : SetGurup} (hc : c.Valid) :
    groupData c.gurup c.yaz &&& 0xE0 = 0x60 ∧
    ∀ l : Lamp, l.configure (groupData c.gurup c.yaz) =
      { l with groups := Function.update l.groups (c.gurup - 1) (decide (c.yaz = 1)) } := by
  obtain ⟨⟨hadd, haddGroup, haddClass⟩, hdel, hdelGroup, hdelClass⟩ := groupCommand hc.gurup
  rcases hc.yaz with h | h
  · have hdata : groupData c.gurup c.yaz = 0x70 + c.gurup - 1 := by rw [groupData, if_pos h]
    rw [hdata]
    refine ⟨hdel, fun l => ?_⟩
    rw [Lamp.configure, hdelGroup, decide_eq_false hdelClass, h]
    rfl
  · have hdata : groupData c.gurup c.yaz = 0x60 + c.gurup - 1 := by
      rw [groupData, h]
      rfl
    rw [hdata]
    refine ⟨hadd, fun l => ?_⟩
    rw [Lamp.configure, haddGroup, decide_eq_true haddClass, h]
    rfl

/-- The lamp, with the membership that a message for it leaves. -/
def Lamp.after (l : Lamp) (c : SetGurup) : Lamp :=
  if c.adres = l.short ∧ Covers c.type l.medium then
    { l with groups := Function.update l.groups (c.gurup - 1) (decide (c.yaz = 1)) }
  else l

theorem receive_medium (l : Lamp) (f : Medium × Package) : (l.receive f).medium = l.medium := by
  unfold Lamp.receive
  repeat' split
  all_goals rfl

/-- `DaliSend` puts the frame on the lamp's medium once, if the type covers it. -/
theorem foldl_daliSend (l : Lamp) (pk : Package) (type : UInt8) :
    (daliSend pk type).foldl Lamp.receive l =
      if Covers type l.medium then l.receive (l.medium, pk) else l := by
  have hother {l : Lamp} {m : Medium} (h : m ≠ l.medium) : l.receive (m, pk) = l := receive_other h
  unfold daliSend Covers
  by_cases hall : type = 0x99
  · cases hm : l.medium with
    | cable =>
      have hradio : Medium.radio ≠ (l.receive (.cable, pk)).medium := by
        rw [receive_medium, hm]
        exact nofun
      simp [hall, hother hradio]
    | radio =>
      have hcable : Medium.cable ≠ l.medium := by
        rw [hm]
        exact nofun
      simp [hall, hother hcable]
  · by_cases hcable : type < 0x0A <;> cases hm : l.medium <;>
      simp [hall, hcable, receive_other, hm]

/-- A double send of a command of the lamp is carried out once. -/
theorem foldl_daliDoubleSend {l : Lamp} (hl : l.first = none) {pk : Package}
    (hconfig : l.configures pk = true) {type : UInt8} (hcover : Covers type l.medium) :
    (daliDoubleSend pk type).foldl Lamp.receive l = l.configure pk.data1 := by
  have honce : (daliSend pk type).foldl Lamp.receive l = l.receive (l.medium, pk) := by
    rw [foldl_daliSend, if_pos hcover]
  have hagain : Covers type (l.receive (l.medium, pk)).medium := by
    rw [receive_medium]
    exact hcover
  rw [daliDoubleSend, List.foldl_append, honce, foldl_daliSend, if_pos hagain, receive_medium]
  exact receive_twice hl rfl hconfig

theorem after_first {l : Lamp} (hl : l.first = none) (c : SetGurup) : (l.after c).first = none := by
  unfold Lamp.after
  split <;> exact hl

theorem after_medium (l : Lamp) (c : SetGurup) : (l.after c).medium = l.medium := by
  unfold Lamp.after
  split <;> rfl

theorem after_short (l : Lamp) (c : SetGurup) : (l.after c).short = l.short := by
  unfold Lamp.after
  split <;> rfl

theorem foldl_setGroup {packageAddress : Address → UInt8} (hpa : Encodes packageAddress)
    {c : SetGurup} (hc : c.Valid) {l : Lamp} (hl : l.first = none) :
    (setGroup packageAddress c.gurup c.adres c.yaz c.type).foldl Lamp.receive l = l.after c := by
  obtain ⟨hclass, hconfigure⟩ := groupData_valid hc
  have hconfig := configures_frame hpa l hc.adres (groupData c.gurup c.yaz)
  by_cases hmine : c.adres = l.short ∧ Covers c.type l.medium
  · rw [Lamp.after, if_pos hmine, ← hconfigure]
    refine foldl_daliDoubleSend hl ?_ hmine.2
    rw [hconfig]
    exact decide_eq_true ⟨hmine.1, hclass⟩
  · rw [Lamp.after, if_neg hmine, setGroup, daliDoubleSend, List.foldl_append]
    have hquiet : (daliSend (frame packageAddress (shortAddress c.adres)
        (groupData c.gurup c.yaz)) c.type).foldl Lamp.receive l = l := by
      rw [foldl_daliSend]
      split
      · rename_i hcover
        refine receive_idle hl (hconfig.trans (decide_eq_false fun h => hmine ⟨h.1, hcover⟩))
      · rfl
    rw [hquiet, hquiet]

/-- The queries of `get_group` change no lamp. -/
theorem foldl_getGroup {packageAddress : Address → UInt8} (hpa : Encodes packageAddress)
    {adr : UInt8} (hadr : adr < 64) {hl : UInt8} (hhl : hl = 0 ∨ hl = 1) (type : UInt8) {l : Lamp}
    (hfirst : l.first = none) :
    (getGroup packageAddress adr hl type).foldl Lamp.receive l = l := by
  refine receive_idle hfirst ((configures_frame hpa l hadr _).trans (decide_eq_false ?_))
  rintro ⟨-, h⟩
  revert h
  rcases hhl with rfl | rfl <;> decide

theorem foldl_frames {packageAddress : Address → UInt8} (hpa : Encodes packageAddress)
    {c : SetGurup} (hc : c.Valid) {l : Lamp} (hl : l.first = none) :
    (c.frames packageAddress).foldl Lamp.receive l = l.after c := by
  have hfirst := after_first hl c
  rw [SetGurup.frames, List.foldl_append, List.foldl_append, foldl_setGroup hpa hc hl,
    foldl_getGroup hpa hc.adres (Or.inl rfl) c.type hfirst,
    foldl_getGroup hpa hc.adres (Or.inr rfl) c.type hfirst]

/-! ### Histories -/

theorem lastAdded_concat (cs : List SetGurup) (c : SetGurup) (medium : Medium) (short n : UInt8) :
    LastAdded (cs ++ [c]) medium short n ↔
      if c.Concerns medium short n then c.yaz = 1 else LastAdded cs medium short n := by
  unfold LastAdded
  rw [List.filter_append]
  by_cases hmine : c.Concerns medium short n
  · simp [hmine]
  · simp [hmine]

/-- A lamp is in the groups that it was last added to. -/
structure Placed (medium : Medium) (short : UInt8) (cs : List SetGurup) (l : Lamp) : Prop where
  onMedium : l.medium = medium
  hasShort : l.short = short
  first : l.first = none
  groups : ∀ n, 1 ≤ n → n ≤ 16 → (l.groups (n - 1) = true ↔ LastAdded cs medium short n)

theorem lampAfter_placed {packageAddress : Address → UInt8} (hpa : Encodes packageAddress)
    (medium : Medium) (short : UInt8) {cs : List SetGurup} (hcs : ∀ c ∈ cs, c.Valid) :
    Placed medium short cs (lampAfter packageAddress medium short cs) := by
  induction cs using List.reverseRecOn with
  | nil =>
    refine ⟨rfl, rfl, rfl, fun n _ _ => iff_of_false Bool.false_ne_true ?_⟩
    rintro ⟨c, hc, -⟩
    cases hc
  | append_singleton cs c ih =>
    have hc : c.Valid := hcs c (by simp)
    obtain ⟨hmedium, hshort, hfirst, hgroups⟩ := ih fun d hd => hcs d (List.mem_append_left _ hd)
    have hstep : lampAfter packageAddress medium short (cs ++ [c]) =
        (lampAfter packageAddress medium short cs).after c := by
      rw [lampAfter, List.flatMap_append, List.foldl_append, List.flatMap_singleton]
      exact foldl_frames hpa hc hfirst
    rw [hstep]
    refine ⟨(after_medium _ c).trans hmedium, (after_short _ c).trans hshort,
      after_first hfirst c, fun n hn hn' => ?_⟩
    by_cases hmine : c.Concerns medium short n
    · obtain ⟨hadres, hcover, rfl⟩ := hmine
      have hafter : ((lampAfter packageAddress medium short cs).after c).groups (c.gurup - 1) =
          decide (c.yaz = 1) := by
        have hcover' : Covers c.type (lampAfter packageAddress medium short cs).medium := by
          rw [hmedium]
          exact hcover
        rw [Lamp.after, if_pos ⟨hadres.trans hshort.symm, hcover'⟩]
        exact Function.update_self ..
      rw [hafter, decide_eq_true_iff, lastAdded_concat, if_pos ⟨hadres, hcover, rfl⟩]
    · rw [lastAdded_concat, if_neg hmine, ← hgroups n hn hn']
      have hafter : ((lampAfter packageAddress medium short cs).after c).groups (n - 1) =
          (lampAfter packageAddress medium short cs).groups (n - 1) := by
        unfold Lamp.after
        split
        · rename_i h
          refine Function.update_of_ne (fun he => hmine ?_) ..
          exact ⟨h.1.trans hshort, hmedium ▸ h.2, ((UInt8.sub_left_inj 1).mp he).symm⟩
        · rfl
      rw [hafter]

/-! ### Group commands -/

/-- The command goes to the group that `set_group` uses for number `n`, and reaches the lamps that
were last added to it. -/
structure OnGroup (packageAddress : Address → UInt8) (cs : List SetGurup) (n : UInt8)
    (calls : List DaliCall) : Prop where
  one : calls.length = 1
  group : ∀ k ∈ calls, groupOf (k.package packageAddress).data0 = some (n - 1)
  lamps : ∀ k ∈ calls, ∀ medium, ∀ short < 64,
    (lampAfter packageAddress medium short cs).reached (k.package packageAddress).data0 = true ↔
      LastAdded cs medium short n

/-- The command comes from a TCP message.  A wall button for group 1 asks `package_address` for
group data 255, and the others for the group before theirs. -/
def LampCommand.Fits (packageAddress : Address → UInt8) : LampCommand → Prop
  | .arcPower .. | .off .. => True
  | .click cfg status _ => cfg = 0 ∧ groupOf (packageAddress
      { groupAdr := true, arcPower := decide (btnStat cfg status = .on), data := 255 }) = some 0

theorem reached_group (l : Lamp) {b d : UInt8} (h : groupOf b = some d) :
    l.reached b = l.groups d := by
  obtain ⟨hshort, hall⟩ := groupOf_class (b := b) (by rw [h]; rfl)
  simp [Lamp.reached, hshort, hall, h]

theorem adresType_group (adr : UInt8) {gurup : UInt8} (h : gurup ≠ 0) :
    adresType adr gurup {} = { groupAdr := true, data := adr - 1 } := by
  by_cases hall : adr = 255 <;> simp [adresType, h, hall]

/-- The only call of a command reaches the lamps of the group that its frame goes to. -/
theorem onGroup_singleton {packageAddress : Address → UInt8} (hpa : Encodes packageAddress)
    {cs : List SetGurup} (hcs : ∀ c ∈ cs, c.Valid) {n : UInt8} (hn : 1 ≤ n ∧ n ≤ 16)
    (k : DaliCall) : OnGroup packageAddress cs n [k] ↔
      groupOf (k.package packageAddress).data0 = some (n - 1) := by
  refine ⟨fun h => h.group k List.mem_cons_self, fun h => ⟨rfl, ?_, ?_⟩⟩
  · intro k' hk'
    obtain rfl := List.mem_singleton.mp hk'
    exact h
  · intro k' hk' medium short _
    obtain rfl := List.mem_singleton.mp hk'
    rw [reached_group _ h]
    exact (lampAfter_placed hpa medium short hcs).groups n hn.1 hn.2

theorem groupOf_call {packageAddress : Address → UInt8} (hpa : Encodes packageAddress)
    {d : UInt8} (hd : d < 16) (arc : Bool) :
    groupOf (packageAddress { groupAdr := true, arcPower := arc, data := d }) = some d := by
  rw [hpa.group d hd arc, groupOf_groupByte hd]

theorem pred_lt_sixteen {n : UInt8} (hn : 1 ≤ n ∧ n ≤ 16) : n - 1 < 16 := by
  obtain ⟨⟨n⟩⟩ := n
  revert n
  decide +kernel

theorem pred_of_lt_eight {cfg : UInt8} (h : cfg < 8) (h0 : cfg ≠ 0) :
    cfg - 1 < 16 ∧ cfg - 1 ≠ cfg := by
  obtain ⟨⟨cfg⟩⟩ := cfg
  revert cfg
  decide +kernel

theorem gurup_option {cfg n : UInt8} (h : (cfg, TusChoice.gurup n) ∈ tusOptions) :
    cfg < 8 ∧ n - 1 = cfg := by
  simp only [tusOptions, List.mem_cons, Prod.mk.injEq, TusChoice.gurup.injEq, reduceCtorEq,
    and_false, List.not_mem_nil, or_false] at h
  obtain ⟨rfl, rfl⟩ | ⟨rfl, rfl⟩ | ⟨rfl, rfl⟩ | ⟨rfl, rfl⟩ | ⟨rfl, rfl⟩ | ⟨rfl, rfl⟩ |
    ⟨rfl, rfl⟩ | ⟨rfl, rfl⟩ := h <;> decide

/-- A click of a group button makes one call for group number `cfg`. -/
theorem click_calls {cfg : UInt8} (hcfg : cfg < 8) (status : ButtonStatus) (pow : UInt8) :
    (btnStat cfg status = .on ∧ btnAction cfg (btnStat cfg status) pow = [.arcPower cfg 1 pow]) ∨
    (btnStat cfg status = .off ∧ btnAction cfg (btnStat cfg status) pow = [.off cfg 1]) := by
  have hall : cfg ≠ 12 := by
    rintro rfl
    exact absurd hcfg (by decide)
  have hnone : cfg ≠ 13 := by
    rintro rfl
    exact absurd hcfg (by decide)
  have hscene : ¬(7 < cfg ∧ cfg < 12) := by
    rintro ⟨h, -⟩
    rw [UInt8.lt_iff_toNat_lt] at h hcfg
    exact absurd (Nat.lt_of_lt_of_le h (Nat.le_of_lt_succ hcfg)) (Nat.lt_irrefl 7)
  have hstat : btnStat cfg status = if status = .on then .off else .on := by
    simp [btnStat, hcfg, hnone, hscene]
  have haction (btn : ButtonStatus) : btnAction cfg btn pow =
      (if btn = .on then [.arcPower cfg 1 pow] else []) ++
        (if btn = .off then [.off cfg 1] else []) := by
    simp [btnAction, hcfg, hall, hscene]
  rw [hstat, haction]
  cases status
  · exact Or.inr ⟨rfl, rfl⟩
  · exact Or.inl ⟨rfl, rfl⟩
  · exact Or.inl ⟨rfl, rfl⟩
  · exact Or.inl ⟨rfl, rfl⟩

/-- Taken from option value `cfg`, the group is the one before, and there is none before the
first. -/
theorem groupOf_click {packageAddress : Address → UInt8} (hpa : Encodes packageAddress)
    {cfg n : UInt8} (hcfg : cfg < 8) (hn : n - 1 = cfg) (arc : Bool) :
    groupOf (packageAddress { groupAdr := true, arcPower := arc, data := cfg - 1 }) =
        some (n - 1) ↔
      cfg = 0 ∧ groupOf (packageAddress { groupAdr := true, arcPower := arc, data := 255 }) =
        some 0 := by
  rw [hn]
  by_cases hzero : cfg = 0
  · subst hzero
    exact (and_iff_right rfl).symm
  · have hpred : cfg - 1 < 16 ∧ cfg - 1 ≠ cfg := pred_of_lt_eight hcfg hzero
    rw [groupOf_call hpa hpred.1]
    exact iff_of_false (fun h => hpred.2 (Option.some.inj h)) fun h => hzero h.1

/-- A command for group `n` acts on the lamps last added to that group if it comes from a TCP
message, and a wall button's does not. -/
theorem groupCommand_iff {packageAddress : Address → UInt8} (hpa : Encodes packageAddress)
    {cs : List SetGurup} (hcs : ∀ c ∈ cs, c.Valid) {n : UInt8} (hn : 1 ≤ n ∧ n ≤ 16)
    {k : LampCommand} (hk : k.For n) :
    OnGroup packageAddress cs n k.calls ↔ k.Fits packageAddress := by
  cases k with
  | arcPower adres gurup power =>
    obtain ⟨rfl, hgurup⟩ := hk
    refine iff_of_true ((onGroup_singleton hpa hcs hn _).mpr ?_) trivial
    show groupOf (packageAddress { adresType adres gurup {} with arcPower := true }) = _
    rw [adresType_group adres hgurup]
    exact groupOf_call hpa (pred_lt_sixteen hn) true
  | off adres gurup =>
    obtain ⟨rfl, hgurup⟩ := hk
    refine iff_of_true ((onGroup_singleton hpa hcs hn _).mpr ?_) trivial
    show groupOf (packageAddress { adresType adres gurup {} with arcPower := false }) = _
    rw [adresType_group adres hgurup]
    exact groupOf_call hpa (pred_lt_sixteen hn) false
  | click cfg status pow =>
    obtain ⟨hcfg, hn1⟩ := gurup_option hk
    show OnGroup packageAddress cs n (btnAction cfg (btnStat cfg status) pow) ↔ _ ∧ _
    obtain ⟨hstat, hcalls⟩ | ⟨hstat, hcalls⟩ := click_calls hcfg status pow
    · rw [hcalls, onGroup_singleton hpa hcs hn, hstat]
      show groupOf (packageAddress { adresType cfg 1 {} with arcPower := true }) = _ ↔ _
      rw [adresType_group cfg (by decide)]
      exact groupOf_click hpa hcfg hn1 true
    · rw [hcalls, onGroup_singleton hpa hcs hn, hstat]
      show groupOf (packageAddress { adresType cfg 1 {} with arcPower := false }) = _ ↔ _
      rw [adresType_group cfg (by decide)]
      exact groupOf_click hpa hcfg hn1 false

theorem addressByte_encodes : Encodes addressByte where
  short a _ := rfl
  group d _ arc := by cases arc <;> rfl

/-- Lamps 5 and 6 join group 3, and lamp 6 leaves it again. -/
def gurup3 : List SetGurup := [⟨3, 5, 1, 0⟩, ⟨3, 6, 1, 0⟩, ⟨3, 6, 0, 0⟩]

theorem gurup3_valid : ∀ c ∈ gurup3, c.Valid := by
  have hvalid {a w : UInt8} (ha : a < 64) (hw : w = 0 ∨ w = 1) : (⟨3, a, w, 0⟩ : SetGurup).Valid :=
    ⟨(by decide : (1 : UInt8) ≤ 3 ∧ (3 : UInt8) ≤ 16), ha, hw⟩
  intro c hc
  simp only [gurup3, List.mem_cons, List.not_mem_nil, or_false] at hc
  obtain rfl | rfl | rfl := hc
  · exact hvalid (by decide) (Or.inr rfl)
  · exact hvalid (by decide) (Or.inr rfl)
  · exact hvalid (by decide) (Or.inl rfl)

theorem groupCommand_gurup3 :
    OnGroup addressByte gurup3 3 (LampCommand.arcPower 3 1 200).calls := by
  have hfor : (LampCommand.arcPower 3 1 200).For 3 := ⟨rfl, by decide⟩
  exact (groupCommand_iff addressByte_encodes gurup3_valid (by decide) hfor).mpr trivial

/-- The wall button for group 3 sends its command to group 2, and lamp 5 does not react. -/
theorem button_misses : (2, .gurup 3) ∈ tusOptions ∧
    (LampCommand.click 2 .empty 200).calls = [.arcPower 2 1 200] ∧
    groupOf ((DaliCall.arcPower 2 1 200).package addressByte).data0 = some 1 ∧
    (lampAfter addressByte .cable 5 gurup3).groups 2 = true ∧
    (lampAfter addressByte .cable 5 gurup3).reached
      ((DaliCall.arcPower 2 1 200).package addressByte).data0 = false ∧
    ¬OnGroup addressByte gurup3 3 (LampCommand.click 2 .empty 200).calls := by
  have hgroup : groupOf ((DaliCall.arcPower 2 1 200).package addressByte).data0 = some 1 := by
    decide
  refine ⟨by decide, rfl, hgroup, by decide +kernel, by decide +kernel, fun h => ?_⟩
  have hwrong := h.group _ (List.mem_singleton_self _)
  rw [hgroup] at hwrong
  cases hwrong

end DaliController.Lamps
