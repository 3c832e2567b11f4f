import DaliController.Lamps.Opcodes
import DaliController.Lib.Confirm
import DaliController.Udp.Gateway

/-! The messages that set and read the settings of the lamps: their scenes, levels and fade times,
and their groups.  A value goes to the data transfer register of every lamp first, and the command
that follows tells one lamp where to keep it. -/

namespace DaliController.Lamps.Settings

open Confirm Dali Schedule Udp

/-! ### The lamps -/

/-- What a lamp keeps. -/
inductive Register
  | maxLevel
  | minLevel
  | failLevel
  | powerOnLevel
  | fadeTime
  | fadeRate
  | extFade
  | scene (n : Fin 16)
  deriving DecidableEq, Repr

/-- What the makers of lamps are free to choose.  `rest` is all that the settings do not determine,
such as the level and the lamp's failures. -/
structure GearKind (ρ : Type) where
  keep : Register → UInt8 → UInt8
  defaults : Register → UInt8
  fade : UInt8 → UInt8 → UInt8
  react : Package → ρ → ρ
  level : ρ → UInt8
  status : ρ → UInt8

/-- A lamp.  `dtr` is its data transfer register. -/
structure ControlGear (ρ : Type) where
  kind : GearKind ρ
  medium : Medium
  short : UInt8
  groups : UInt8 → Bool
  registers : Register → UInt8
  dtr : UInt8
  rest : ρ

/-- The scene that the low half of a command byte names. -/
def sceneOf (data1 : UInt8) : Fin 16 := ⟨data1.toNat % 16, Nat.mod_lt _ (by decide)⟩

/-- The register that a command stores the transfer register to. -/
def storeRegister (data1 : UInt8) : Option Register :=
  if data1 = 0x2A then some .maxLevel
  else if data1 = 0x2B then some .minLevel
  else if data1 = 0x2C then some .failLevel
  else if data1 = 0x2D then some .powerOnLevel
  else if data1 = 0x2E then some .fadeTime
  else if data1 = 0x2F then some .fadeRate
  else if data1 = 0x30 then some .extFade
  else if data1 &&& 0xF0 = 0x40 then some (.scene (sceneOf data1))
  else none

/-- A membership byte: groups 0 to 7, or 8 to 15. -/
def groupByte (groups : UInt8 → Bool) (hl : UInt8) : UInt8 :=
  (List.range 8).foldl
    (fun b i => if groups (UInt8.ofNat i + 8 * hl) then b ||| (1 <<< UInt8.ofNat i) else b) 0

namespace ControlGear

variable {ρ : Type} (g : ControlGear ρ)

def reached (b : UInt8) : Bool := (⟨g.medium, g.short, g.groups, none⟩ : Lamp).reached b

/-- A command for the lamp that has to come twice. -/
def configures (pk : Package) : Bool :=
  g.reached pk.data0 &&
    decide (pk.data0 &&& 1 = 1 ∧ 0x20 ≤ pk.data1 ∧ pk.data1 ≤ 0x81)

def store (r : Register) (value : UInt8) : ControlGear ρ :=
  { g with registers := Function.update g.registers r value }

/-- Reset, the level to the transfer register, the scenes and the groups, and the registers. -/
def configure (pk : Package) : ControlGear ρ :=
  if pk.data1 = 0x20 then { g with groups := fun _ => false, registers := g.kind.defaults }
  else if pk.data1 = 0x21 then { g with dtr := g.kind.level g.rest }
  else if pk.data1 &&& 0xF0 = 0x50 then g.store (.scene (sceneOf pk.data1)) 0xFF
  else if pk.data1 &&& 0xE0 = 0x60 then { g with
    groups := Function.update g.groups (pk.data1 &&& 0x0F) (decide (pk.data1 &&& 0xF0 = 0x60)) }
  else
    match storeRegister pk.data1 with
    | some r => g.store r (g.kind.keep r g.dtr)
    | none => g

/-- A value for the transfer register, or any other frame. -/
def heed (pk : Package) : ControlGear ρ :=
  if pk.data0 = 0xA3 then { g with dtr := pk.data1 }
  else { g with rest := g.kind.react pk g.rest }

/-- The reply to a query for the lamp. -/
def tell (data1 : UInt8) : Option UInt8 :=
  if data1 = 0x90 then some (g.kind.status g.rest)
  else if data1 = 0x98 then some g.dtr
  else if data1 = 0xA0 then some (g.kind.level g.rest)
  else if data1 = 0xA1 then some (g.registers .maxLevel)
  else if data1 = 0xA2 then some (g.registers .minLevel)
  else if data1 = 0xA3 then some (g.registers .powerOnLevel)
  else if data1 = 0xA4 then some (g.registers .failLevel)
  else if data1 = 0xA5 then some (g.kind.fade (g.registers .fadeTime) (g.registers .fadeRate))
  else if data1 = 0xA8 then some (g.registers .extFade)
  else if data1 &&& 0xF0 = 0xB0 then some (g.registers (.scene (sceneOf data1)))
  else if data1 = 0xC0 then some (groupByte g.groups 0)
  else if data1 = 0xC1 then some (groupByte g.groups 1)
  else none

def answer (pk : Package) : Option UInt8 :=
  if g.reached pk.data0 = true ∧ pk.data0 &&& 1 = 1 then g.tell pk.data1 else none

end ControlGear

def gearRules (ρ : Type) : Rules (ControlGear ρ) Package where
  twice := ControlGear.configures
  carryOut pk g := g.configure pk
  once pk g := g.heed pk

/-- The lamps on the cable and behind the gateway. -/
abbrev Bus (ρ : Type) := List (Device (ControlGear ρ) Package)

/-! ### Frames -/

section

variable {ρ : Type}

/-- A lamp hears the frames on its medium. -/
def hear (f : Medium × Package) (d : Device (ControlGear ρ) Package) :
    Device (ControlGear ρ) Package :=
  if d.state.medium = f.1 then d.receive (gearRules ρ) f.2 else d

def transmit (fs : List (Medium × Package)) (w : Bus ρ) : Bus ρ :=
  w.map fun d => fs.foldl (fun d f => hear f d) d

variable (clash : List UInt8 → Option UInt8) (top : TopByte)

/-- What arrives when the lamps reply to a frame.  Several replies at once may arrive as
anything. -/
def reply (f : Medium × Package) (w : Bus ρ) : Option UInt8 :=
  match w.filterMap fun d => if d.state.medium = f.1 then d.state.answer f.2 else none with
  | [] => none
  | [b] => some b
  | bs => clash bs

/-- `ysend_receive`. -/
def ysendReceive (pk : Package) (w : Bus ρ) : BackwordT × Bus ρ :=
  let w := transmit [(.cable, pk)] w
  match reply clash (.cable, pk) w with
  | some b => (⟨.data, b⟩, w)
  | none => (⟨.timeout, 0⟩, w)

/-- The gateway puts the frame on the air and returns the reply, if there is one. -/
def air (pk : Package) : UdpOps (Bus ρ) where
  sendAndReceive _ w :=
    let w := transmit [(.radio, pk)] w
    ((reply clash (.radio, pk) w).map fun b => Decimal.decimal b.toNat, w)

/-- `DaliSendReceive`. -/
def query (pk : Package) (type : UInt8) (w : Bus ρ) : BackwordT × Bus ρ :=
  daliSendReceive (air clash pk) top (ysendReceive clash) pk type w

end

/-! ### The code -/

section

variable {ρ : Type} (packageAddress : Address → UInt8)

/-- The command byte of `set_fade`. -/
def fadeData (comm : UInt8) : UInt8 :=
  if comm = 0 then 0x2F
  else if comm = 1 then 0x2E
  else if comm = 2 then 0x30
  else if comm = 3 then 0x2C
  else if comm = 4 then 0x2D
  else if comm = 5 then 0x2A
  else if comm = 6 then 0x2B
  else 0x00

def setFade (adr val comm type : UInt8) : List (Medium × Package) :=
  daliDoubleSend (specialPackage packageAddress 0x01 val) type ++
    daliDoubleSend (frame packageAddress (shortAddress adr) (fadeData comm)) type

def gearReset (adr type : UInt8) : List (Medium × Package) :=
  daliDoubleSend (frame packageAddress (shortAddress adr) 0x20) type

def perdeReset (addr type : UInt8) : List (Medium × Package) :=
  daliDoubleSend (frame packageAddress (shortAddress addr) 0xE0) type

variable (clash : List UInt8 → Option UInt8) (top : TopByte)

def getLevelCommand (adr comm type : UInt8) (w : Bus ρ) : BackwordT × Bus ρ :=
  query clash top (frame packageAddress (shortAddress adr) comm) type w

def getScene (adr scn type : UInt8) (w : Bus ρ) : BackwordT × Bus ρ :=
  query clash top (frame packageAddress (shortAddress adr) (0xB0 + scn)) type w

def getGroup (adr hl type : UInt8) (w : Bus ρ) : BackwordT × Bus ρ :=
  let data1 : UInt8 := if hl = 1 then 0xC1 else if hl = 0 then 0xC0 else 0x00
  query clash top (frame packageAddress (shortAddress adr) data1) type w

/-- `get_level`: a lamp that does not tell its level is asked to put it in the transfer register. -/
def getLevel (adr type : UInt8) (w : Bus ρ) : BackwordT × Bus ρ :=
  let (kk, w) := query clash top (frame packageAddress (shortAddress adr) 0xA0) type w
  if kk.backword = .timeout ∨ kk.backword = .data ∧ kk.data = 255 then
    let w := transmit (daliDoubleSend (frame packageAddress (shortAddress adr) 0x21) type) w
    query clash top (frame packageAddress (shortAddress adr) 0x98) type w
  else (kk, w)

/-- The answers of `get_detail`. -/
structure Detail where
  min : UInt8
  max : UInt8
  fail : UInt8
  fade : UInt8
  efade : UInt8
  powon : UInt8
  glob : UInt8
  deriving DecidableEq, Repr

/-- What is sent back to the client.  `error` holds when the item `error` is there. -/
inductive Report
  | status (adres gurup power : UInt8) (stat error : Bool)
  | sceneStatus (adres scene value : UInt8) (error : Bool)
  | group (adres low high : UInt8) (error : Bool)
  | getDetail (adres : UInt8) (d : Detail) (error : Bool)
  deriving DecidableEq, Repr

def isTimeout (r : BackwordT) : Bool := r.backword == .timeout

/-- The data of a reply, and 0 without one. -/
def dataOr (r : BackwordT) : UInt8 := if r.backword = .timeout then 0 else r.data

/-- The messages of `data_parse` for the lamps, with their parameters. -/
inductive Message
  | arcPower (adres gurup power : UInt8)
  | off (adres gurup : UInt8)
  | action (adres gurup komut : UInt8)
  | dalireset (adres type : UInt8)
  | sRefresh (adres type : UInt8)
  | sReset (adres type : UInt8)
  /-- `set_frate`, `set_ftime`, `set_efade`, `set_fail`, `set_pow`, `set_max` and `set_min`. -/
  | setFade (comm : Fin 7) (adres value type : UInt8)
  | getScene (adres scene type : UInt8)
  | setScene (adres scene value type : UInt8)
  | clearScene (adres scene type : UInt8)
  | getDetail (adres type : UInt8)
  | getGurup (adres type : UInt8)
  | setGurup (c : SetGurup)
  deriving DecidableEq, Repr

/-- The frames of a call. -/
def callFrames (k : DaliCall) : List (Medium × Package) := daliSend (k.package packageAddress) 0x99

/-- The reading and the report that `get_scene`, `set_scene` and `clear_scene` end with. -/
def reportScene (adr scn type : UInt8) (w : Bus ρ) : Option Report × Bus ρ :=
  let (val, w) := getScene packageAddress clash top adr scn type w
  (some (.sceneStatus adr scn (dataOr val) (isTimeout val)), w)

/-- `single_refresh`. -/
def singleRefresh (addr type : UInt8) (w : Bus ρ) : Option Report × Bus ρ :=
  let (lvl, w) := getLevel packageAddress clash top addr type w
  let (lvl, w) := if isTimeout lvl then getLevel packageAddress clash top addr type w else (lvl, w)
  (some (.status addr 0 lvl.data (decide (0 < lvl.data)) (isTimeout lvl)), w)

def reportGroup (adr type : UInt8) (w : Bus ρ) : Option Report × Bus ρ :=
  let (grp0, w) := getGroup packageAddress clash top adr 0 type w
  let (grp1, w) := getGroup packageAddress clash top adr 1 type w
  (some (.group adr (dataOr grp0) (dataOr grp1) (isTimeout grp0 || isTimeout grp1)), w)

def reportDetail (adr type : UInt8) (w : Bus ρ) : Option Report × Bus ρ :=
  let (min, w) := getLevelCommand packageAddress clash top adr 0xA2 type w
  let (max, w) := getLevelCommand packageAddress clash top adr 0xA1 type w
  let (fail, w) := getLevelCommand packageAddress clash top adr 0xA4 type w
  let (ponl, w) := getLevelCommand packageAddress clash top adr 0xA3 type w
  let (fade, w) := getLevelCommand packageAddress clash top adr 0xA5 type w
  let (efade, w) := getLevelCommand packageAddress clash top adr 0xA8 type w
  let (glob, w) := getLevelCommand packageAddress clash top adr 0x90 type w
  (some (.getDetail adr
      ⟨dataOr min, dataOr max, dataOr fail, dataOr fade, dataOr efade, dataOr ponl, dataOr glob⟩
      (isTimeout min || isTimeout max || isTimeout fail || isTimeout ponl || isTimeout fade ||
        isTimeout efade || isTimeout glob)), w)

/-- The handlers of `data_parse`. -/
def handle (w : Bus ρ) : Message → Option Report × Bus ρ
  | .arcPower adr grp power =>
    let power := if power = 255 then 254 else power
    (some (.status adr grp power (decide (0 < power)) false),
      transmit (callFrames packageAddress (.arcPower adr grp power)) w)
  | .off adr grp =>
    (some (.status adr grp 0 false false), transmit (callFrames packageAddress (.off adr grp)) w)
  | .action adr grp com =>
    (none, transmit (callFrames packageAddress (.commandAction adr grp com)) w)
  | .dalireset adr typ => (none, transmit (gearReset packageAddress adr typ) w)
  | .sRefresh adr typ => singleRefresh packageAddress clash top adr typ w
  | .sReset adr typ => (none, transmit (perdeReset packageAddress adr typ) w)
  | .setFade comm adr val typ =>
    (none, transmit (setFade packageAddress adr val (UInt8.ofNat comm) typ) w)
  | .getScene adr scn typ => reportScene packageAddress clash top adr scn typ w
  | .setScene adr scn val typ =>
    let w := transmit ((setScene packageAddress adr scn val typ).map fun f =>
      (f.medium, f.package)) w
    reportScene packageAddress clash top adr scn typ w
  | .clearScene adr scn typ =>
    let w := transmit ((clearScene packageAddress adr scn typ).map fun f =>
      (f.medium, f.package)) w
    reportScene packageAddress clash top adr scn typ w
  | .getDetail adr typ => reportDetail packageAddress clash top adr typ w
  | .getGurup adr typ => reportGroup packageAddress clash top adr typ w
  | .setGurup c =>
    let w := transmit (setGroup packageAddress c.gurup c.adres c.yaz c.type) w
    reportGroup packageAddress clash top c.adres c.type w

/-- The messages, one after another, with the reports that are sent. -/
def handleAll (w : Bus ρ) : List Message → List (Option Report) × Bus ρ
  | [] => ([], w)
  | m :: ms =>
    let (r, w) := handle packageAddress clash top w m
    let (rs, w) := handleAll w ms
    (r :: rs, w)

end

end DaliController.Lamps.Settings
