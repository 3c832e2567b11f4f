import DaliController.Lamps.Groups
import DaliController.Tcp.Json

/-! The command bytes of the messages `set_scene`, `clear_scene`, `get_scene`, `set_gurup` and
`action`.  `JSON_getint` keeps the low byte of a parameter, and the handlers add it to the first
byte of a class of commands without a check, so that a parameter out of range makes a command of
another class. -/

namespace DaliController.Lamps

open CString Dali Http Schedule Tcp

/-- What a frame is sent for: the command itself, the value it needs, or a look at the result. -/
inductive Role
  | own
  | dtr
  | readBack
  deriving DecidableEq, Repr

structure Sent where
  role : Role
  medium : Medium
  package : Package
  deriving DecidableEq, Repr

def sentAs (role : Role) (frames : List (Medium × Package)) : List Sent :=
  frames.map fun f => ⟨role, f.1, f.2⟩

/-! ### The code -/

section

variable {J : Type} [CJson J] (packageAddress : Address → UInt8)

/-- `special_command`. -/
def specialPackage (com dat : UInt8) : Package :=
  frame packageAddress { special := true, data := com } dat

/-- `set_scene`, with the value in front of the command. -/
def setScene (adr scn val type : UInt8) : List Sent :=
  sentAs .dtr (daliSend (specialPackage packageAddress 0x01 val) type ++
    daliSend (specialPackage packageAddress 0x01 val) type) ++
  sentAs .own (daliDoubleSend (frame packageAddress (shortAddress adr) (0x40 + scn)) type)

def clearScene (adr scn type : UInt8) : List Sent :=
  sentAs .own (daliDoubleSend (frame packageAddress (shortAddress adr) (0x50 + scn)) type)

/-- The query of `get_scene`. -/
def getScene (adr scn type : UInt8) : List (Medium × Package) :=
  [(if type < 0x0A then .cable else .radio, frame packageAddress (shortAddress adr) (0xB0 + scn))]

/-- `command_action`. -/
def commandAction (adr gurup comm : UInt8) : List (Medium × Package) :=
  daliSend (DaliCall.package packageAddress (.commandAction adr gurup comm)) 0x99

/-- The commands of `data_parse` with a parameter that becomes part of a command byte. -/
inductive BusCommand
  | setScene
  | clearScene
  | getScene
  | setGurup
  | action
  deriving DecidableEq, Repr

def BusCommand.com : BusCommand → String
  | .setScene => "set_scene"
  | .clearScene => "clear_scene"
  | .getScene => "get_scene"
  | .setGurup => "set_gurup"
  | .action => "action"

/-- What the handler of a command sends. -/
def handler (rcvJson : Option J) : BusCommand → List Sent
  | .setScene =>
    let adr := jsonGetint rcvJson "adres" 0
    let scn := jsonGetint rcvJson "scene" 0
    let val := jsonGetint rcvJson "value" 0
    let typ := jsonGetint rcvJson "type" 0
    setScene packageAddress adr scn val typ ++
      sentAs .readBack (getScene packageAddress adr scn typ)
  | .clearScene =>
    let adr := jsonGetint rcvJson "adres" 0
    let scn := jsonGetint rcvJson "scene" 0
    let typ := jsonGetint rcvJson "type" 0
    clearScene packageAddress adr scn typ ++
      sentAs .readBack (getScene packageAddress adr scn typ)
  | .getScene =>
    let adr := jsonGetint rcvJson "adres" 0
    let scn := jsonGetint rcvJson "scene" 0
    let typ := jsonGetint rcvJson "type" 0
    sentAs .own (getScene packageAddress adr scn typ)
  | .setGurup =>
    let grp := jsonGetint rcvJson "gurup" 0
    let adr := jsonGetint rcvJson "adres" 0
    let yaz := jsonGetint rcvJson "yaz" 0
    let typ := jsonGetint rcvJson "type" 0
    sentAs .own (setGroup packageAddress grp adr yaz typ) ++
      sentAs .readBack (getGroup packageAddress adr 0 typ ++ getGroup packageAddress adr 1 typ)
  | .action =>
    let adr := jsonGetint rcvJson "adres" 0
    let grp := jsonGetint rcvJson "gurup" 0
    let com := jsonGetint rcvJson "komut" 0
    sentAs .own (commandAction packageAddress adr grp com)

def busCommands : List BusCommand := [.action, .getScene, .setScene, .clearScene, .setGurup]

/-- What `data_parse` sends for these commands. -/
def dataParse (parse : List UInt8 → Option J) (data : List UInt8) :
    Except Fault (List Sent) := do
  let rcvJson := parse (cstring data)
  let command ← Receiver.dataParse.command rcvJson
  return (busCommands.filter fun c => text c.com = command).flatMap
    (handler packageAddress rcvJson)

end

/-! ### The classes -/

section

variable {J : Type} [CJson J]

/-- The integer that a message gives for a parameter: 0 if it has none. -/
def param (rcvJson : Option J) (item : String) : Int :=
  ((getObjectItem rcvJson item).map valueint).getD 0

/-- The command byte that is listed for a `komut`. -/
def listed : List (Int × UInt8) :=
  [(0, 0x00), (1, 0x0A), (2, 0x06), (3, 0x05), (4, 0x08), (5, 0x07), (6, 0x10), (7, 0x11),
    (8, 0x12), (9, 0x13), (10, 0x14), (11, 0x15), (12, 0x16), (13, 0x17)]

/-- The bytes of the command's own class.  There are none if `yaz` asks for neither of the two, or
if nothing is listed for `komut`. -/
def BusCommand.Class (rcvJson : Option J) (b : UInt8) : BusCommand → Prop
  | .setScene => 0x40 ≤ b ∧ b ≤ 0x4F
  | .clearScene => 0x50 ≤ b ∧ b ≤ 0x5F
  | .getScene => 0xB0 ≤ b ∧ b ≤ 0xBF
  | .setGurup => param rcvJson "yaz" = 1 ∧ 0x60 ≤ b ∧ b ≤ 0x6F ∨
      param rcvJson "yaz" = 0 ∧ 0x70 ≤ b ∧ b ≤ 0x7F
  | .action => (param rcvJson "komut", b) ∈ listed

/-- The parameters are in range: of a scene or a group, only the low byte matters. -/
def BusCommand.InRange (rcvJson : Option J) : BusCommand → Prop
  | .setScene | .clearScene | .getScene => param rcvJson "scene" % 256 < 16
  | .setGurup => (param rcvJson "yaz" = 0 ∨ param rcvJson "yaz" = 1) ∧
      1 ≤ param rcvJson "gurup" % 256 ∧ param rcvJson "gurup" % 256 ≤ 16
  | .action => 0 ≤ param rcvJson "komut" ∧ param rcvJson "komut" ≤ 13

/-- The command byte of the frames that a handler sends for the command itself. -/
def BusCommand.opcode (rcvJson : Option J) : BusCommand → UInt8
  | .setScene => 0x40 + jsonGetint rcvJson "scene" 0
  | .clearScene => 0x50 + jsonGetint rcvJson "scene" 0
  | .getScene => 0xB0 + jsonGetint rcvJson "scene" 0
  | .setGurup => groupData (jsonGetint rcvJson "gurup" 0) (jsonGetint rcvJson "yaz" 0)
  | .action => commandByte (jsonGetint rcvJson "komut" 0)

/-! ### Frames -/

theorem mem_sentAs {role : Role} {frames : List (Medium × Package)} {f : Sent} :
    f ∈ sentAs role frames ↔ f.role = role ∧ (f.medium, f.package) ∈ frames := by
  unfold sentAs
  rw [List.mem_map]
  constructor
  · rintro ⟨g, hg, rfl⟩
    exact ⟨rfl, hg⟩
  · rintro ⟨rfl, hg⟩
    exact ⟨_, hg, rfl⟩

theorem daliSend_package {pk : Package} {type : UInt8} {f : Medium × Package}
    (h : f ∈ daliSend pk type) : f.2 = pk := by
  unfold daliSend at h
  split at h
  · rcases List.mem_pair.mp h with rfl | rfl <;> rfl
  · split at h <;> rw [List.mem_singleton.mp h]

theorem daliDoubleSend_package {pk : Package} {type : UInt8} {f : Medium × Package}
    (h : f ∈ daliDoubleSend pk type) : f.2 = pk :=
  (List.mem_append.mp h).elim daliSend_package daliSend_package

theorem daliSend_ne_nil (pk : Package) (type : UInt8) : daliSend pk type ≠ [] := by
  unfold daliSend
  split
  · exact nofun
  · split <;> exact nofun

/-- A list of frames with one command byte. -/
structure Carries (data1 : UInt8) (sent : List Sent) : Prop where
  all : ∀ f ∈ sent, f.role = .own → f.package.data1 = data1
  some : ∃ f ∈ sent, f.role = .own

theorem carries_sentAs {frames : List (Medium × Package)} {data1 : UInt8} (hne : frames ≠ [])
    (h : ∀ f ∈ frames, f.2.data1 = data1) : Carries data1 (sentAs .own frames) where
  all f hf _ := h _ (mem_sentAs.mp hf).2
  some := by
    obtain ⟨f, hf⟩ := List.exists_mem_of_ne_nil frames hne
    exact ⟨⟨.own, f.1, f.2⟩, mem_sentAs.mpr ⟨rfl, hf⟩, rfl⟩

/-- Frames of another role, in front or behind. -/
theorem Carries.append {data1 : UInt8} {sent others : List Sent} (h : Carries data1 sent)
    (hothers : ∀ f ∈ others, f.role ≠ .own) :
    Carries data1 (sent ++ others) ∧ Carries data1 (others ++ sent) := by
  obtain ⟨f, hf, hrole⟩ := h.some
  refine ⟨⟨fun g hg hown => ?_, f, List.mem_append_left _ hf, hrole⟩,
    ⟨fun g hg hown => ?_, f, List.mem_append_right _ hf, hrole⟩⟩
  · exact h.all g ((List.mem_append.mp hg).resolve_right fun hg => hothers g hg hown) hown
  · exact h.all g ((List.mem_append.mp hg).resolve_left fun hg => hothers g hg hown) hown

theorem carries_daliDoubleSend (pk : Package) (type : UInt8) :
    Carries pk.data1 (sentAs .own (daliDoubleSend pk type)) := by
  refine carries_sentAs ?_ fun f hf => congrArg Package.data1 (daliDoubleSend_package hf)
  exact fun h => daliSend_ne_nil pk type (List.append_eq_nil_iff.mp h).1

theorem role_of_sentAs {role : Role} {frames : List (Medium × Package)} (h : role ≠ .own) :
    ∀ f ∈ sentAs role frames, f.role ≠ .own := by
  intro f hf
  rw [(mem_sentAs.mp hf).1]
  exact h

theorem handler_carries (packageAddress : Address → UInt8) (rcvJson : Option J)
    (c : BusCommand) : Carries (c.opcode rcvJson) (handler packageAddress rcvJson c) := by
  have hdtr : Role.dtr ≠ .own := nofun
  have hread : Role.readBack ≠ .own := nofun
  cases c with
  | setScene =>
    have hown := carries_daliDoubleSend (frame packageAddress
      (shortAddress (jsonGetint rcvJson "adres" 0)) (0x40 + jsonGetint rcvJson "scene" 0))
      (jsonGetint rcvJson "type" 0)
    exact ((hown.append (role_of_sentAs hdtr)).2.append (role_of_sentAs hread)).1
  | clearScene =>
    have hown := carries_daliDoubleSend (frame packageAddress
      (shortAddress (jsonGetint rcvJson "adres" 0)) (0x50 + jsonGetint rcvJson "scene" 0))
      (jsonGetint rcvJson "type" 0)
    exact (hown.append (role_of_sentAs hread)).1
  | getScene =>
    refine carries_sentAs (List.cons_ne_nil _ _) fun f hf => ?_
    rw [List.mem_singleton.mp hf]
    rfl
  | setGurup =>
    have hown := carries_daliDoubleSend (frame packageAddress
      (shortAddress (jsonGetint rcvJson "adres" 0))
      (groupData (jsonGetint rcvJson "gurup" 0) (jsonGetint rcvJson "yaz" 0)))
      (jsonGetint rcvJson "type" 0)
    exact (hown.append (role_of_sentAs hread)).1
  | action =>
    refine carries_sentAs (daliSend_ne_nil _ _) fun f hf => ?_
    rw [daliSend_package hf]
    rfl

/-! ### Parameters -/

theorem jsonGetint_eq (rcvJson : Option J) (item : String) :
    jsonGetint rcvJson item 0 = UInt8.ofInt (param rcvJson item) := by
  unfold jsonGetint param
  cases getObjectItem rcvJson item <;> rfl

/-- `JSON_getint` keeps the low byte. -/
theorem toNat_jsonGetint (rcvJson : Option J) (item : String) :
    ((jsonGetint rcvJson item 0).toNat : Int) = param rcvJson item % 256 := by
  have hnonneg : 0 ≤ param rcvJson item % 2 ^ 8 := Int.emod_nonneg _ (by decide)
  have hlt : param rcvJson item % 2 ^ 8 < 2 ^ 8 := Int.emod_lt_of_pos _ (by decide)
  rw [jsonGetint_eq, UInt8.ofInt, UInt8.toNat_ofNat']
  omega

/-- A scene is the low digit of a class of 16 commands. -/
theorem scene_class (base scn : UInt8) (h : base = 0x40 ∨ base = 0x50 ∨ base = 0xB0) :
    (base ≤ base + scn ∧ base + scn ≤ base + 0x0F) ↔ scn.toNat < 16 := by
  obtain ⟨⟨n⟩⟩ := scn
  rcases h with rfl | rfl | rfl <;> revert n <;> decide +kernel

theorem group_class (grp : UInt8) :
    ((0x60 ≤ 0x60 + grp - 1 ∧ 0x60 + grp - 1 ≤ 0x6F) ↔ 1 ≤ grp.toNat ∧ grp.toNat ≤ 16) ∧
    ((0x70 ≤ 0x70 + grp - 1 ∧ 0x70 + grp - 1 ≤ 0x7F) ↔ 1 ≤ grp.toNat ∧ grp.toNat ≤ 16) := by
  obtain ⟨⟨n⟩⟩ := grp
  revert n
  decide +kernel

/-- A byte of the class that `yaz` asks for. -/
theorem groupData_class (grp : UInt8) (yaz : Int) :
    (yaz = 1 ∧ 0x60 ≤ groupData grp (UInt8.ofInt yaz) ∧ groupData grp (UInt8.ofInt yaz) ≤ 0x6F ∨
      yaz = 0 ∧ 0x70 ≤ groupData grp (UInt8.ofInt yaz) ∧ groupData grp (UInt8.ofInt yaz) ≤ 0x7F) ↔
    (yaz = 0 ∨ yaz = 1) ∧ 1 ≤ grp.toNat ∧ grp.toNat ≤ 16 := by
  obtain ⟨hadd, hdel⟩ := group_class grp
  by_cases hzero : yaz = 0
  · have hdata : groupData grp (UInt8.ofInt 0) = 0x70 + grp - 1 := rfl
    have hnot : ¬(0 : Int) = 1 := by decide
    rw [hzero, hdata, or_iff_right fun h => hnot h.1, and_iff_right rfl, hdel,
      and_iff_right (Or.inl rfl)]
  · by_cases hone : yaz = 1
    · have hdata : groupData grp (UInt8.ofInt 1) = 0x60 + grp - 1 := rfl
      have hnot : ¬(1 : Int) = 0 := by decide
      rw [hone, hdata, or_iff_left fun h => hnot h.1, and_iff_right rfl, hadd,
        and_iff_right (Or.inr rfl)]
    · simp [hzero, hone]

/-- What is listed is what `command_action` makes of the low byte. -/
theorem mem_listed (komut : Int) :
    (komut, commandByte (UInt8.ofInt komut)) ∈ listed ↔ 0 ≤ komut ∧ komut ≤ 13 := by
  constructor
  · intro h
    have hkeys : komut ∈ listed.map Prod.fst := List.mem_map_of_mem h
    have hrange : ∀ k ∈ listed.map Prod.fst, 0 ≤ k ∧ k ≤ 13 := by decide
    exact hrange komut hkeys
  · rintro ⟨hnonneg, hle⟩
    obtain ⟨n, rfl⟩ := Int.eq_ofNat_of_zero_le hnonneg
    have hall : ∀ n : Nat, n < 14 → ((n : Int), commandByte (UInt8.ofInt n)) ∈ listed := by decide
    exact hall n (by omega)

theorem class_opcode_iff (rcvJson : Option J) (c : BusCommand) :
    c.Class rcvJson (c.opcode rcvJson) ↔ c.InRange rcvJson := by
  have hscene := toNat_jsonGetint rcvJson "scene"
  cases c with
  | setScene =>
    refine (scene_class 0x40 _ (.inl rfl)).trans ?_
    show _ ↔ param rcvJson "scene" % 256 < 16
    omega
  | clearScene =>
    refine (scene_class 0x50 _ (.inr (.inl rfl))).trans ?_
    show _ ↔ param rcvJson "scene" % 256 < 16
    omega
  | getScene =>
    refine (scene_class 0xB0 _ (.inr (.inr rfl))).trans ?_
    show _ ↔ param rcvJson "scene" % 256 < 16
    omega
  | setGurup =>
    have hgurup := toNat_jsonGetint rcvJson "gurup"
    have hopcode : BusCommand.setGurup.opcode rcvJson =
        groupData (jsonGetint rcvJson "gurup" 0) (UInt8.ofInt (param rcvJson "yaz")) :=
      congrArg (groupData _) (jsonGetint_eq rcvJson "yaz")
    rw [hopcode]
    refine (groupData_class _ (param rcvJson "yaz")).trans ?_
    show _ ↔ (_ ∨ _) ∧ 1 ≤ param rcvJson "gurup" % 256 ∧ param rcvJson "gurup" % 256 ≤ 16
    omega
  | action =>
    have hopcode : BusCommand.action.opcode rcvJson =
        commandByte (UInt8.ofInt (param rcvJson "komut")) :=
      congrArg commandByte (jsonGetint_eq rcvJson "komut")
    rw [hopcode]
    exact mem_listed (param rcvJson "komut")

/-! ### Main result -/

/-- `data_parse` runs the handler of the command. -/
theorem dataParse_eq (packageAddress : Address → UInt8) (parse : List UInt8 → Option J)
    (data : List UInt8) (c : BusCommand)
    (h : Receiver.dataParse.command (parse (cstring data)) = .ok (text c.com)) :
    dataParse packageAddress parse data =
      .ok (handler packageAddress (parse (cstring data)) c) := by
  have hfilter : (busCommands.filter fun b => text b.com = text c.com) = [c] := by
    cases c <;> decide
  have hrun : dataParse packageAddress parse data =
      .ok ((busCommands.filter fun b => text b.com = text c.com).flatMap
        (handler packageAddress (parse (cstring data)))) := by
    simp only [dataParse, h]
    rfl
  rw [hrun, hfilter, List.flatMap_singleton]

/-- For every message with one of the commands, the frames that are sent for the command itself
carry command bytes of its own class exactly if the parameters are in range. -/
theorem opcode_confined_iff (packageAddress : Address → UInt8)
    (parse : List UInt8 → Option J) (data : List UInt8) (c : BusCommand)
    (h : Receiver.dataParse.command (parse (cstring data)) = .ok (text c.com)) :
    (∃ sent, dataParse packageAddress parse data = .ok sent ∧
      ∀ f ∈ sent, f.role = .own → c.Class (parse (cstring data)) f.package.data1) ↔
    c.InRange (parse (cstring data)) := by
  have hcarries := handler_carries packageAddress (parse (cstring data)) c
  rw [dataParse_eq packageAddress parse data c h, ← class_opcode_iff]
  constructor
  · rintro ⟨sent, hsent, hall⟩
    cases hsent
    obtain ⟨f, hf, hown⟩ := hcarries.some
    rw [← hcarries.all f hf hown]
    exact hall f hf hown
  · intro hclass
    refine ⟨_, rfl, fun f hf hown => ?_⟩
    rw [hcarries.all f hf hown]
    exact hclass

end

/-- A message for a scene of a lamp. -/
def sceneMessage (com : String) (scene : Int) : Json :=
  .object [(text "com", .string (text com)), (text "adres", .number 5),
    (text "scene", .number scene), (text "value", .number 200)]

theorem opcode_confined_scene :
    ∃ sent, dataParse (fun a => 2 * a.data + 1)
        (fun _ => some (sceneMessage "set_scene" 3)) [] = .ok sent ∧
      ∀ f ∈ sent, f.role = .own →
        BusCommand.setScene.Class (some (sceneMessage "set_scene" 3)) f.package.data1 := by
  have hscene : param (some (sceneMessage "set_scene" 3)) "scene" % 256 < 16 := by decide
  exact (opcode_confined_iff (fun a => 2 * a.data + 1)
    (fun _ => some (sceneMessage "set_scene" 3)) [] .setScene (by decide)).mpr hscene

/-- Scene 16 of `set_scene` is the removal of scene 0. -/
theorem opcode_other_class :
    ∃ sent, dataParse (fun a => 2 * a.data + 1)
        (fun _ => some (sceneMessage "set_scene" 16)) [] = .ok sent ∧
      ⟨.own, .cable, ⟨11, 0x50, 0, .block16, 0⟩⟩ ∈ sent ∧
      ¬BusCommand.setScene.Class (some (sceneMessage "set_scene" 16)) 0x50 :=
  ⟨_, rfl, by decide, fun h : _ ∧ _ => absurd h.2 (by decide)⟩

end DaliController.Lamps
