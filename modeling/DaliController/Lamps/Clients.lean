import DaliController.Lamps.Store
import DaliController.Tcp.Events
import Mathlib.Data.Fintype.Basic
import Mathlib.Tactic.FinCases

/-! From the sockets to the lamps.  Clients send messages in JSON on any number of connections.  The
event loop hands each chunk to `tcp_handler`, which calls `data_parse` for each message in it, and
every client hears what the lamps keep. -/

namespace DaliController.Lamps.Settings

open CString Dali Http Schedule Segments Tcp Udp

/-! ### The code -/

section

variable {J : Type} [CJson J]

/-- The branches of `data_parse` for the lamps.  A parameter that a message leaves out has the value
that its variable starts with. -/
def branches (rcvJson : Option J) : List (String × Message) :=
  let adr := jsonGetint rcvJson "adres" 0
  let typ := jsonGetint rcvJson "type" 0
  let val := jsonGetint rcvJson "value" 0
  let scn := jsonGetint rcvJson "scene" 0
  [("arc_power", .arcPower adr (jsonGetint rcvJson "gurup" 255) (jsonGetint rcvJson "power" 0)),
    ("off", .off adr (jsonGetint rcvJson "gurup" 255)),
    ("dalireset", .dalireset adr typ),
    ("s_refresh", .sRefresh adr typ),
    ("s_reset", .sReset adr typ),
    ("action", .action adr (jsonGetint rcvJson "gurup" 0) (jsonGetint rcvJson "komut" 0)),
    ("set_frate", .setFade 0 adr val typ),
    ("set_ftime", .setFade 1 adr val typ),
    ("set_efade", .setFade 2 adr val typ),
    ("set_fail", .setFade 3 adr val typ),
    ("set_pow", .setFade 4 adr val typ),
    ("set_max", .setFade 5 adr val typ),
    ("set_min", .setFade 6 adr val typ),
    ("get_scene", .getScene adr scn typ),
    ("set_scene", .setScene adr scn val typ),
    ("clear_scene", .clearScene adr scn typ),
    ("get_detail", .getDetail adr typ),
    ("get_gurup", .getGurup adr typ),
    ("set_gurup",
      .setGurup ⟨jsonGetint rcvJson "gurup" 0, adr, jsonGetint rcvJson "yaz" 0, typ⟩)]

variable (parse : List UInt8 → Option J)

/-- `data_parse`, up to the branch that it takes. -/
def messagesOf (data : List UInt8) : Except Fault (List Message) := do
  let rcvJson := parse (cstring data)
  let command ← Receiver.dataParse.command rcvJson
  return ((branches rcvJson).filter fun b => text b.1 = command).map Prod.snd

variable {ρ : Type} (packageAddress : Address → UInt8) (clash : List UInt8 → Option UInt8)
  (top : TopByte)

/-- The calls of `data_parse`, one after another, with the reports that are sent. -/
def serve (w : Bus ρ) : List (List UInt8) → Except Fault (List (Option Report) × Bus ρ)
  | [] => return ([], w)
  | data :: calls => do
    let ms ← messagesOf parse data
    let (rs, w) := handleAll packageAddress clash top w ms
    let (rest, w) ← serve w calls
    return (rs ++ rest, w)

end

/-! ### What clients send -/

/-- `com` of a message. -/
def Message.com : Message → String
  | .arcPower .. => "arc_power"
  | .off .. => "off"
  | .action .. => "action"
  | .dalireset .. => "dalireset"
  | .sRefresh .. => "s_refresh"
  | .sReset .. => "s_reset"
  | .setFade comm .. =>
    match comm with
    | 0 => "set_frate"
    | 1 => "set_ftime"
    | 2 => "set_efade"
    | 3 => "set_fail"
    | 4 => "set_pow"
    | 5 => "set_max"
    | 6 => "set_min"
  | .getScene .. => "get_scene"
  | .setScene .. => "set_scene"
  | .clearScene .. => "clear_scene"
  | .getDetail .. => "get_detail"
  | .getGurup .. => "get_gurup"
  | .setGurup _ => "set_gurup"

/-- The parameters of a message: their names, their values, and the values that may be left
out. -/
def Message.params : Message → List (String × UInt8 × UInt8)
  | .arcPower adr grp power => [("adres", adr, 0), ("gurup", grp, 255), ("power", power, 0)]
  | .off adr grp => [("adres", adr, 0), ("gurup", grp, 255)]
  | .action adr grp com => [("adres", adr, 0), ("gurup", grp, 0), ("komut", com, 0)]
  | .dalireset adr typ | .sRefresh adr typ | .sReset adr typ | .getDetail adr typ
  | .getGurup adr typ => [("adres", adr, 0), ("type", typ, 0)]
  | .setFade _ adr val typ => [("adres", adr, 0), ("value", val, 0), ("type", typ, 0)]
  | .getScene adr scn typ | .clearScene adr scn typ =>
    [("adres", adr, 0), ("scene", scn, 0), ("type", typ, 0)]
  | .setScene adr scn val typ =>
    [("adres", adr, 0), ("scene", scn, 0), ("value", val, 0), ("type", typ, 0)]
  | .setGurup c =>
    [("gurup", c.gurup, 0), ("adres", c.adres, 0), ("yaz", c.yaz, 0), ("type", c.type, 0)]

section

variable {J : Type} [CJson J]

/-- What a JSON object has for a parameter: its value, or nothing if it may be left out. -/
def Gives (rcvJson : Option J) (p : String × UInt8 × UInt8) : Prop :=
  match getObjectItem rcvJson p.1 with
  | some it => valueint it = p.2.1.toNat
  | none => p.2.1 = p.2.2

/-- A JSON object that asks for a message, whatever else it holds and in which order. -/
structure AsksFor (rcvJson : Option J) (m : Message) : Prop where
  com : ∃ it tmp, getObjectItem rcvJson "com" = some it ∧ valuestring it = some tmp ∧
    tmp.bytes = text m.com
  params : ∀ p ∈ m.params, Gives rcvJson p

/-- What a chunk asks for: one that does not begin with a brace is dropped, and any other one
consists of whole messages, each with its terminator. -/
inductive Brings (parse : List UInt8 → Option J) : List UInt8 → List Message → Prop
  | dropped {bytes : List UInt8} : bytes.head? ≠ some 0x7B → Brings parse bytes []
  | whole {commands : List Command} {ms : List Message} :
      List.Forall₂ (fun c m => AsksFor (parse c.bytes) m) commands ms →
      Brings parse (stream commands) ms

/-! ### One message -/

theorem jsonGetint_asked {rcvJson : Option J} {item : String} {value missing : UInt8}
    (h : Gives rcvJson (item, value, missing)) : jsonGetint rcvJson item missing = value := by
  unfold Gives at h
  unfold jsonGetint
  cases hitem : getObjectItem rcvJson item with
  | none =>
    rw [hitem] at h
    exact h.symm
  | some it =>
    rw [hitem] at h
    have hvalue : valueint it = value.toNat := h
    have hlt := value.toNat_lt
    show UInt8.ofInt (valueint it) = value
    rw [hvalue]
    apply UInt8.toNat_inj.mp
    rw [UInt8.ofInt, UInt8.toNat_ofNat']
    omega

/-- The branch that a message asks for. -/
theorem mem_branches {rcvJson : Option J} {m : Message} (h : AsksFor rcvJson m) :
    (m.com, m) ∈ branches rcvJson := by
  have hparams := fun p hp => jsonGetint_asked (h.params p hp)
  cases m with
  | setFade comm adr val typ =>
    simp only [Message.params, List.forall_mem_cons] at hparams
    fin_cases comm <;> simp [branches, Message.com, hparams]
  | _ =>
    simp only [Message.params, List.forall_mem_cons] at hparams
    simp [branches, Message.com, hparams]

/-- A member whose key no other member has. -/
theorem filter_key_of_mem {α κ : Type} [DecidableEq κ] (key : α → κ) {ks : List α}
    (h : (ks.map key).Nodup) {x : α} (hx : x ∈ ks) :
    ks.filter (fun k => decide (key k = key x)) = [x] := by
  rw [filter_key_eq h]
  cases hfound : ks.find? fun k => decide (key k = key x) with
  | none => exact absurd (List.find?_eq_none.mp hfound x hx) (by simp)
  | some k =>
    have hkey := List.find?_some hfound
    have hsame := List.inj_on_of_nodup_map h (List.mem_of_find?_eq_some hfound) hx
      (of_decide_eq_true hkey)
    rw [hsame]
    rfl

/-- No two branches are for the same command. -/
theorem branches_nodup (rcvJson : Option J) :
    ((branches rcvJson).map fun b => text b.1).Nodup := by
  have hnames : (branches rcvJson).map Prod.fst = ["arc_power", "off", "dalireset", "s_refresh",
      "s_reset", "action", "set_frate", "set_ftime", "set_efade", "set_fail", "set_pow", "set_max",
      "set_min", "get_scene", "set_scene", "clear_scene", "get_detail", "get_gurup",
      "set_gurup"] := rfl
  have hmap : ((branches rcvJson).map fun b => text b.1) =
      ((branches rcvJson).map Prod.fst).map text := by
    rw [List.map_map]
    rfl
  rw [hmap, hnames]
  refine List.Nodup.map (fun _ _ h => text_inj.mp h) ?_
  decide

/-- The text of a command leaves room for its NUL. -/
theorem com_fits (m : Message) : (text m.com).length + 1 ≤ 15 := by
  have hcoms : ∀ s ∈ ["arc_power", "off", "dalireset", "s_refresh", "s_reset", "action",
      "set_frate", "set_ftime", "set_efade", "set_fail", "set_pow", "set_max", "set_min",
      "get_scene", "set_scene", "clear_scene", "get_detail", "get_gurup", "set_gurup"],
      (text s).length + 1 ≤ 15 := by
    decide +kernel
  apply hcoms
  cases m with
  | setFade comm adr val typ => fin_cases comm <;> simp [Message.com]
  | _ => simp [Message.com]

/-- `data_parse` takes the branch that the message asks for, and no other. -/
theorem messagesOf_asked {parse : List UInt8 → Option J} {data : List UInt8} {m : Message}
    (h : AsksFor (parse (cstring data)) m) : messagesOf parse data = .ok [m] := by
  obtain ⟨it, tmp, hitem, htext, htmp⟩ := h.com
  have hfits := com_fits m
  have hcommand : Receiver.dataParse.command (parse (cstring data)) = .ok (text m.com) := by
    have hlimit : Receiver.dataParse.limit.toNat = 15 := rfl
    have hsize : Receiver.dataParse.size = 15 := rfl
    rw [Receiver.command, jsonGetstring_of_some hitem htext, htmp, hlimit, hsize,
      if_neg (by omega), if_pos hfits]
    exact congrArg Except.ok htmp
  have honly := filter_key_of_mem (fun b => text b.1) (branches_nodup _) (mem_branches h)
  rw [messagesOf, hcommand]
  exact congrArg (fun bs : List (String × Message) => Except.ok (bs.map Prod.snd)) honly

/-! ### One chunk -/

/-- The commands of a chunk are its tokens. -/
theorem tokens_stream (n : Nat) (commands : List Command) :
    (tokens (· == 0x26) n (stream commands)).map Prod.snd = commands.map fun c => c.bytes := by
  induction commands generalizing n with
  | nil => rfl
  | cons c commands ih =>
    have hnone : ∀ b ∈ c.bytes, (b == 0x26) = false := fun b hb =>
      beq_false_of_ne fun hamp => c.no_amp (hamp ▸ hb)
    have hne : c.bytes ≠ [] := by
      intro hnil
      have hbrace := c.brace
      rw [hnil] at hbrace
      cases hbrace
    have hstream : stream (c :: commands) = c.bytes ++ 0x26 :: stream commands := by
      rw [stream, List.flatMap_cons, Command.line, List.append_assoc]
      rfl
    rw [hstream, tokens, pieces_append_cons n _ _ (by rfl), pieces_of_forall_not hnone,
      List.filter_append, List.map_append, List.map_cons, ← ih (n + c.bytes.length + 1)]
    simp [hne, tokens]

/-- The calls of `data_parse` for an event are for the messages of its chunk. -/
theorem calls_asked {parse : List UInt8 → Option J} {h : Handled} (hr : h.Right)
    {ms : List Message} (hbrings : Brings parse h.bytes ms) :
    List.Forall₂ (fun data m => messagesOf parse data = .ok [m])
      ((h.calls 5717).map Prod.snd) ms := by
  rw [hr.calls]
  generalize h.bytes = bytes at hbrings
  cases hbrings with
  | dropped hbrace =>
    rw [tcpHandler, if_neg (by decide), if_pos hbrace]
    exact .nil
  | @whole commands _ hasked =>
    have hcalls : (tcpHandler 5717 0 (stream commands)).map Prod.snd =
        commands.map fun c => c.bytes := by
      rw [tcpHandler, if_neg (by decide), cstring_eq_self (zero_not_mem_stream commands)]
      cases commands with
      | nil => rfl
      | cons c commands =>
        have hbrace : (stream (c :: commands)).head? = some 0x7B := by
          rw [stream, List.flatMap_cons, Command.line, List.append_assoc, List.head?_append,
            c.brace]
          rfl
        rw [if_neg (not_not_intro hbrace), tokens_stream]
    rw [hcalls, List.forall₂_map_left_iff]
    refine hasked.imp fun c m hm => messagesOf_asked ?_
    rwa [cstring_eq_self c.nul_free]

/-! ### All chunks -/

theorem handled_asked {parse : List UInt8 → Option J} {asked : List UInt8 → List Message}
    {hs : List Handled} (hright : ∀ h ∈ hs, h.Right)
    (hasked : ∀ h ∈ hs, Brings parse h.bytes (asked h.bytes)) :
    List.Forall₂ (fun data m => messagesOf parse data = .ok [m])
      ((hs.flatMap (Handled.calls 5717)).map Prod.snd) ((hs.map Handled.bytes).flatMap asked) := by
  induction hs with
  | nil => exact .nil
  | cons h hs ih =>
    obtain ⟨hr, hright⟩ := List.forall_mem_cons.mp hright
    obtain ⟨hbrings, hasked⟩ := List.forall_mem_cons.mp hasked
    rw [List.flatMap_cons, List.map_append, List.map_cons, List.flatMap_cons]
    exact List.rel_append (calls_asked hr hbrings) (ih hright hasked)

variable {ρ : Type} {packageAddress : Address → UInt8} {parse : List UInt8 → Option J}

/-- The calls are handled like the messages that they are for. -/
theorem serve_eq (clash : List UInt8 → Option UInt8) (top : TopByte) {calls : List (List UInt8)}
    {ms : List Message} (h : List.Forall₂ (fun data m => messagesOf parse data = .ok [m]) calls ms)
    (w : Bus ρ) : serve parse packageAddress clash top w calls =
      .ok (handleAll packageAddress clash top w ms) := by
  induction h generalizing w with
  | nil => rfl
  | cons hcall _ ih =>
    rw [serve, hcall]
    simp only [bind, Except.bind, ih, handleAll]
    rfl

end

/-- Both lamps 5 get scene 3. -/
def setSceneText : List UInt8 :=
  text "\x7b\"com\":\"set_scene\",\"adres\":5,\"scene\":3,\"value\":200,\"type\":153\x7d"

/-- The scene of the lamp on the cable. -/
def getSceneText : List UInt8 := text "\x7b\"com\":\"get_scene\",\"adres\":5,\"scene\":3\x7d"

def setSceneCommand : Command where
  bytes := setSceneText
  nul_free := by decide +kernel
  brace := by decide +kernel
  no_amp := by decide +kernel
  le := by decide +kernel

def getSceneCommand : Command where
  bytes := getSceneText
  nul_free := by decide +kernel
  brace := by decide +kernel
  no_amp := by decide +kernel
  le := by decide +kernel

/-- What `cJSON_Parse` makes of the two texts. -/
def parseScenes (data : List UInt8) : Option Json :=
  if data = setSceneText then some (.object [(text "com", .string (text "set_scene")),
    (text "adres", .number 5), (text "scene", .number 3), (text "value", .number 200),
    (text "type", .number 153)])
  else if data = getSceneText then some (.object [(text "com", .string (text "get_scene")),
    (text "adres", .number 5), (text "scene", .number 3)])
  else none

def scenesChunk : Chunk where
  bytes := stream [setSceneCommand, getSceneCommand]
  ne := by decide +kernel
  le := by decide +kernel

def scenesRun : List LoopEvent :=
  [.connect [], .recv 0 scenesChunk, .post 0, .take, .copy [], .resume 0, .done]

theorem scenes_asked : Brings parseScenes scenesChunk.bytes
    [.setScene 5 3 200 153, .getScene 5 3 0] := by
  refine .whole (.cons ⟨?_, ?_⟩ (.cons ⟨?_, ?_⟩ .nil))
  · exact ⟨_, _, rfl, rfl, rfl⟩
  · simp only [Message.params, List.forall_mem_cons]
    exact ⟨rfl, rfl, rfl, rfl, nofun⟩
  · exact ⟨_, _, rfl, rfl, rfl⟩
  · simp only [Message.params, List.forall_mem_cons]
    exact ⟨rfl, rfl, rfl, nofun⟩

end DaliController.Lamps.Settings
