import DaliController.Http.FindReplace
import DaliController.Lib.FormData

/-! `save_handler` reads the configuration from the body of a request.  `findparam` looks for the
first token with a name, in copies of the body and of the tokens that have a fixed size. -/

namespace DaliController.Http

open CString Decimal FormData

inductive EspErr
  | ok
  | fail
  deriving DecidableEq, Repr

/-! ### The code -/

/-- `strtok` with `&`. -/
def strtok (buf : List UInt8) : List (List UInt8) := (buf.splitOn 0x26).filter (!·.isEmpty)

/-- The loop of `findparam`.  A token that is too long for `bf`, or has no `=`, makes it leave its
buffers. -/
def findparamLoop (key : List UInt8) : List (List UInt8) → Option (List UInt8)
  | [] => some []
  | token :: tokens =>
    if token.length < 50 ∧ 0x3D ∈ token then
      if token.takeWhile (· ≠ 0x3D) = key then some ((token.dropWhile (· ≠ 0x3D)).drop 1)
      else findparamLoop key tokens
    else none

/-- `findparam`: the text in `argv`, which is empty when no token has the name. -/
def findparam (buf key : List UInt8) : Option (List UInt8) :=
  if buf.length < 400 then findparamLoop key (strtok buf) else none

def IsXDigit (b : UInt8) : Prop := IsDigit b ∨ 0x41 ≤ b ∧ b ≤ 0x46 ∨ 0x61 ≤ b ∧ b ≤ 0x66

instance : DecidablePred IsXDigit := fun b =>
  inferInstanceAs (Decidable (IsDigit b ∨ 0x41 ≤ b ∧ b ≤ 0x46 ∨ 0x61 ≤ b ∧ b ≤ 0x66))

/-- The value of a hexadecimal digit, as `strtol` reads it. -/
def xDigit (b : UInt8) : UInt8 :=
  if b ≤ 0x39 then b - 0x30 else if b ≤ 0x46 then b - 0x41 + 10 else b - 0x61 + 10

/-- `urlDecode`.  A NUL that it writes ends the string. -/
def urlDecode : List UInt8 → List UInt8
  | 0x25 :: a :: b :: rest =>
    if IsXDigit a ∧ IsXDigit b then
      let x := 16 * xDigit a + xDigit b
      if x = 0 then [] else x :: urlDecode rest
    else 0x25 :: urlDecode (a :: b :: rest)
  | b :: rest => (if b = 0x2B then 0x20 else b) :: urlDecode rest
  | [] => []

/-- `replacechar`. -/
def replacechar (str : List UInt8) (orig rep : UInt8) : List UInt8 :=
  str.map fun b => if b = orig then rep else b

/-- The `int` that `atoi` returns.  `strtol` stops at the ends of its range. -/
def atoiInt (xs : List UInt8) : Int := max (-2147483648) (min 2147483647 (atoi xs))

/-- The check of the three powers. -/
def checkedPow (pow : UInt8) : UInt8 := if pow < 30 ∧ 254 < pow then 200 else pow

def switched (aaa : List UInt8) : UInt8 := if aaa = text "on" then 1 else 0

/-- What `save_handler` stores, for the text `buf`. -/
def saveForm (buf : List UInt8) : Option Config := do
  let mqttServer ← strcpy 64 (← findparam buf (text "MQTT"))
  let deviceId := UInt8.ofInt (atoiInt (← findparam buf (text "DEVID")))
  let mqttKeepalive := UInt16.ofInt (atoiInt (← findparam buf (text "KEEP")))
  let comminication := UInt8.ofInt (atoiInt (← findparam buf (text "COMM")))
  let pow1 := checkedPow (UInt8.ofInt (atoiInt (← findparam buf (text "POW1"))))
  let pow2 := checkedPow (UInt8.ofInt (atoiInt (← findparam buf (text "POW2"))))
  let pow3 := checkedPow (UInt8.ofInt (atoiInt (← findparam buf (text "POW3"))))
  let projectNumber := UInt8.ofInt (atoiInt (← findparam buf (text "PROJE")))
  let wanType := UInt32.ofInt (atoiInt (← findparam buf (text "OUT")))
  let channel := UInt8.ofInt (atoiInt (← findparam buf (text "CHAN")))
  let wifiMaximumRetry := UInt8.ofInt (atoiInt (← findparam buf (text "WRET")))
  let tus1 := UInt8.ofInt (atoiInt (← findparam buf (text "TUS1")))
  let tus2 := UInt8.ofInt (atoiInt (← findparam buf (text "TUS2")))
  let tus3 := UInt8.ofInt (atoiInt (← findparam buf (text "TUS3")))
  let ipstat := UInt32.ofInt (atoiInt (← findparam buf (text "GETIP")))
  let ip ← strcpy 17 (← findparam buf (text "IP"))
  let netmask ← strcpy 17 (← findparam buf (text "NETMASK"))
  let gateway ← strcpy 17 (← findparam buf (text "GATEWAY"))
  let wifiSsid ← strcpy 32 (urlDecode (replacechar (← findparam buf (text "SSID")) 0x2B 0x20))
  let wifiPass ← strcpy 32 (urlDecode (replacechar (← findparam buf (text "PASS")) 0x2B 0x20))
  let dns ← strcpy 17 (← findparam buf (text "DNS1"))
  let backupDns ← strcpy 17 (← findparam buf (text "DNS2"))
  let httpStart := switched (← findparam buf (text "WEB"))
  let tcpserverStart := switched (← findparam buf (text "TCP"))
  let daliserverStart := switched (← findparam buf (text "UDP"))
  let timeSync := switched (← findparam buf (text "TSYNC"))
  some
    { net :=
        { wanType, wifiSsid, wifiPass, ipstat, ip, netmask, gateway, channel, dns, backupDns,
          wifiMaximumRetry }
      glob :=
        { mqttServer, mqttKeepalive, deviceId, projectNumber, httpStart, tcpserverStart,
          daliserverStart, comminication, timeSync, tus1, tus2, tus3, pow1, pow2, pow3 } }

/-- `save_handler`, for a request of `totalLen` bytes of which `received` arrive.  `none` is an
access outside of a buffer. -/
def saveHandler (c : Config) (totalLen : Nat) (received : List UInt8) :
    Option (EspErr × Config) :=
  if scratchBufsize ≤ totalLen then some (.fail, c)
  else if received.length < totalLen then some (.fail, c)
  else (saveForm (cstring received)).map fun c => (.ok, c)

theorem saveHandler_eq_ok {c c' : Config} {buf : List UInt8} (h : 0 ∉ buf) :
    saveHandler c buf.length buf = some (.ok, c') ↔
      buf.length < scratchBufsize ∧ saveForm buf = some c' := by
  unfold saveHandler
  rw [if_neg (Nat.lt_irrefl _), cstring_eq_self h]
  split
  · rename_i hlen
    exact iff_of_false (by simp) fun hsave => absurd hsave.1 (Nat.not_lt.mpr hlen)
  · rename_i hlen
    simp [Nat.lt_of_not_le hlen]

/-! ### Decoding -/

theorem urlDecode_cons {b : UInt8} (hb : b ≠ 0x25) (rest : List UInt8) :
    urlDecode (b :: rest) = (if b = 0x2B then 0x20 else b) :: urlDecode rest := by
  rw [urlDecode]
  rintro a c rest' rfl
  exact absurd rfl hb

theorem hexDigits_spec (b : UInt8) :
    IsXDigit (hexDigit (b / 16)) ∧ IsXDigit (hexDigit (b % 16)) ∧
      16 * xDigit (hexDigit (b / 16)) + xDigit (hexDigit (b % 16)) = b ∧
      hexDigit (b / 16) ≠ 0x2B ∧ hexDigit (b % 16) ≠ 0x2B := by
  revert b
  decide +kernel

/-- Decoding what a browser encoded. -/
theorem urlDecode_encode {xs : List UInt8} (h : 0 ∉ xs) :
    urlDecode (replacechar (encode xs) 0x2B 0x20) = xs := by
  induction xs with
  | nil => rfl
  | cons b xs ih =>
    have hb : b ≠ 0 := (List.ne_of_not_mem_cons h).symm
    have ih := ih (List.not_mem_of_not_mem_cons h)
    unfold replacechar at ih ⊢
    rw [encode_cons, List.map_append, encodeByte]
    split
    · rename_i hspace
      rw [hspace, List.map_singleton, if_pos rfl, List.singleton_append,
        urlDecode_cons (by decide), ih]
      rfl
    · split
      · rename_i hplain
        have hplus : b ≠ 0x2B := by
          rintro rfl
          exact absurd hplain (by decide)
        have hpercent : b ≠ 0x25 := by
          rintro rfl
          exact absurd hplain (by decide)
        rw [List.map_singleton, if_neg hplus, List.singleton_append, urlDecode_cons hpercent,
          if_neg hplus, ih]
      · obtain ⟨hhigh, hlow, hvalue, hhigh', hlow'⟩ := hexDigits_spec b
        simp only [List.map_cons, List.map_nil, if_neg hhigh', if_neg hlow', List.cons_append,
          List.nil_append]
        rw [if_neg (by decide), urlDecode, if_pos ⟨hhigh, hlow⟩]
        simp only [hvalue, if_neg hb, ih]

/-! ### What is stored -/

/-- The configuration that is stored when `val` are the texts of the parameters. -/
structure Stores (val : String → List UInt8) (c : Config) : Prop where
  mqttServer : c.glob.mqttServer.bytes = val "MQTT"
  deviceId : c.glob.deviceId = UInt8.ofInt (atoiInt (val "DEVID"))
  mqttKeepalive : c.glob.mqttKeepalive = UInt16.ofInt (atoiInt (val "KEEP"))
  comminication : c.glob.comminication = UInt8.ofInt (atoiInt (val "COMM"))
  pow1 : c.glob.pow1 = checkedPow (UInt8.ofInt (atoiInt (val "POW1")))
  pow2 : c.glob.pow2 = checkedPow (UInt8.ofInt (atoiInt (val "POW2")))
  pow3 : c.glob.pow3 = checkedPow (UInt8.ofInt (atoiInt (val "POW3")))
  projectNumber : c.glob.projectNumber = UInt8.ofInt (atoiInt (val "PROJE"))
  wanType : c.net.wanType = UInt32.ofInt (atoiInt (val "OUT"))
  channel : c.net.channel = UInt8.ofInt (atoiInt (val "CHAN"))
  wifiMaximumRetry : c.net.wifiMaximumRetry = UInt8.ofInt (atoiInt (val "WRET"))
  tus1 : c.glob.tus1 = UInt8.ofInt (atoiInt (val "TUS1"))
  tus2 : c.glob.tus2 = UInt8.ofInt (atoiInt (val "TUS2"))
  tus3 : c.glob.tus3 = UInt8.ofInt (atoiInt (val "TUS3"))
  ipstat : c.net.ipstat = UInt32.ofInt (atoiInt (val "GETIP"))
  ip : c.net.ip.bytes = val "IP"
  netmask : c.net.netmask.bytes = val "NETMASK"
  gateway : c.net.gateway.bytes = val "GATEWAY"
  wifiSsid : c.net.wifiSsid.bytes = urlDecode (replacechar (val "SSID") 0x2B 0x20)
  wifiPass : c.net.wifiPass.bytes = urlDecode (replacechar (val "PASS") 0x2B 0x20)
  dns : c.net.dns.bytes = val "DNS1"
  backupDns : c.net.backupDns.bytes = val "DNS2"
  httpStart : c.glob.httpStart = switched (val "WEB")
  tcpserverStart : c.glob.tcpserverStart = switched (val "TCP")
  daliserverStart : c.glob.daliserverStart = switched (val "UDP")
  timeSync : c.glob.timeSync = switched (val "TSYNC")

theorem saveForm_eq_some {buf : List UInt8} {val : String → List UInt8}
    (h : ∀ key, findparam buf (text key) = some (val key)) {c : Config} :
    saveForm buf = some c ↔ Stores val c := by
  simp only [saveForm, h, bind, Option.bind_some]
  constructor
  · intro hc
    obtain ⟨mqttServer, hmqtt, hc⟩ := Option.bind_eq_some_iff.mp hc
    obtain ⟨ip, hip, hc⟩ := Option.bind_eq_some_iff.mp hc
    obtain ⟨netmask, hnetmask, hc⟩ := Option.bind_eq_some_iff.mp hc
    obtain ⟨gateway, hgateway, hc⟩ := Option.bind_eq_some_iff.mp hc
    obtain ⟨wifiSsid, hssid, hc⟩ := Option.bind_eq_some_iff.mp hc
    obtain ⟨wifiPass, hpass, hc⟩ := Option.bind_eq_some_iff.mp hc
    obtain ⟨dns, hdns, hc⟩ := Option.bind_eq_some_iff.mp hc
    obtain ⟨backupDns, hbackup, hc⟩ := Option.bind_eq_some_iff.mp hc
    obtain rfl := Option.some.inj hc
    rw [strcpy_eq_some] at hmqtt hip hnetmask hgateway hssid hpass hdns hbackup
    constructor <;> first | rfl | assumption
  · intro hc
    rw [strcpy_eq_some.mpr hc.mqttServer, Option.bind_some, strcpy_eq_some.mpr hc.ip,
      Option.bind_some, strcpy_eq_some.mpr hc.netmask, Option.bind_some,
      strcpy_eq_some.mpr hc.gateway, Option.bind_some, strcpy_eq_some.mpr hc.wifiSsid,
      Option.bind_some, strcpy_eq_some.mpr hc.wifiPass, Option.bind_some,
      strcpy_eq_some.mpr hc.dns, Option.bind_some, strcpy_eq_some.mpr hc.backupDns,
      Option.bind_some, ← hc.deviceId, ← hc.mqttKeepalive, ← hc.comminication, ← hc.pow1,
      ← hc.pow2, ← hc.pow3, ← hc.projectNumber, ← hc.wanType, ← hc.channel,
      ← hc.wifiMaximumRetry, ← hc.tus1, ← hc.tus2, ← hc.tus3, ← hc.ipstat, ← hc.httpStart,
      ← hc.tcpserverStart, ← hc.daliserverStart, ← hc.timeSync]

/-! ### Reading a form -/

/-- The fields of a form fit into the buffers of `findparam`. -/
def FormFits (fields : List (List UInt8 × List UInt8)) : Prop :=
  (body fields).length < 400 ∧ ∀ f ∈ fields, (pair f).length < 50

theorem equals_mem_pair (f : List UInt8 × List UInt8) : 0x3D ∈ pair f :=
  List.mem_append_right _ List.mem_cons_self

theorem findparamLoop_map_pair {fields : List (List UInt8 × List UInt8)} (hnames : NamesOk fields)
    (hfits : ∀ f ∈ fields, (pair f).length < 50) (key : List UInt8) :
    findparamLoop key (fields.map pair) = some ((fields.lookup key).elim [] encode) := by
  induction fields with
  | nil => rfl
  | cons f fields ih =>
    obtain ⟨hf, hfields⟩ := List.forall_mem_cons.mp hnames
    obtain ⟨hlen, hlens⟩ := List.forall_mem_cons.mp hfits
    rw [List.map_cons, findparamLoop, if_pos ⟨hlen, equals_mem_pair f⟩, takeWhile_pair hf.2,
      dropWhile_pair hf.2, List.lookup_cons]
    by_cases hkey : f.1 = key
    · rw [if_pos hkey, hkey, beq_self_eq_true]
      rfl
    · rw [if_neg hkey, beq_false_of_ne (Ne.symm hkey), ih hfields hlens]

/-- `findparam` reads what a browser sent. -/
theorem findparam_body {fields : List (List UInt8 × List UInt8)} (hnames : NamesOk fields)
    (hfits : FormFits fields) (key : List UInt8) :
    findparam (body fields) key = some ((fields.lookup key).elim [] encode) := by
  rw [findparam, if_pos hfits.1, strtok, splitOn_body hnames,
    findparamLoop_map_pair hnames hfits.2]

/-- A search that does not find its name goes through all of the form. -/
theorem formFits_of_findparam {fields : List (List UInt8 × List UInt8)} (hnames : NamesOk fields)
    {key v : List UInt8} (hkey : ∀ f ∈ fields, f.1 ≠ key)
    (h : findparam (body fields) key = some v) : FormFits fields := by
  unfold findparam at h
  split at h
  · rename_i hlen
    refine ⟨hlen, ?_⟩
    rw [strtok, splitOn_body hnames] at h
    clear hlen
    induction fields with
    | nil => exact List.forall_mem_nil _
    | cons f fields ih =>
      obtain ⟨hf, hfields⟩ := List.forall_mem_cons.mp hnames
      obtain ⟨hne, hnes⟩ := List.forall_mem_cons.mp hkey
      rw [List.map_cons, findparamLoop] at h
      split at h
      · rename_i hlen
        rw [takeWhile_pair hf.2, if_neg hne] at h
        exact List.forall_mem_cons.mpr ⟨hlen.1, ih hfields hnes h⟩
      · cases h
  · cases h

end DaliController.Http
