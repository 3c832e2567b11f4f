import DaliController.Lib.CString

/-! The configuration that the setup page shows and changes: the fields of `globalconfig` and of
`netconfig` that `replace` prints and `save_handler` stores. -/

namespace DaliController.Http

open CString

/-- The bytes of a string literal. -/
def text (s : String) : List UInt8 := s.toByteArray.data.toList

@[simp] theorem text_inj {s t : String} : text s = text t ↔ s = t := by
  refine ⟨fun h => ?_, congrArg text⟩
  exact String.toByteArray_inj.mp (ByteArray.ext (Array.toList_inj.mp h))

/-- A C string in an array of `n` bytes. -/
structure CharArray (n : Nat) extends Text where
  fits : bytes.length < n

theorem CharArray.ext {n : Nat} {x y : CharArray n} (h : x.bytes = y.bytes) : x = y := by
  obtain ⟨⟨xs, _⟩, _⟩ := x
  obtain ⟨⟨ys, _⟩, _⟩ := y
  obtain rfl : xs = ys := h
  rfl

instance {n : Nat} : DecidableEq (CharArray n) := fun x y =>
  decidable_of_iff (x.bytes = y.bytes) ⟨CharArray.ext, fun h => h ▸ rfl⟩

/-- `strcpy` into an array of `n` bytes, where the text fits. -/
def strcpy (n : Nat) (xs : List UInt8) : Option (CharArray n) :=
  if h : 0 ∉ xs ∧ xs.length < n then some ⟨⟨xs, h.1⟩, h.2⟩ else none

theorem strcpy_eq_some {n : Nat} {xs : List UInt8} {x : CharArray n} :
    strcpy n xs = some x ↔ x.bytes = xs := by
  constructor
  · intro h
    obtain ⟨_, hx⟩ := Option.dite_none_right_eq_some.mp h
    exact congrArg (fun y : CharArray n => y.bytes) (Option.some.inj hx).symm
  · rintro rfl
    exact dif_pos ⟨x.nul_free, x.fits⟩

/-- `config_t`. -/
structure ConfigT where
  mqttServer : CharArray 64
  mqttKeepalive : UInt16
  deviceId : UInt8
  projectNumber : UInt8
  httpStart : UInt8
  tcpserverStart : UInt8
  daliserverStart : UInt8
  comminication : UInt8
  timeSync : UInt8
  tus1 : UInt8
  tus2 : UInt8
  tus3 : UInt8
  pow1 : UInt8
  pow2 : UInt8
  pow3 : UInt8
  deriving DecidableEq

/-- `home_network_config_t`, with the two enumerations as the numbers that a cast stores. -/
structure HomeNetworkConfigT where
  wanType : UInt32
  wifiSsid : CharArray 32
  wifiPass : CharArray 32
  ipstat : UInt32
  ip : CharArray 17
  netmask : CharArray 17
  gateway : CharArray 17
  channel : UInt8
  dns : CharArray 17
  backupDns : CharArray 17
  wifiMaximumRetry : UInt8
  deriving DecidableEq

/-- `netconfig` and `globalconfig`. -/
structure Config where
  net : HomeNetworkConfigT
  glob : ConfigT
  deriving DecidableEq

/-- A string literal in an array of `n` bytes. -/
def chars (n : Nat) (s : String) (h : 0 ∉ text s ∧ (text s).length < n := by decide) :
    CharArray n :=
  ⟨⟨text s, h.1⟩, h.2⟩

/-- What `default_config` and `network_default_config` store. -/
def defaultConfig : Config where
  net :=
    { wanType := 1
      wifiSsid := chars 32 "IMS_YAZILIM"
      wifiPass := chars 32 "mer6514a4c"
      ipstat := 1
      ip := chars 17 "192.168.1.220"
      netmask := chars 17 "255.255.255.0"
      gateway := chars 17 "192.168.1.1"
      channel := 1
      dns := chars 17 "8.8.8.8"
      backupDns := chars 17 "4.4.4.4"
      wifiMaximumRetry := 20 }
  glob :=
    { mqttServer := chars 64 "mqtt.smartq.com.tr"
      mqttKeepalive := 30
      deviceId := 1
      projectNumber := 1
      httpStart := 1
      tcpserverStart := 1
      daliserverStart := 1
      comminication := 0
      timeSync := 1
      tus1 := 13
      tus2 := 13
      tus3 := 13
      pow1 := 200
      pow2 := 200
      pow3 := 200 }

end DaliController.Http
