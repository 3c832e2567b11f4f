import DaliController.Http.Config
import DaliController.Lib.Copies

/-! Commands in JSON.  `data_parse` and `udp_callback` take the text of `com` from a message with
`JSON_getstring`, into buffers of their own.  The limit that they pass is not the size of the
buffer: `data_parse` leaves no room for the NUL of the longest text. -/

namespace DaliController.Tcp

open CString Copies Http

/-- `cJSON`, which is not part of this repository: what is read of the items that `cJSON_Parse`
makes of a text.  `none` stands for NULL, also as the item that is looked into, and only strings
have a `valuestring`. -/
class CJson (J : Type) where
  getObjectItem : Option J → String → Option J
  isString : J → Bool
  valuestring : J → Option Text
  valueint : J → Int
  isSome_valuestring : ∀ it, (valuestring it).isSome = isString it

export CJson (getObjectItem isString valuestring valueint isSome_valuestring)

/-! ### The code -/

/-- What goes wrong with a text: there is none, or its copy is out of bounds. -/
inductive Fault
  | noText
  | outOfBounds (c : Copy)
  deriving DecidableEq, Repr

section

variable {J : Type} [CJson J]

/-- `JSON_getstring` for a buffer of `size` bytes, with the text that it leaves there. -/
def jsonGetstring (rt : Option J) (item : String) (size : Nat) (len : UInt8) :
    Except Fault (Option Text) :=
  match getObjectItem rt item with
  | some it =>
    match valuestring it with
    | some tmp => do
      if len.toNat < tmp.bytes.length then return none
      (copy size (tmp.bytes.length + 1)).mapError Fault.outOfBounds
      return some tmp
    | none => throw .noText
  | none => return none

/-- `JSON_getint`, with the value that is left. -/
def jsonGetint (rt : Option J) (item : String) (value : UInt8) : UInt8 :=
  match getObjectItem rt item with
  | some it => UInt8.ofInt (valueint it)
  | none => value

end

/-- The functions that are given a message. -/
inductive Receiver
  | dataParse
  | udpCallback
  deriving DecidableEq, Repr

/-- The size of the buffer `command`. -/
def Receiver.size : Receiver → Nat
  | .dataParse => 15
  | .udpCallback => 30

def Receiver.limit : Receiver → UInt8
  | .dataParse => 15
  | .udpCallback => 28

section

variable {J : Type} [CJson J]

/-- The text in `command`. -/
def Receiver.command (r : Receiver) (rt : Option J) : Except Fault (List UInt8) := do
  let com ← jsonGetstring rt "com" r.size r.limit
  return (com.map Text.bytes).getD []

/-! ### The bounds -/

theorem jsonGetstring_of_none {rt : Option J} {item : String} (h : getObjectItem rt item = none)
    (size : Nat) (len : UInt8) : jsonGetstring rt item size len = .ok none := by
  rw [jsonGetstring, h]
  rfl

theorem jsonGetstring_of_noText {rt : Option J} {item : String} {it : J}
    (h : getObjectItem rt item = some it) (htext : valuestring it = none) (size : Nat)
    (len : UInt8) : jsonGetstring rt item size len = .error .noText := by
  rw [jsonGetstring, h]
  simp only [htext]
  rfl

/-- A text is refused, or copied if its NUL fits as well. -/
theorem jsonGetstring_of_some {rt : Option J} {item : String} {it : J} {tmp : Text}
    (h : getObjectItem rt item = some it) (htext : valuestring it = some tmp) (size : Nat)
    (len : UInt8) : jsonGetstring rt item size len =
      if len.toNat < tmp.bytes.length then .ok none
      else if tmp.bytes.length + 1 ≤ size then .ok (some tmp)
      else .error (.outOfBounds ⟨size, (tmp.bytes.length + 1 : Nat)⟩) := by
  rw [jsonGetstring, h]
  simp only [htext]
  split
  · rfl
  · by_cases hfits : tmp.bytes.length + 1 ≤ size
    · have hcopy : copy size ((tmp.bytes.length : Int) + 1) = .ok () := copy_eq_ok.mpr (by omega)
      rw [if_pos hfits, hcopy]
      rfl
    · have hcopy : copy size ((tmp.bytes.length : Int) + 1) =
          .error ⟨size, (tmp.bytes.length + 1 : Nat)⟩ :=
        if_neg fun hin : Copy.InBounds _ => hfits (by have := hin.2; simp only at this; omega)
      rw [if_neg hfits, hcopy]
      rfl

/-- `JSON_getstring` keeps to its buffer exactly if the item is a string, and not one that is
within the limit but too long for the buffer. -/
theorem jsonGetstring_ok_iff {rt : Option J} {item : String} (size : Nat) (len : UInt8) :
    (∃ v, jsonGetstring rt item size len = .ok v) ↔
      ∀ it, getObjectItem rt item = some it →
        ∃ tmp, valuestring it = some tmp ∧
          (tmp.bytes.length ≤ len.toNat → tmp.bytes.length < size) := by
  cases h : getObjectItem rt item with
  | none => exact iff_of_true ⟨none, jsonGetstring_of_none h size len⟩ nofun
  | some it =>
    cases htext : valuestring it with
    | none =>
      rw [jsonGetstring_of_noText h htext]
      refine iff_of_false nofun fun hall => ?_
      obtain ⟨tmp, htmp, -⟩ := hall it rfl
      rw [htext] at htmp
      cases htmp
    | some tmp =>
      rw [jsonGetstring_of_some h htext]
      constructor
      · rintro ⟨v, hv⟩ it' hit
        cases hit
        refine ⟨tmp, htext, fun hlen => ?_⟩
        rw [if_neg (Nat.not_lt.mpr hlen)] at hv
        split at hv
        · assumption
        · cases hv
      · intro hall
        obtain ⟨tmp', htmp, hlen⟩ := hall it rfl
        rw [htext] at htmp
        cases htmp
        split
        · exact ⟨none, rfl⟩
        · rename_i hle
          exact ⟨some tmp, if_pos (hlen (Nat.le_of_not_lt hle))⟩

/-- The text of `com` that a receiver has room for: any string, but no string of 15 bytes for
`data_parse`. -/
def Receiver.HasRoom (r : Receiver) (com : J) : Prop :=
  isString com = true ∧ ∀ tmp ∈ valuestring com, r = .dataParse → tmp.bytes.length ≠ 15

theorem Receiver.hasRoom_iff (r : Receiver) (com : J) : r.HasRoom com ↔
    ∃ tmp, valuestring com = some tmp ∧ (r = .dataParse → tmp.bytes.length ≠ 15) := by
  unfold Receiver.HasRoom
  rw [← isSome_valuestring]
  cases valuestring com <;> simp

/-- For every message, the command is taken without a fault exactly if `com` is missing, or has a
text that the receiver has room for. -/
theorem command_safe_iff (parse : List UInt8 → Option J) (r : Receiver) (data : List UInt8) :
    (∃ command, r.command (parse (cstring data)) = .ok command) ↔
      ∀ com, getObjectItem (parse (cstring data)) "com" = some com → r.HasRoom com := by
  have hcommand : (∃ command, r.command (parse (cstring data)) = .ok command) ↔
      ∃ v, jsonGetstring (parse (cstring data)) "com" r.size r.limit = .ok v := by
    unfold Receiver.command
    cases jsonGetstring (parse (cstring data)) "com" r.size r.limit with
    | error e => exact iff_of_false nofun nofun
    | ok v => exact iff_of_true ⟨(v.map Text.bytes).getD [], rfl⟩ ⟨v, rfl⟩
  rw [hcommand, jsonGetstring_ok_iff]
  refine forall₂_congr fun com _ => ?_
  rw [Receiver.hasRoom_iff]
  refine exists_congr fun tmp => and_congr_right fun _ => ?_
  cases r with
  | dataParse =>
    have hlimit : Receiver.dataParse.limit.toNat = 15 := rfl
    have hsize : Receiver.dataParse.size = 15 := rfl
    rw [hlimit, hsize]
    constructor
    · intro h _
      omega
    · intro h hle
      have hne := h rfl
      omega
  | udpCallback =>
    have hlimit : Receiver.udpCallback.limit.toNat = 28 := rfl
    have hsize : Receiver.udpCallback.size = 30 := rfl
    rw [hlimit, hsize]
    exact iff_of_true (by omega) nofun

end

/-- A tree that `cJSON_Parse` can make.  A number stands with its whole part. -/
inductive Json
  | null
  | bool (value : Bool)
  | number (whole : Int)
  | string (value : List UInt8)
  | array (items : List Json)
  | object (members : List (List UInt8 × Json))

def toLower (b : UInt8) : UInt8 := if 0x41 ≤ b ∧ b ≤ 0x5A then b + 0x20 else b

/-- What `cJSON` documents: the first member with the name, in capital or small letters; a
`valuestring` for strings only; and a `valueint` that stops at the ends of its range. -/
instance : CJson Json where
  getObjectItem rt item :=
    match rt with
    | some (.object members) =>
      (members.find? fun m => (cstring m.1).map toLower = (text item).map toLower).map Prod.snd
    | _ => none
  isString
    | .string _ => true
    | _ => false
  valuestring
    | .string value => some ⟨cstring value, zero_not_mem_cstring value⟩
    | _ => none
  valueint
    | .number whole => max (-2147483648) (min 2147483647 whole)
    | .bool true => 1
    | _ => 0
  isSome_valuestring it := by cases it <;> rfl

/-- A text of 15 letters, and a number. -/
theorem command_fault :
    Receiver.dataParse.command
        (some (Json.object [(text "com", .string (List.replicate 15 0x61))])) =
      .error (.outOfBounds ⟨15, 16⟩) ∧
    Receiver.udpCallback.command (some (Json.object [(text "com", .number 1)])) =
      .error .noText := by
  decide

end DaliController.Tcp
