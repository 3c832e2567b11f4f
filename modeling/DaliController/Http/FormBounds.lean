import DaliController.Http.Save
import DaliController.Lib.Copies

/-! The copies that `save_handler` makes while it reads a form.  Only the length of the whole body
is checked: `findparam` copies the body to 400 bytes and each token to 50, and the part in front of
a `=` that may be missing. -/

namespace DaliController.Http

open CString Decimal Copies

/-! ### The code -/

/-- What stands in memory behind the array of `strpos`, which has no NUL: where the first `=` is
found, if the text has none.  It may differ with each token of each search. -/
abbrev Behind := List UInt8 → Nat → Option Nat

/-- `strpos(bf, "=", 0)`, which is -1 when nothing is found. -/
def strpos (behind : Option Nat) (bf : List UInt8) : Copying Int := do
  copy bf.length (bf.length - 0)
  if 0x3D ∈ bf then return (bf.takeWhile (· ≠ 0x3D)).length
  else
    match behind with
    | some k => return bf.length + k
    | none => return -1

/-- The string in `bir`, once `i` bytes of `bf` and its NUL were copied to zeros. -/
def birText (bf : List UInt8) (i : Int) : List UInt8 := bf.take i.toNat

/-- The loop of `findparam` from its token `k` on, and the text in `argv` behind it. -/
def findparamCopies (behind : Behind) (key : List UInt8) :
    Nat → List (List UInt8) → Copying (List UInt8)
  | _, [] => return []
  | k, token :: tokens => do
    copy 50 (token.length + 1)
    let i ← strpos (behind key k) token
    copy 50 i
    if birText token i = key then
      copy 50 (token.length - (i + 1))
      let iki := token.drop (i + 1).toNat
      copy 50 (iki.length + 1)
      return iki
    else findparamCopies behind key (k + 1) tokens

/-- `findparam`, with the text that it leaves in `argv`. -/
def findparamCopy (behind : Behind) (buf key : List UInt8) : Copying (List UInt8) := do
  copy 400 (buf.length + 1)
  findparamCopies behind key 0 (strtok buf)

/-- What `save_handler` does with the text of a parameter: it reads a number or a switch from it,
copies it to an array, or copies what it decodes to `bbb` and from there to an array. -/
inductive Use
  | read
  | chars (size : Nat)
  | decoded (size : Nat)
  deriving DecidableEq, Repr

def Use.copies (aaa : List UInt8) : Use → Copying Unit
  | .read => return ()
  | .chars size => copy size (aaa.length + 1)
  | .decoded size => do
    let str := urlDecode (replacechar aaa 0x2B 0x20)
    copy 50 (str.length + 1)
    copy size (str.length + 1)

/-- The parameters that `save_handler` looks for, in its order. -/
def saveParams : List (String × Use) :=
  [("MQTT", .chars 64), ("DEVID", .read), ("KEEP", .read), ("COMM", .read), ("POW1", .read),
    ("POW2", .read), ("POW3", .read), ("PROJE", .read), ("OUT", .read), ("CHAN", .read),
    ("WRET", .read), ("TUS1", .read), ("TUS2", .read), ("TUS3", .read), ("GETIP", .read),
    ("IP", .chars 17), ("NETMASK", .chars 17), ("GATEWAY", .chars 17), ("SSID", .decoded 32),
    ("PASS", .decoded 32), ("DNS1", .chars 17), ("DNS2", .chars 17), ("WEB", .read),
    ("TCP", .read), ("UDP", .read), ("TSYNC", .read)]

/-- The copies of `save_handler`, for the text `buf`. -/
def saveCopies (behind : Behind) (buf : List UInt8) : Copying Unit :=
  saveParams.forM fun p => do
    let aaa ← findparamCopy behind buf (text p.1)
    p.2.copies aaa

/-- The copies of `save_handler`, for a request of `totalLen` bytes of which `received` arrive. -/
def saveHandlerCopies (behind : Behind) (totalLen : Nat) (received : List UInt8) :
    Copying EspErr := do
  if scratchBufsize ≤ totalLen then return .fail
  if received.length < totalLen then return .fail
  saveCopies behind (cstring received)
  return .ok

/-! ### Tokens -/

/-- The part of a token in front of its first `=`. -/
def nameOf (token : List UInt8) : List UInt8 := token.takeWhile (· ≠ 0x3D)

/-- The tokens that `findparam` looks at: up to the first one with the name. -/
def examined (key : List UInt8) (tokens : List (List UInt8)) : List (List UInt8) :=
  tokens.take (tokens.findIdx (fun token => decide (nameOf token = key)) + 1)

/-- The text of the first token with the name. -/
def valueOf (key : List UInt8) (tokens : List (List UInt8)) : List UInt8 :=
  ((tokens.find? fun token => decide (nameOf token = key)).map fun token =>
    (token.dropWhile (· ≠ 0x3D)).drop 1).getD []

/-- A token that `findparam` can copy: it is shorter than 50 bytes and has a `=`.  Else a `=` must
be found by chance, not too far behind it, and the token must not be the name alone. -/
def TokenFits (found : Option Nat) (key token : List UInt8) : Prop :=
  token.length < 50 ∧ (0x3D ∈ token ∨ token ≠ key ∧ ∃ k ∈ found, token.length + k ≤ 50)

instance (found : Option Nat) (key token : List UInt8) : Decidable (TokenFits found key token) :=
  inferInstanceAs (Decidable (_ ∧ (_ ∨ _ ∧ ∃ k ∈ found, _)))

section Tokens

variable {key token : List UInt8} {tokens : List (List UInt8)}

theorem examined_cons : examined key (token :: tokens) =
    if nameOf token = key then [token] else token :: examined key tokens := by
  unfold examined
  rw [List.findIdx_cons]
  by_cases h : nameOf token = key <;> simp [h]

theorem valueOf_cons : valueOf key (token :: tokens) =
    if nameOf token = key then (token.dropWhile (· ≠ 0x3D)).drop 1 else valueOf key tokens := by
  unfold valueOf
  by_cases h : nameOf token = key <;> simp [h]

theorem nameOf_of_not_mem (h : 0x3D ∉ token) : nameOf token = token := by
  unfold nameOf
  rw [List.takeWhile_eq_self_iff]
  intro b hb
  refine decide_eq_true fun heq => h ?_
  exact heq ▸ hb

/-- A token with a `=` is its name, the `=` and its text. -/
theorem token_eq (h : 0x3D ∈ token) :
    token = nameOf token ++ 0x3D :: (token.dropWhile (· ≠ 0x3D)).drop 1 := by
  induction token with
  | nil => cases h
  | cons b token ih =>
    by_cases hb : b = 0x3D
    · simp [nameOf, hb]
    · have hmem : 0x3D ∈ token := (List.mem_cons.mp h).resolve_left fun heq => hb heq.symm
      have hname : nameOf (b :: token) = b :: nameOf token := by simp [nameOf, hb]
      have hdrop : (b :: token).dropWhile (· ≠ 0x3D) = token.dropWhile (· ≠ 0x3D) := by simp [hb]
      rw [hname, hdrop, List.cons_append, ← ih hmem]

end Tokens

theorem strpos_of_mem {bf : List UInt8} (h : 0x3D ∈ bf) (found : Option Nat) :
    strpos found bf = .ok ((nameOf bf).length : Int) := by
  have hcopy : copy bf.length ((bf.length : Int) - 0) = .ok () := copy_eq_ok.mpr (by omega)
  unfold strpos
  rw [hcopy]
  exact if_pos h

theorem strpos_of_not_mem {bf : List UInt8} (h : 0x3D ∉ bf) (found : Option Nat) :
    strpos found bf = .ok (found.elim (-1) fun k : Nat => (bf.length : Int) + k) := by
  have hcopy : copy bf.length ((bf.length : Int) - 0) = .ok () := copy_eq_ok.mpr (by omega)
  unfold strpos
  rw [hcopy]
  cases found <;> exact if_neg h

/-- A token with a `=` is copied if it is short enough. -/
theorem findparamCopies_of_mem {token : List UInt8} (hmem : 0x3D ∈ token) (behind : Behind)
    (key : List UInt8) (k : Nat) (tokens : List (List UInt8)) (v : List UInt8) :
    findparamCopies behind key k (token :: tokens) = .ok v ↔
      token.length < 50 ∧
        if nameOf token = key then v = (token.dropWhile (· ≠ 0x3D)).drop 1
        else findparamCopies behind key (k + 1) tokens = .ok v := by
  obtain ⟨name, hname⟩ : ∃ name, name = nameOf token := ⟨_, rfl⟩
  obtain ⟨rest, hrest⟩ : ∃ rest, rest = (token.dropWhile (· ≠ 0x3D)).drop 1 := ⟨_, rfl⟩
  have htoken : token = name ++ 0x3D :: rest := hname ▸ hrest ▸ token_eq hmem
  have hlen : token.length = name.length + (rest.length + 1) := by
    rw [htoken, List.length_append, List.length_cons]
  have hbir : birText token (name.length : Int) = name := by
    rw [birText, Int.toNat_natCast, htoken, List.take_left' rfl]
  have hiki : token.drop ((name.length : Int) + 1).toNat = rest := by
    rw [show ((name.length : Int) + 1).toNat = name.length + 1 by omega, htoken]
    simp
  rw [findparamCopies, seq_eq_ok, copy_eq_ok, strpos_of_mem hmem, ← hname, ← hrest, bind_eq_ok]
  constructor
  · rintro ⟨hshort, i, hi, h⟩
    cases hi
    rw [seq_eq_ok, hbir] at h
    obtain ⟨-, h⟩ := h
    refine ⟨by omega, ?_⟩
    split at h
    · rename_i hkey
      rw [if_pos hkey]
      rw [seq_eq_ok, hiki, seq_eq_ok] at h
      exact (Except.ok.inj h.2.2).symm
    · rename_i hkey
      rw [if_neg hkey]
      exact h
  · rintro ⟨hshort, h⟩
    refine ⟨by omega, _, rfl, ?_⟩
    rw [seq_eq_ok, copy_eq_ok, hbir]
    refine ⟨by omega, ?_⟩
    split at h
    · rename_i hkey
      rw [if_pos hkey, seq_eq_ok, copy_eq_ok, hiki, seq_eq_ok, copy_eq_ok, h]
      exact ⟨by omega, by omega, rfl⟩
    · rename_i hkey
      rw [if_neg hkey]
      exact h

/-- Without one, a `=` must be found behind the token, which must not be the name. -/
theorem findparamCopies_of_not_mem {token : List UInt8} (hmem : 0x3D ∉ token) (behind : Behind)
    (key : List UInt8) (k : Nat) (tokens : List (List UInt8)) (v : List UInt8) :
    findparamCopies behind key k (token :: tokens) = .ok v ↔
      token.length < 50 ∧ token ≠ key ∧ (∃ j ∈ behind key k, token.length + j ≤ 50) ∧
        findparamCopies behind key (k + 1) tokens = .ok v := by
  have htext (j : Nat) : birText token ((token.length : Int) + j) = token := by
    rw [birText, List.take_of_length_le (by omega)]
  rw [findparamCopies, seq_eq_ok, copy_eq_ok, strpos_of_not_mem hmem, bind_eq_ok]
  constructor
  · rintro ⟨hshort, i, hi, h⟩
    rw [seq_eq_ok, copy_eq_ok] at h
    obtain ⟨hbir, h⟩ := h
    cases hfound : behind key k with
    | none =>
      rw [hfound, Option.elim_none] at hi
      cases hi
      omega
    | some j =>
      rw [hfound, Option.elim_some] at hi
      cases hi
      rw [htext] at h
      split at h
      · rw [seq_eq_ok, copy_eq_ok] at h
        omega
      · rename_i hkey
        exact ⟨by omega, hkey, ⟨j, rfl, by omega⟩, h⟩
  · rintro ⟨hshort, hkey, ⟨j, hfound, hj⟩, h⟩
    refine ⟨by omega, (token.length : Int) + j, by rw [hfound]; rfl, ?_⟩
    rw [seq_eq_ok, copy_eq_ok, htext, if_neg hkey]
    exact ⟨by omega, h⟩

/-- One token: `findparam` stops at it, goes on to the next, or makes a copy out of bounds. -/
theorem findparamCopies_cons (behind : Behind) (key : List UInt8) (k : Nat) (token : List UInt8)
    (tokens : List (List UInt8)) (v : List UInt8) :
    findparamCopies behind key k (token :: tokens) = .ok v ↔
      TokenFits (behind key k) key token ∧
        if nameOf token = key then v = (token.dropWhile (· ≠ 0x3D)).drop 1
        else findparamCopies behind key (k + 1) tokens = .ok v := by
  unfold TokenFits
  by_cases hmem : 0x3D ∈ token
  · rw [findparamCopies_of_mem hmem, and_iff_left (Or.inl hmem)]
  · rw [findparamCopies_of_not_mem hmem, nameOf_of_not_mem hmem, or_iff_right hmem]
    constructor
    · rintro ⟨hshort, hkey, hfound, h⟩
      rw [if_neg hkey]
      exact ⟨⟨hshort, hkey, hfound⟩, h⟩
    · rintro ⟨⟨hshort, hkey, hfound⟩, h⟩
      rw [if_neg hkey] at h
      exact ⟨hshort, hkey, hfound, h⟩

theorem findparamCopies_eq_ok (behind : Behind) (key : List UInt8) (tokens : List (List UInt8))
    (k : Nat) (v : List UInt8) :
    findparamCopies behind key k tokens = .ok v ↔
      (∀ j token, (examined key tokens)[j]? = some token →
        TokenFits (behind key (k + j)) key token) ∧ v = valueOf key tokens := by
  induction tokens generalizing k with
  | nil =>
    have hnone : examined key [] = [] := rfl
    rw [hnone]
    constructor
    · intro h
      exact ⟨nofun, (Except.ok.inj h).symm⟩
    · rintro ⟨-, rfl⟩
      rfl
  | cons token tokens ih =>
    rw [findparamCopies_cons, examined_cons, valueOf_cons]
    by_cases hkey : nameOf token = key
    · simp only [if_pos hkey]
      refine and_congr_left fun _ => ⟨fun h j t ht => ?_, fun h => h 0 token rfl⟩
      cases j with
      | zero =>
        cases ht
        exact h
      | succ j => cases ht
    · simp only [if_neg hkey, ih, ← and_assoc]
      refine and_congr_left fun _ => ⟨?_, fun h => ⟨h 0 token rfl, fun j t ht => ?_⟩⟩
      · rintro ⟨h, hrest⟩ j t ht
        cases j with
        | zero =>
          cases ht
          exact h
        | succ j =>
          rw [show k + (j + 1) = k + 1 + j by omega]
          exact hrest j t ht
      · rw [show k + 1 + j = k + (j + 1) by omega]
        exact h (j + 1) t ht

/-- With no `=` behind a token, these are the copies after which `findparam` has a result. -/
theorem findparamLoop_eq_some {key v : List UInt8} {tokens : List (List UInt8)} (k : Nat) :
    findparamLoop key tokens = some v ↔
      findparamCopies (fun _ _ => none) key k tokens = .ok v := by
  induction tokens generalizing k with
  | nil =>
    constructor
    · intro h
      exact congrArg Except.ok (Option.some.inj h)
    · intro h
      exact congrArg some (Except.ok.inj h)
  | cons token tokens ih =>
    have hfits : TokenFits none key token ↔ token.length < 50 ∧ 0x3D ∈ token := by
      simp [TokenFits]
    have hname : token.takeWhile (· ≠ 0x3D) = nameOf token := rfl
    rw [findparamCopies_cons, hfits, findparamLoop, hname]
    split
    · rename_i h
      rw [and_iff_right h]
      by_cases hkey : nameOf token = key
      · rw [if_pos hkey, if_pos hkey, Option.some_inj, eq_comm]
      · rw [if_neg hkey, if_neg hkey, ih]
    · rename_i h
      refine iff_of_false (fun hnone => ?_) fun hfits => h hfits.1
      cases hnone

theorem findparam_eq_some {buf key v : List UInt8} :
    findparam buf key = some v ↔ findparamCopy (fun _ _ => none) buf key = .ok v := by
  rw [findparamCopy, seq_eq_ok, copy_eq_ok, findparam]
  split
  · rename_i h
    rw [and_iff_right (by omega), findparamLoop_eq_some 0]
  · rename_i h
    refine iff_of_false (fun hnone => ?_) fun hcopy => h (by omega)
    cases hnone

theorem findparamCopy_eq_ok (behind : Behind) (buf key v : List UInt8) :
    findparamCopy behind buf key = .ok v ↔
      (buf.length < 400 ∧ ∀ k token, (examined key (strtok buf))[k]? = some token →
        TokenFits (behind key k) key token) ∧ v = valueOf key (strtok buf) := by
  rw [findparamCopy, seq_eq_ok, copy_eq_ok, findparamCopies_eq_ok, ← and_assoc]
  simp only [Nat.zero_add]
  refine and_congr_left fun _ => and_congr_left fun _ => ?_
  omega

/-! ### Fields -/

/-- A text that the fields of a parameter have room for. -/
def Use.Fits (aaa : List UInt8) : Use → Prop
  | .read => True
  | .chars size => aaa.length < size
  | .decoded size => (urlDecode (replacechar aaa 0x2B 0x20)).length < size

/-- `bbb` is longer than the field behind it. -/
def Use.Decodes : Use → Prop
  | .decoded size => size ≤ 50
  | _ => True

instance : DecidablePred Use.Decodes
  | .read => isTrue trivial
  | .chars _ => isTrue trivial
  | .decoded size => inferInstanceAs (Decidable (size ≤ 50))

theorem saveParams_decodes : ∀ p ∈ saveParams, p.2.Decodes := by
  decide

theorem Use.copies_eq_ok {aaa : List UInt8} {use : Use} (h : use.Decodes) :
    use.copies aaa = .ok () ↔ use.Fits aaa := by
  cases use with
  | read => exact iff_of_true rfl trivial
  | chars size =>
    rw [Use.copies, copy_eq_ok, Use.Fits]
    omega
  | decoded size =>
    have hsize : size ≤ 50 := h
    rw [Use.copies, seq_eq_ok, copy_eq_ok, copy_eq_ok, Use.Fits]
    omega

/-! ### Main result -/

/-- A text whose copies all stay in bounds. -/
structure InBounds (behind : Behind) (buf : List UInt8) : Prop where
  body : buf.length < 400
  tokens : ∀ p ∈ saveParams, ∀ k token, (examined (text p.1) (strtok buf))[k]? = some token →
    TokenFits (behind (text p.1) k) (text p.1) token
  fields : ∀ p ∈ saveParams, p.2.Fits (valueOf (text p.1) (strtok buf))

theorem saveCopies_eq_ok (behind : Behind) (buf : List UInt8) :
    saveCopies behind buf = .ok () ↔ InBounds behind buf := by
  have hparam : ∀ p ∈ saveParams,
      ((do let aaa ← findparamCopy behind buf (text p.1); p.2.copies aaa) = .ok () ↔
        (buf.length < 400 ∧ ∀ k token, (examined (text p.1) (strtok buf))[k]? = some token →
          TokenFits (behind (text p.1) k) (text p.1) token) ∧
        p.2.Fits (valueOf (text p.1) (strtok buf))) := by
    intro p hp
    rw [bind_eq_ok, ← Use.copies_eq_ok (saveParams_decodes p hp)]
    constructor
    · rintro ⟨v, hfind, hcopies⟩
      obtain ⟨hfits, rfl⟩ := (findparamCopy_eq_ok behind buf (text p.1) v).mp hfind
      exact ⟨hfits, hcopies⟩
    · rintro ⟨hfits, hcopies⟩
      exact ⟨_, (findparamCopy_eq_ok behind buf (text p.1) _).mpr ⟨hfits, rfl⟩, hcopies⟩
  unfold saveCopies
  rw [forM_eq_ok]
  constructor
  · intro h
    have hall := fun p hp => (hparam p hp).mp (h p hp)
    exact
      { body := (hall ("MQTT", .chars 64) (by decide)).1.1
        tokens := fun p hp => (hall p hp).1.2
        fields := fun p hp => (hall p hp).2 }
  · intro h p hp
    exact (hparam p hp).mpr ⟨⟨h.body, h.tokens p hp⟩, h.fields p hp⟩

/-- The copies for a body that is accepted stay in bounds exactly if the body, its tokens and the
texts of its parameters fit. -/
theorem save_handler_in_bounds_iff (behind : Behind) (body : List UInt8)
    (h : body.length < scratchBufsize) :
    saveHandlerCopies behind body.length body = .ok .ok ↔ InBounds behind (cstring body) := by
  rw [← saveCopies_eq_ok]
  unfold saveHandlerCopies
  rw [if_neg (Nat.not_le.mpr h), if_neg (Nat.lt_irrefl _), seq_eq_ok]
  exact and_iff_left rfl

theorem save_handler_in_bounds_network :
    saveHandlerCopies (fun _ _ => none) 22 (text "SSID=Ev+Wifi%21&MQTT=a") = .ok .ok ∧
      InBounds (fun _ _ => none) (cstring (text "SSID=Ev+Wifi%21&MQTT=a")) := by
  have hcopies : saveHandlerCopies (fun _ _ => none) 22 (text "SSID=Ev+Wifi%21&MQTT=a") =
      .ok .ok := by
    decide +kernel
  exact ⟨hcopies, (save_handler_in_bounds_iff (fun _ _ => none)
    (text "SSID=Ev+Wifi%21&MQTT=a") (by decide)).mp hcopies⟩

/-- The name of a server that `mqtt_server` has room for is too long for `bf`. -/
theorem save_handler_long_server :
    (text "MQTT=" ++ List.replicate 50 0x61).length < scratchBufsize ∧
      saveHandlerCopies (fun _ _ => none) 55 (text "MQTT=" ++ List.replicate 50 0x61) =
        .error ⟨50, 56⟩ := by
  decide

end DaliController.Http
