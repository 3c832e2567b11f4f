import DaliController.Http.Config
import DaliController.Lib.Decimal
import DaliController.Lib.Template

/-! `find_replace` writes a page with its parameters filled in.  A parameter is a name between two
`&`, and the page ends with the first NUL that is not directly behind a closing `&`. -/

namespace DaliController.Http

open Decimal Template

/-- `SCRATCH_BUFSIZE`. -/
abbrev scratchBufsize : Nat := 12288

/-- `PARAM_TEMP`. -/
abbrev paramTemp : Nat := 60

/-! ### The code -/

def checkedText (on : Bool) : List UInt8 := if on then text "checked" else text " "

/-- What the comparisons in `replace` print to `tmp`. -/
def printed (c : Config) (buf : List UInt8) : List UInt8 :=
  if buf = text "TUS1" then decimal c.glob.tus1.toNat
  else if buf = text "TUS2" then decimal c.glob.tus2.toNat
  else if buf = text "TUS3" then decimal c.glob.tus3.toNat
  else if buf = text "POW1" then decimal c.glob.pow1.toNat
  else if buf = text "POW2" then decimal c.glob.pow2.toNat
  else if buf = text "POW3" then decimal c.glob.pow3.toNat
  else if buf = text "MQTT" then c.glob.mqttServer.bytes
  else if buf = text "KEEP" then decimal c.glob.mqttKeepalive.toNat
  else if buf = text "DEVID" then decimal c.glob.deviceId.toNat
  else if buf = text "PROJE" then decimal c.glob.projectNumber.toNat
  else if buf = text "WEB" then checkedText (c.glob.httpStart = 1)
  else if buf = text "TCP" then checkedText (c.glob.tcpserverStart = 1)
  else if buf = text "UDP" then checkedText (c.glob.daliserverStart = 1)
  else if buf = text "TSYNC" then checkedText (c.glob.timeSync = 1)
  else if buf = text "OUT1" then checkedText (c.net.wanType = 1)
  else if buf = text "OUT2" then checkedText (c.net.wanType = 2)
  else if buf = text "GETIP1" then checkedText (c.net.ipstat = 1)
  else if buf = text "GETIP2" then checkedText (c.net.ipstat = 2)
  else if buf = text "IP" then c.net.ip.bytes
  else if buf = text "NETMASK" then c.net.netmask.bytes
  else if buf = text "GATEWAY" then c.net.gateway.bytes
  else if buf = text "SSID" then c.net.wifiSsid.bytes
  else if buf = text "PASS" then c.net.wifiPass.bytes
  else if buf = text "CHAN" then decimal c.net.channel.toNat
  else if buf = text "DNS1" then c.net.dns.bytes
  else if buf = text "DNS2" then c.net.backupDns.bytes
  else if buf = text "WRET" then decimal c.net.wifiMaximumRetry.toNat
  else []

/-- `replace`: the text in `tmp`, and the returned change of length.  Both texts have blocks of
`PARAM_TEMP` bytes. -/
def replace (c : Config) (buf : List UInt8) : Option (List UInt8 × Int) :=
  let tmp := printed c buf
  if buf.length < paramTemp ∧ tmp.length < paramTemp then
    if 0 < tmp.length then some (tmp, -2 - buf.length + tmp.length) else some (buf, -2)
  else none

/-- The variables of `find_replace`, with the bytes `tmp[0], …, tmp[j - 1]`.  The flag `i` is set
inside a parameter. -/
structure Scan where
  sourgePointer : Nat
  pointPointer : Nat
  basla : Nat
  ret : Int
  i : Bool
  tmp : List UInt8
  deriving DecidableEq

/-- One iteration of the loop, at a byte that is not the NUL. -/
def findReplaceStep (c : Config) (buf : List UInt8) (s : Scan) : Option Scan := do
  let s ← if buf[s.sourgePointer]? = some 0x26 then
      let counter := s.sourgePointer - s.pointPointer
      if s.i = false then
        some { s with basla := s.basla + counter, i := true, pointPointer := s.sourgePointer }
      else do
        let bitir := s.basla + counter
        let (ss, pp) ← replace c ((buf.drop s.basla).take (bitir - s.basla - 1))
        some
          { sourgePointer := s.sourgePointer + 1
            pointPointer := s.sourgePointer + 1
            basla := bitir + 1
            ret := s.ret + pp
            i := false
            tmp := s.tmp ++ ss }
    else some s
  if s.i = false then
    let b ← buf[s.sourgePointer]?
    some { s with tmp := s.tmp ++ [b], sourgePointer := s.sourgePointer + 1 }
  else some { s with sourgePointer := s.sourgePointer + 1 }

/-- The loop.  It reads one byte more in each iteration, so it leaves the buffer before it runs out
of fuel. -/
def findReplaceLoop (c : Config) (buf : List UInt8) : Nat → Scan → Option Scan
  | 0, _ => none
  | fuel + 1, s =>
    match buf[s.sourgePointer]? with
    | none => none
    | some b =>
      if b = 0 then some s else (findReplaceStep c buf s).bind (findReplaceLoop c buf fuel)

/-- `find_replace`: the bytes written to `tmp` before the last NUL, and the returned change of
length.  `none` is an access outside of a buffer. -/
def findReplace (c : Config) (buf : List UInt8) : Option (List UInt8 × Int) := do
  let s ← findReplaceLoop c buf (buf.length + 1) ⟨0, 0, 1, 0, false, []⟩
  if s.tmp.length < scratchBufsize then some (s.tmp, s.ret) else none

/-! ### The parameters -/

/-- What stands in the page for a parameter. -/
def shown (c : Config) (name : List UInt8) : List UInt8 :=
  if printed c name = [] then name else printed c name

/-- The name and the printed value of a parameter fit into their blocks. -/
def Fits (c : Config) (name : List UInt8) : Prop :=
  name.length < paramTemp ∧ (printed c name).length < paramTemp

instance (c : Config) : DecidablePred (Fits c) := fun name =>
  inferInstanceAs (Decidable (name.length < paramTemp ∧ (printed c name).length < paramTemp))

theorem replace_of_fits {c : Config} {name : List UInt8} (h : Fits c name) :
    replace c name =
      some (shown c name, ((shown c name).length : Int) - name.length - 2) := by
  refine (if_pos h).trans ?_
  unfold shown
  by_cases hp : printed c name = []
  · rw [if_pos hp, if_neg (by simp [hp])]
    congr 2
    omega
  · rw [if_neg hp, if_pos (List.length_pos_iff.mpr hp)]
    congr 2
    omega

theorem replace_of_not_fits {c : Config} {name : List UInt8} (h : ¬Fits c name) :
    replace c name = none := if_neg h

/-- The text and the change of length of a parsed page, when its parameters fit. -/
def filled (c : Config) (T : Parsed UInt8) : Option (List UInt8 × Int) :=
  if ∀ name ∈ T.holes, Fits c name then some (T.render (shown c), T.growth (shown c)) else none

theorem filled_lit (c : Config) (b : UInt8) (T : Parsed UInt8) :
    filled c (T.cons (.lit b)) = (filled c T).map fun (out, d) => (b :: out, d) := by
  unfold filled
  rw [Parsed.holes_cons_lit]
  split
  · rw [Parsed.growth_cons, Piece.growth, Int.zero_add]
    rfl
  · rfl

theorem filled_hole {c : Config} {name : List UInt8} (h : Fits c name) (b : UInt8)
    (T : Parsed UInt8) :
    filled c (T.cons (.hole name b)) = (filled c T).map fun (out, d) =>
      (shown c name ++ b :: out, ((shown c name).length : Int) - name.length - 2 + d) := by
  have hholes : (∀ n ∈ name :: T.holes, Fits c n) ↔ ∀ n ∈ T.holes, Fits c n :=
    List.forall_mem_cons.trans (and_iff_right h)
  unfold filled
  simp only [Parsed.holes_cons_hole, hholes]
  split
  · rw [Parsed.growth_cons, Parsed.render_cons, Piece.render, List.append_assoc]
    rfl
  · rfl

theorem filled_hole_of_not_fits {c : Config} {name : List UInt8} (h : ¬Fits c name) (b : UInt8)
    (T : Parsed UInt8) : filled c (T.cons (.hole name b)) = none :=
  if_neg fun hall => h (hall name List.mem_cons_self)

/-- What is left to write in a buffer, and the change of length. -/
def expand (c : Config) (m : Mode UInt8) (buf : List UInt8) : Option (List UInt8 × Int) :=
  (parse 0x26 0 m buf).bind fun (T, _) => filled c T

section Expand

variable (c : Config) {b : UInt8} {buf name : List UInt8}

theorem expand_nil (m : Mode UInt8) : expand c m [] = none := by cases m <;> rfl

theorem expand_lit (hzero : b ≠ 0) (hmark : b ≠ 0x26) :
    expand c .copy (b :: buf) = (expand c .copy buf).map fun (out, d) => (b :: out, d) := by
  unfold expand
  rw [parse, if_neg hzero, if_neg hmark]
  cases parse 0x26 0 .copy buf with
  | none => rfl
  | some r => exact filled_lit c b r.1

theorem expand_hole {c : Config} (h : Fits c name) :
    expand c (.next name) (b :: buf) = (expand c .copy buf).map fun (out, d) =>
      (shown c name ++ b :: out, ((shown c name).length : Int) - name.length - 2 + d) := by
  unfold expand
  rw [parse]
  cases parse 0x26 0 .copy buf with
  | none => rfl
  | some r => exact filled_hole h b r.1

theorem expand_of_not_fits {c : Config} (h : ¬Fits c name) : expand c (.next name) buf = none := by
  cases buf with
  | nil => exact expand_nil c _
  | cons b buf =>
    unfold expand
    rw [parse]
    cases parse 0x26 0 .copy buf with
    | none => rfl
    | some r => exact filled_hole_of_not_fits h b r.1

end Expand

/-! ### The loop -/

/-- Between two iterations the scanner copies, or it reads a name. -/
inductive Reads (buf : List UInt8) (s : Scan) : Mode UInt8 → Prop
  | copy (outside : s.i = false) (behind : s.pointPointer ≤ s.sourgePointer)
      (start : s.basla = s.pointPointer + 1) : Reads buf s .copy
  | name (inside : s.i = true) (behind : s.pointPointer < s.sourgePointer)
      (start : s.basla = s.pointPointer + 1) :
      Reads buf s (.name ((buf.drop s.basla).take (s.sourgePointer - s.basla)))

/-- What is written in the end, when the scanner stands at `s`. -/
def written (c : Config) (buf : List UInt8) (s : Scan) (m : Mode UInt8) :
    Option (List UInt8 × Int) :=
  (expand c m (buf.drop s.sourgePointer)).map fun (out, d) => (s.tmp ++ out, s.ret + d)

/-- A step after which the same is written in the end. -/
structure GoesOn (c : Config) (buf : List UInt8) (s : Scan) (m : Mode UInt8) (s' : Scan)
    (m' : Mode UInt8) : Prop where
  step : findReplaceStep c buf s = some s'
  reads : Reads buf s' m'
  forward : s.sourgePointer < s'.sourgePointer
  same : written c buf s' m' = written c buf s m

section Steps

variable {c : Config} {buf : List UInt8} {s : Scan} {b : UInt8}

theorem drop_eq_cons {k : Nat} (hb : buf[k]? = some b) : buf.drop k = b :: buf.drop (k + 1) := by
  obtain ⟨hlt, rfl⟩ := List.getElem?_eq_some_iff.mp hb
  exact List.drop_eq_getElem_cons hlt

theorem written_of_end {m : Mode UInt8} (hb : buf[s.sourgePointer]? = none) :
    written c buf s m = none := by
  rw [written, List.drop_eq_nil_of_le (List.getElem?_eq_none_iff.mp hb), expand_nil]
  rfl

theorem step_open (hi : s.i = false) (hbehind : s.pointPointer ≤ s.sourgePointer)
    (hstart : s.basla = s.pointPointer + 1) (hb : buf[s.sourgePointer]? = some 0x26) :
    ∃ s', GoesOn c buf s .copy s' (.name []) := by
  have hbasla : s.basla + (s.sourgePointer - s.pointPointer) = s.sourgePointer + 1 := by omega
  let s' : Scan :=
    ⟨s.sourgePointer + 1, s.sourgePointer, s.sourgePointer + 1, s.ret, true, s.tmp⟩
  refine ⟨s', ?_, ?_, Nat.lt_succ_self _, ?_⟩
  · simp [s', findReplaceStep, hi, hb, hbasla]
  · have hreads : Reads buf s' (.name ((buf.drop s'.basla).take (s'.sourgePointer - s'.basla))) :=
      .name rfl (Nat.lt_succ_self _) rfl
    simpa [s'] using hreads
  · rw [written, written, drop_eq_cons hb]
    rfl

theorem step_copy (hi : s.i = false) (hbehind : s.pointPointer ≤ s.sourgePointer)
    (hstart : s.basla = s.pointPointer + 1) (hb : buf[s.sourgePointer]? = some b)
    (hzero : b ≠ 0) (hmark : b ≠ 0x26) : ∃ s', GoesOn c buf s .copy s' .copy := by
  let s' : Scan := { s with tmp := s.tmp ++ [b], sourgePointer := s.sourgePointer + 1 }
  refine ⟨s', ?_, .copy hi (Nat.le_succ_of_le hbehind) hstart, Nat.lt_succ_self _, ?_⟩
  · simp [s', findReplaceStep, hi, hb, hmark]
  · rw [written, written, drop_eq_cons hb, expand_lit c hzero hmark, Option.map_map]
    congr 1
    funext r
    simp [s']

theorem step_name (hi : s.i = true) (hbehind : s.pointPointer < s.sourgePointer)
    (hstart : s.basla = s.pointPointer + 1) (hb : buf[s.sourgePointer]? = some b)
    (hzero : b ≠ 0) (hmark : b ≠ 0x26) :
    ∃ s' name, GoesOn c buf s (.name ((buf.drop s.basla).take (s.sourgePointer - s.basla))) s'
      (.name name) := by
  let s' : Scan := { s with sourgePointer := s.sourgePointer + 1 }
  have hsub : s.sourgePointer + 1 - s.basla = s.sourgePointer - s.basla + 1 := by omega
  have hat : s.basla + (s.sourgePointer - s.basla) = s.sourgePointer := by omega
  have htake : (buf.drop s.basla).take (s.sourgePointer + 1 - s.basla) =
      (buf.drop s.basla).take (s.sourgePointer - s.basla) ++ [b] := by
    rw [hsub, List.take_add_one, List.getElem?_drop, hat, hb]
    rfl
  refine ⟨s', _, ?_, .name hi (Nat.lt_succ_of_lt hbehind) hstart, Nat.lt_succ_self _, ?_⟩
  · simp [s', findReplaceStep, hi, hb, hmark]
  · rw [written, written, drop_eq_cons hb, htake]
    simp only [s', expand, parse, if_neg hzero, if_neg hmark]

theorem step_close (hi : s.i = true) (hbehind : s.pointPointer < s.sourgePointer)
    (hstart : s.basla = s.pointPointer + 1) (hb : buf[s.sourgePointer]? = some 0x26) :
    findReplaceStep c buf s =
      (replace c ((buf.drop s.basla).take (s.sourgePointer - s.basla))).bind fun (ss, pp) =>
        buf[s.sourgePointer + 1]?.map fun x =>
          ⟨s.sourgePointer + 2, s.sourgePointer + 1, s.sourgePointer + 2, s.ret + pp, false,
            s.tmp ++ ss ++ [x]⟩ := by
  have hlen : s.basla + (s.sourgePointer - s.pointPointer) - s.basla - 1 =
      s.sourgePointer - s.basla := by omega
  have hbasla : s.basla + (s.sourgePointer - s.pointPointer) + 1 = s.sourgePointer + 2 := by omega
  unfold findReplaceStep
  rw [if_pos hb]
  simp only [hi, hlen, hbasla]
  cases replace c ((buf.drop s.basla).take (s.sourgePointer - s.basla)) with
  | none => rfl
  | some r => cases hx : buf[s.sourgePointer + 1]? <;> simp [hx]

/-- At the end of a name the parameter and the character behind it are written, or the scanner
leaves its buffers. -/
theorem step_hole (hi : s.i = true) (hbehind : s.pointPointer < s.sourgePointer)
    (hstart : s.basla = s.pointPointer + 1) (hb : buf[s.sourgePointer]? = some 0x26)
    {name : List UInt8} (hname : name = (buf.drop s.basla).take (s.sourgePointer - s.basla)) :
    findReplaceStep c buf s = none ∧ written c buf s (.name name) = none ∨
      ∃ s', GoesOn c buf s (.name name) s' .copy := by
  have hstep := step_close (c := c) hi hbehind hstart hb
  have hwritten : written c buf s (.name name) =
      (expand c (.next name) (buf.drop (s.sourgePointer + 1))).map fun (out, d) =>
        (s.tmp ++ out, s.ret + d) := by
    rw [written, drop_eq_cons hb]
    rfl
  rw [← hname] at hstep
  by_cases hfits : Fits c name
  · rw [replace_of_fits hfits, Option.bind_some] at hstep
    cases hx : buf[s.sourgePointer + 1]? with
    | none =>
      rw [hx] at hstep
      refine .inl ⟨hstep, ?_⟩
      rw [hwritten, List.drop_eq_nil_of_le (List.getElem?_eq_none_iff.mp hx), expand_nil]
      rfl
    | some x =>
      rw [hx] at hstep
      refine .inr ⟨_, hstep, .copy rfl (Nat.le_succ _) rfl, by simp, ?_⟩
      rw [hwritten, drop_eq_cons hx, expand_hole hfits, Option.map_map, written]
      congr 1
      funext r
      simp [Int.add_assoc]
  · rw [replace_of_not_fits hfits] at hstep
    refine .inl ⟨hstep, ?_⟩
    rw [hwritten, expand_of_not_fits hfits]
    rfl

/-- One iteration of the loop, at a byte that is not the NUL. -/
theorem step_written {m : Mode UInt8} (hs : Reads buf s m) (hb : buf[s.sourgePointer]? = some b)
    (hzero : b ≠ 0) :
    findReplaceStep c buf s = none ∧ written c buf s m = none ∨
      ∃ s' m', GoesOn c buf s m s' m' := by
  by_cases hmark : b = 0x26
  · rw [hmark] at hb
    cases hs with
    | copy hi hbehind hstart =>
      obtain ⟨s', h⟩ := step_open (c := c) hi hbehind hstart hb
      exact .inr ⟨s', _, h⟩
    | name hi hbehind hstart =>
      rcases step_hole (c := c) hi hbehind hstart hb rfl with h | ⟨s', h⟩
      · exact .inl h
      · exact .inr ⟨s', _, h⟩
  · cases hs with
    | copy hi hbehind hstart =>
      obtain ⟨s', h⟩ := step_copy (c := c) hi hbehind hstart hb hzero hmark
      exact .inr ⟨s', _, h⟩
    | name hi hbehind hstart =>
      obtain ⟨s', name, h⟩ := step_name (c := c) hi hbehind hstart hb hzero hmark
      exact .inr ⟨s', _, h⟩

end Steps

/-- The loop writes what is left to write, behind what it has written. -/
theorem findReplaceLoop_eq (c : Config) (buf : List UInt8) {fuel : Nat} {s : Scan}
    {m : Mode UInt8} (hs : Reads buf s m) (hfuel : buf.length - s.sourgePointer < fuel) :
    (findReplaceLoop c buf fuel s).map (fun s => (s.tmp, s.ret)) = written c buf s m := by
  induction fuel generalizing s m with
  | zero => omega
  | succ fuel ih =>
    unfold findReplaceLoop
    cases hb : buf[s.sourgePointer]? with
    | none => exact (written_of_end hb).symm
    | some b =>
      dsimp only
      by_cases hzero : b = 0
      · rw [if_pos hzero, written, drop_eq_cons hb, hzero]
        cases hs <;> simp [expand, parse, filled, Parsed.holes, Parsed.render, Parsed.growth]
      · rw [if_neg hzero]
        rcases step_written (c := c) hs hb hzero with ⟨hstep, hnone⟩ | ⟨s', m', h⟩
        · rw [hstep, hnone]
          rfl
        · obtain ⟨hlt, -⟩ := List.getElem?_eq_some_iff.mp hb
          have hforward := h.forward
          rw [h.step, Option.bind_some, ih h.reads (by omega), h.same]

/-- `find_replace` fills in the parameters of the text at the start of the buffer. -/
theorem findReplace_eq (c : Config) (buf : List UInt8) :
    findReplace c buf = (expand c .copy buf).bind fun (out, d) =>
      if out.length < scratchBufsize then some (out, d) else none := by
  have hloop := findReplaceLoop_eq c buf (s := ⟨0, 0, 1, 0, false, []⟩)
    (.copy rfl (Nat.le_refl _) rfl) (Nat.lt_succ_self buf.length)
  rw [written, List.drop_zero] at hloop
  unfold findReplace
  cases hl : findReplaceLoop c buf (buf.length + 1) ⟨0, 0, 1, 0, false, []⟩ with
  | none =>
    rw [hl] at hloop
    rw [Option.map_eq_none_iff.mp hloop.symm]
    rfl
  | some s =>
    rw [hl] at hloop
    obtain ⟨⟨out, d⟩, hout, heq⟩ := Option.map_eq_some_iff.mp hloop.symm
    obtain ⟨htmp, hret⟩ := Prod.mk.inj heq
    rw [List.nil_append] at htmp
    rw [Int.zero_add] at hret
    rw [hout, htmp, hret]
    rfl

theorem findReplace_eq_some {c : Config} {buf out : List UInt8} {d : Int} :
    findReplace c buf = some (out, d) ↔ ∃ T rest, parse 0x26 0 .copy buf = some (T, rest) ∧
      (∀ name ∈ T.holes, Fits c name) ∧ (T.render (shown c)).length < scratchBufsize ∧
      out = T.render (shown c) ∧ d = T.growth (shown c) := by
  rw [findReplace_eq, expand]
  constructor
  · intro h
    obtain ⟨⟨out', d'⟩, hexpand, hroom⟩ := Option.bind_eq_some_iff.mp h
    obtain ⟨⟨T, rest⟩, hparse, hfilled⟩ := Option.bind_eq_some_iff.mp hexpand
    obtain ⟨hfits, heq⟩ := Option.ite_none_right_eq_some.mp hfilled
    obtain ⟨hlt, heq'⟩ := Option.ite_none_right_eq_some.mp hroom
    obtain ⟨rfl, rfl⟩ := Prod.mk.inj (Option.some.inj heq)
    obtain ⟨rfl, rfl⟩ := Prod.mk.inj (Option.some.inj heq')
    exact ⟨T, rest, hparse, hfits, hlt, rfl, rfl⟩
  · rintro ⟨T, rest, hparse, hfits, hlt, rfl, rfl⟩
    have hfilled : filled c T = some (T.render (shown c), T.growth (shown c)) := if_pos hfits
    rw [hparse, Option.bind_some]
    simp only [hfilled, Option.bind_some, if_pos hlt]

end DaliController.Http
