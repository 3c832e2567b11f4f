import DaliController.Dali.Codec
import DaliController.Dali.Exchange
import DaliController.Lib.CString
import DaliController.Lib.Decimal

/-! Queries through the wireless gateway.  `send_and_receive_dali` returns one byte: the reply, or
0x71 when there was none.  A gear that replies 0x71 is taken for one that does not reply, and with
every other reply the gateway answers as the cable does. -/

namespace DaliController.Udp

open CString Decimal Dali

/-- The values of `backword_t.backword` that the queries return. -/
inductive BackKind
  | data
  | timeout
  deriving DecidableEq, Repr

/-- `backword_t`. -/
structure BackwordT where
  backword : BackKind
  data : UInt8
  deriving DecidableEq, Repr

/-! ### Through the gateway -/

/-- `send_and_receive`: a request is sent, and a datagram may come back in time. -/
structure UdpOps (σ : Type) where
  sendAndReceive : List UInt8 → σ → Option (List UInt8) × σ

/-- The text `OK`. -/
def okText : List UInt8 := [0x4F, 0x4B]

/-- What `send_and_receive_dali` makes of the text in `ret`. -/
def replyByte (ret : List UInt8) : UInt8 :=
  if ret = okText then 0x71 else UInt8.ofInt (atoi ret)

section Gateway

variable {σ : Type} (ops : UdpOps σ)

/-- The loop of `send_and_receive_dali`, with `n` attempts left after this one.  `recv[len] = 0`
ends the text in `ret` with the datagram. -/
def attempts (mm : List UInt8) : Nat → σ → UInt8 × σ
  | 0, s =>
    match ops.sendAndReceive mm s with
    | (some recv, s) => (replyByte (cstring recv), s)
    | (none, s) => (0x71, s)
  | n + 1, s =>
    match ops.sendAndReceive mm s with
    | (some recv, s) => (replyByte (cstring recv), s)
    | (none, s) => attempts mm n s

/-- `send_and_receive_dali`, with `pk->package`. -/
def sendAndReceiveDali (package : BitVec 32) (fast : Bool) : σ → UInt8 × σ :=
  attempts ops (decimalInt package.toInt) (if fast then 0 else 2)

/-- The branches of `DaliSendReceive`: on the cable, or through the gateway. -/
def daliSendReceive (top : TopByte) (ysendReceive : Package → σ → BackwordT × σ) (pk : Package)
    (type : UInt8) (s : σ) : BackwordT × σ :=
  if type < 0x0A then ysendReceive pk s
  else
    let (vv, s) := sendAndReceiveDali ops (pk.word top) false s
    if vv = 0x71 then (⟨.timeout, 0⟩, s) else (⟨.data, vv⟩, s)

end Gateway

/-- A gateway that answers attempt `k` with the decimal text of `outcomes k`, if there is a reply.
The state counts the attempts. -/
def gateway (outcomes : Nat → Option UInt8) : UdpOps Nat where
  sendAndReceive _ k := ((outcomes k).map fun b => decimal b.toNat, k + 1)

/-! ### On the cable -/

/-- The frame that a gear replies with. -/
def backFrame (b : UInt8) : Package := ⟨b, 0, 0, .block8, 0⟩

/-- One call of `_send_receive`, with the gear's reply. -/
def cableEvents : Option UInt8 → List Event
  | some b =>
    [.call, .sent, .complete (frameElement (backFrame b)), .store, .trigger, .take, .read]
  | none => [.call, .sent, .timeout]

def backwordOf : Answer → BackwordT
  | .timeout => ⟨.timeout, 0⟩
  | .data _ value _ => ⟨.data, value⟩

/-- On the cable, `ysend_receive` returns `r` when the gear gives this reply. -/
def CableReturns (top : TopByte) (reply : Option UInt8) (r : BackwordT) : Prop :=
  ∀ gelen, ((exchangeRun top (exchangeInit gelen) (cableEvents reply)).map fun s =>
    s.answers.map backwordOf) = some [r]

theorem cableReturns_data (top : TopByte) (b : UInt8) : CableReturns top (some b) ⟨.data, b⟩ := by
  intro gelen
  obtain ⟨htype, hbytes⟩ := paketStore_frame top (backFrame b) nofun
  have htype : (paketStore top (frameElement (backFrame b))).type = .block8 := htype
  have hdata : (paketStore top (frameElement (backFrame b))).data0 = b := by
    rw [Package.bytes, htype] at hbytes
    exact (List.cons.inj hbytes).1
  have htrigger := paketTrigger_eq_backSem.mpr htype
  simp [exchangeRun, cableEvents, exchangeStep, exchangeInit, paketQueueLength, htrigger, hdata,
    backwordOf]

theorem cableReturns_timeout (top : TopByte) : CableReturns top none ⟨.timeout, 0⟩ :=
  fun _ => rfl

/-! ### Agreement -/

theorem replyByte_decimal (b : UInt8) : replyByte (cstring (decimal b.toNat)) = b := by
  have hdigits : ∀ c ∈ decimal b.toNat, IsDigit c := fun c hc => isDigit_of_mem_decimal hc
  have hnul : 0 ∉ decimal b.toNat := fun h => absurd (hdigits 0 h) (by decide)
  have hok : decimal b.toNat ≠ okText := by
    intro h
    exact absurd (hdigits 0x4F (h ▸ List.mem_cons_self)) (by decide)
  have hbyte : ((b.toNat : Int) % 2 ^ 8).toNat = b.toNat := by
    have hlt := b.toNat_lt
    omega
  rw [cstring_eq_self hnul, replyByte, if_neg hok, atoi_decimal, UInt8.ofInt, hbyte,
    UInt8.ofNat_toNat]

variable (outcomes : Nat → Option UInt8)

theorem attempts_answered (mm : List UInt8) (n : Nat) {k : Nat} {b : UInt8}
    (h : outcomes k = some b) : attempts (gateway outcomes) mm n k = (b, k + 1) := by
  have hrecv : (gateway outcomes).sendAndReceive mm k = (some (decimal b.toNat), k + 1) := by
    simp [gateway, h]
  cases n <;> simp only [attempts, hrecv, replyByte_decimal]

theorem attempts_silent (mm : List UInt8) (n : Nat) {k : Nat} (h : outcomes k = none) :
    attempts (gateway outcomes) mm (n + 1) k = attempts (gateway outcomes) mm n (k + 1) := by
  have hrecv : (gateway outcomes).sendAndReceive mm k = (none, k + 1) := by
    simp [gateway, h]
  simp only [attempts, hrecv]

/-- The loop ends with the first attempt that is answered, or after the last one. -/
theorem attempts_gateway (mm : List UInt8) (n k : Nat) :
    (∃ j b, j ≤ n ∧ outcomes (k + j) = some b ∧ (∀ i < j, outcomes (k + i) = none) ∧
      attempts (gateway outcomes) mm n k = (b, k + j + 1)) ∨
    ((∀ i ≤ n, outcomes (k + i) = none) ∧
      attempts (gateway outcomes) mm n k = (0x71, k + n + 1)) := by
  induction n generalizing k with
  | zero =>
    cases h : outcomes k with
    | some b => exact Or.inl ⟨0, b, Nat.le_refl 0, h, nofun, attempts_answered outcomes mm 0 h⟩
    | none =>
      refine Or.inr ⟨fun i hi => ?_, ?_⟩
      · obtain rfl := Nat.le_zero.mp hi
        exact h
      · simp [attempts, gateway, h]
  | succ n ih =>
    cases h : outcomes k with
    | some b =>
      exact Or.inl ⟨0, b, Nat.zero_le _, h, nofun, attempts_answered outcomes mm (n + 1) h⟩
    | none =>
      have hstep := attempts_silent outcomes mm n h
      have hshift (i : Nat) : k + 1 + i = k + (i + 1) := by omega
      obtain ⟨j, b, hj, hb, hbefore, hrun⟩ | ⟨hall, hrun⟩ := ih (k + 1)
      · refine Or.inl ⟨j + 1, b, Nat.succ_le_succ hj, hshift j ▸ hb, ?_, ?_⟩
        · intro i hi
          cases i with
          | zero => exact h
          | succ i => exact hshift i ▸ hbefore i (Nat.lt_of_succ_lt_succ hi)
        · rw [hstep, hrun, hshift]
      · refine Or.inr ⟨?_, ?_⟩
        · intro i hi
          cases i with
          | zero => exact h
          | succ i => exact hshift i ▸ hall i (Nat.le_of_succ_le_succ hi)
        · rw [hstep, hrun, hshift]

/-- The result of a query that has made `r.2` attempts says whether one of them was answered, and
with what, as the cable does. -/
structure Agrees (top : TopByte) (r : BackwordT × Nat) : Prop where
  data : ∀ b, r.1 = ⟨.data, b⟩ ↔ ∃ k < r.2, outcomes k = some b
  timeout : r.1.backword = .timeout ↔ ∀ k < r.2, outcomes k = none
  cable_data : ∀ b, (∃ k < r.2, outcomes k = some b) → CableReturns top (some b) r.1
  cable_timeout : (∀ k < r.2, outcomes k = none) → CableReturns top none r.1

/-- The first answer, if one of the three attempts is answered, is not the byte 0x71. -/
def NotSentinel : Prop := ∀ j ≤ 2, (∀ i < j, outcomes i = none) → outcomes j ≠ some 0x71

variable {outcomes}

theorem agrees_data (top : TopByte) {j : Nat} {b : UInt8} (hb : outcomes j = some b)
    (hbefore : ∀ i < j, outcomes i = none) : Agrees outcomes top (⟨.data, b⟩, j + 1) := by
  have honly (c : UInt8) : (∃ k < j + 1, outcomes k = some c) ↔ b = c := by
    constructor
    · rintro ⟨k, hk, hc⟩
      rcases Nat.lt_succ_iff_lt_or_eq.mp hk with hk | rfl
      · rw [hbefore k hk] at hc
        cases hc
      · exact Option.some.inj (hb.symm.trans hc)
    · rintro rfl
      exact ⟨j, Nat.lt_succ_self j, hb⟩
  refine ⟨fun c => ?_, ?_, fun c hc => ?_, fun hnone => ?_⟩
  · rw [honly]
    exact ⟨fun h => (BackwordT.mk.inj h).2, fun h => h ▸ rfl⟩
  · apply iff_of_false nofun
    intro hnone
    rw [hnone j (Nat.lt_succ_self j)] at hb
    cases hb
  · obtain rfl := (honly c).mp hc
    exact cableReturns_data top b
  · rw [hnone j (Nat.lt_succ_self j)] at hb
    cases hb

theorem agrees_timeout (top : TopByte) {n : Nat} (hall : ∀ i < n, outcomes i = none) :
    Agrees outcomes top (⟨.timeout, 0⟩, n) := by
  have hnone (b : UInt8) : ¬∃ k < n, outcomes k = some b := by
    rintro ⟨k, hk, hb⟩
    rw [hall k hk] at hb
    cases hb
  refine ⟨fun b => ?_, ?_, fun b hb => ?_, fun _ => cableReturns_timeout top⟩
  · exact iff_of_false nofun (hnone b)
  · exact iff_of_true rfl hall
  · exact absurd hb (hnone b)

/-- The gateway agrees with the cable except on the reply 0x71. -/
theorem daliSendReceive_agrees_iff (top : TopByte)
    (ysendReceive : Package → Nat → BackwordT × Nat) (pk : Package) {type : UInt8}
    (htype : 0x0A ≤ type) :
    Agrees outcomes top (daliSendReceive (gateway outcomes) top ysendReceive pk type 0) ↔
      NotSentinel outcomes := by
  have hcable : ¬type < 0x0A := UInt8.not_lt.mpr htype
  rw [daliSendReceive, if_neg hcable, sendAndReceiveDali, if_neg Bool.false_ne_true]
  obtain ⟨j, b, hj, hb, hbefore, hrun⟩ | ⟨hall, hrun⟩ :=
    attempts_gateway outcomes (decimalInt (pk.word top).toInt) 2 0
  · simp only [Nat.zero_add] at hb hbefore hrun
    rw [hrun]
    by_cases hsentinel : b = 0x71
    · subst hsentinel
      refine iff_of_false (fun h => ?_) fun h => h j hj hbefore hb
      cases (h.data 0x71).mpr ⟨j, Nat.lt_succ_self j, hb⟩
    · refine iff_of_true ?_ fun i hi hi' => ?_
      · simp only [if_neg hsentinel]
        exact agrees_data top hb hbefore
      · intro hsome
        rcases Nat.lt_trichotomy i j with hlt | rfl | hlt
        · rw [hbefore i hlt] at hsome
          cases hsome
        · exact hsentinel (Option.some.inj (hb.symm.trans hsome))
        · rw [hi' j hlt] at hb
          cases hb
  · simp only [Nat.zero_add] at hall hrun
    rw [hrun]
    refine iff_of_true ?_ fun j hj _ hsome => ?_
    · simp only [if_true]
      exact agrees_timeout top fun i hi => hall i (Nat.le_of_lt_succ hi)
    · rw [hall j hj] at hsome
      cases hsome

/-- A gateway that answers the second attempt. -/
def secondAttempt (b : UInt8) (k : Nat) : Option UInt8 := if k = 1 then some b else none

/-- A query of the device type of short address 5. -/
def queryType : Package := ⟨0x0B, 0x99, 0, .block16, 0⟩

theorem daliSendReceive_agrees_second :
    Agrees (secondAttempt 6) nibbleTop (daliSendReceive (gateway (secondAttempt 6)) nibbleTop
      (fun _ s => (⟨.timeout, 0⟩, s)) queryType 0x10 0) := by
  have hreply : NotSentinel (secondAttempt 6) := by
    intro j _ _
    unfold secondAttempt
    split <;> simp
  exact (daliSendReceive_agrees_iff nibbleTop _ queryType (by decide)).mpr hreply

/-- A gear that replies 0x71 is reported as silent. -/
theorem sentinel_lost :
    (∃ k < 2, secondAttempt 0x71 k = some 0x71) ∧
    daliSendReceive (gateway (secondAttempt 0x71)) nibbleTop (fun _ s => (⟨.timeout, 0⟩, s))
      queryType 0x10 0 = (⟨.timeout, 0⟩, 2) ∧
    CableReturns nibbleTop (some 0x71) ⟨.data, 0x71⟩ :=
  ⟨⟨1, by decide, rfl⟩, by decide +kernel, cableReturns_data nibbleTop 0x71⟩

end DaliController.Udp
