import DaliController.Lib.Rounds
import DaliController.Search.Frames

/-! The search ends on any bus.  Its loops are taken as they stand, in bytes that wrap, with a
number of rounds that each of them may go through.  Whatever the bus answers, few rounds are enough,
and then they compute what the total functions do. -/

namespace DaliController.Search

open Frame Rounds

/-! ### The code -/

section Program

variable {σ : Type} (ops : BusOps σ)

/-- `++retry`. -/
def nextRetry : StateM (World σ) Nat :=
  modifyGet fun w => (w.retry + 1, { w with retry := w.retry + 1 })

/-- `send_compare` with so many calls of itself, and the number of its `COMPARE` exchanges. -/
def sendCompareLoop (r : Hml) (snd : SndNible) : Nat → Bounded (World σ) (Backword × Nat)
  | 0 => outOfRounds
  | rounds + 1 => do
    total (loadSearch ops r snd)
    let rr ← total (sendReceive ops (specialCommand 0x04 0x00))
    let rr := if rr = .timeout then .no else rr
    if rr = .yes ∨ rr = .no then
      total (setRetry 0)
      return (rr, 1)
    else if rr = .timeout ∧ snd = .sndA then
      total (setRetry 0)
      return (rr, 1)
    else
      let retry ← total nextRetry
      if 5 < retry then
        total (setRetry 0)
        return (.timeout, 1)
      else
        let (rr, exchanges) ← sendCompareLoop r snd rounds
        return (rr, exchanges + 1)

end Program

section Nibble

variable {σ : Type} (compare : UInt8 → Bounded (World σ) Backword) (H : Bool) (ust alt : UInt8)

/-- `while (ek>=ek1)`. -/
def qUpAraLoop (ek1 : UInt8) : Nat → UInt8 → Bounded (World σ) (Option UInt8)
  | 0, _ => outOfRounds
  | rounds + 1, ek =>
    if ek1 ≤ ek then do
      let rr ← compare (sayiOf H ust alt ek)
      if rr = .no then return some (sayiOf H ust alt ek)
      else qUpAraLoop ek1 rounds (ek - 1)
    else return none

/-- `while(count<4)` of `q_upH0`, with so many rounds for the inner loop. -/
def qUpLoop (inner : Nat) : Nat → UInt8 → UInt8 → Bounded (World σ) UInt8
  | 0, _, _ => outOfRounds
  | rounds + 1, count, ek => do
    let ek := ek ||| 1 <<< count
    let rr ← compare (sayiOf H ust alt ek)
    if rr = .yes then
      let ek1 := ek - 1 <<< (count + 1)
      let sayi ← qUpAraLoop compare H ust alt ek1 inner ek
      return sayi.getD (if H then 0xF ||| alt else ust <<< 4 ||| 0x0F)
    else if count - 1 < 4 then qUpLoop inner rounds (count - 1) ek
    else return if H then 0xF0 ||| alt else ust <<< 4 ||| 0x0F

/-- `while (ek<=ek1)`. -/
def qDownAraLoop (ek1 : UInt8) : Nat → UInt8 → UInt8 → UInt8 → Bounded (World σ) (Option UInt8)
  | 0, _, _, _ => outOfRounds
  | rounds + 1, ek, ss, oldSayi =>
    if ek ≤ ek1 then do
      let rr ← compare (sayiOf H ust alt ek)
      if rr = .yes then return some (if ss = 0 then sayiOf H ust alt ek else oldSayi)
      else qDownAraLoop ek1 rounds (ek + 1) (ss + 1) (sayiOf H ust alt ek)
    else return none

/-- `while(count<4)` of `q_downH0`. -/
def qDownLoop (inner : Nat) : Nat → UInt8 → Bounded (World σ) UInt8
  | 0, _ => outOfRounds
  | rounds + 1, count => do
    let ek := 1 <<< count
    let rr ← compare (sayiOf H ust alt ek)
    if rr = .no then
      let ek1 := 1 <<< (count + 1)
      let sayi ← qDownAraLoop compare H ust alt ek1 inner ek 0 (sayiOf H ust alt ek)
      return sayi.getD (if H then 0x00 ||| alt else ust <<< 4 ||| 0x00)
    else if count - 1 < 4 then qDownLoop inner rounds (count - 1)
    else return if H then 0x00 ||| alt else ust <<< 4 ||| 0x00

end Nibble

section Program

variable {σ : Type} (ops : BusOps σ) (rounds : Nat)

/-- The comparison of the nibble searches. -/
def compareNibleLoop (r : Hml) (snd : SndNible) (sayi : UInt8) : Bounded (World σ) Backword :=
  if snd = .sndA then pure .busy
  else do
    let (rr, _) ← sendCompareLoop ops (r.set sayi snd) snd rounds
    return rr

/-- `q_upH0`, with so many rounds for each loop. -/
def qUpH0Loop (r : Hml) (H : Bool) (snd : SndNible) : Bounded (World σ) UInt8 :=
  qUpLoop (compareNibleLoop ops rounds r snd) H (r.get snd >>> 4) (r.get snd &&& 0x0F) rounds rounds
    3 0

def qDownH0Loop (r : Hml) (H : Bool) (snd : SndNible) : Bounded (World σ) UInt8 :=
  qDownLoop (compareNibleLoop ops rounds r snd) H (r.get snd >>> 4) (r.get snd &&& 0x0F) rounds
    rounds 3

def qH0Loop (r : Hml) (H : Bool) (snd : SndNible) : Bounded (World σ) UInt8 := do
  let (rr, _) ← sendCompareLoop ops r .sndA rounds
  if rr = .no then qUpH0Loop ops rounds r H snd else qDownH0Loop ops rounds r H snd

def findBlockLoop (r : Hml) (snd : SndNible) : Bounded (World σ) Hml := do
  let r := r.set 0x80 snd
  let sayi ← qH0Loop ops rounds r true snd
  let r := r.set (sayi ||| 0x08) snd
  let sayi ← qH0Loop ops rounds r false snd
  return r.set sayi snd

def findMinNumberLoop (r : Hml) : Bounded (World σ) Hml := do
  let r ← findBlockLoop ops rounds r .sndH
  let r ← findBlockLoop ops rounds r .sndM
  findBlockLoop ops rounds r .sndL

end Program

/-- A bus that gives one answer after another, whatever is sent.  The number of answers used so far
is its state. -/
def streamOps (answers : Nat → Option UInt8) (cast : UInt8 → Backword) : BusOps Nat where
  send _ n := n
  exchange _ n := (answers n, n + 1)
  cast := cast

/-! ### One comparison -/

section Compare

variable {σ : Type} {ops : BusOps σ}

/-- A round of `send_compare` up to the answer. -/
def compareAnswer (ops : BusOps σ) (r : Hml) (snd : SndNible) : StateM (World σ) Backword := do
  loadSearch ops r snd
  let rr ← sendReceive ops (specialCommand 0x04 0x00)
  return if rr = .timeout then .no else rr

/-- The world with the same `retry`. -/
def SameRetry (w w' : World σ) : Prop := w'.retry = w.retry

instance : IsPreorder (World σ) SameRetry where
  refl _ := rfl
  trans _ _ _ h h' := Eq.trans h' h

/-- The world with the same bus. -/
def SameBus (w w' : World σ) : Prop := w'.bus = w.bus

instance : IsPreorder (World σ) SameBus where
  refl _ := rfl
  trans _ _ _ h h' := Eq.trans h' h

theorem keeps_loadSearch_of_send {R : World σ → World σ → Prop} [IsPreorder (World σ) R]
    (hsend : ∀ f, Keeps R (send ops f)) (r : Hml) (snd : SndNible) :
    Keeps R (loadSearch ops r snd) := by
  have hwhen : ∀ (p : Prop) [Decidable p] (f : Forward), Keeps R (sendWhen ops p f) :=
    fun p _ f => keeps_ite (hsend f) (keeps_pure _)
  exact keeps_bind (hwhen _ _) fun _ => keeps_bind (hwhen _ _) fun _ => hwhen _ _

/-- The answer leaves `retry`. -/
theorem compareAnswer_retry (ops : BusOps σ) (r : Hml) (snd : SndNible) :
    Keeps SameRetry (compareAnswer ops r snd) := by
  have hload : Keeps SameRetry (loadSearch ops r snd) :=
    keeps_loadSearch_of_send (fun f => keeps_modify fun _ => rfl) r snd
  have hexchange : ∀ f, Keeps SameRetry (exchange ops f) := fun f => keeps_modifyGet fun _ => rfl
  exact keeps_bind hload fun _ => keeps_bind (keeps_sendReceive (hexchange _)) fun _ => keeps_pure _

theorem compareAnswer_ne_timeout (ops : BusOps σ) (r : Hml) (snd : SndNible) (w : World σ) :
    (Id.run ((compareAnswer ops r snd).run w)).1 ≠ .timeout := by
  simp only [compareAnswer, StateT.run_bind, StateT.run_pure]
  change (if _ = Backword.timeout then Backword.no else _) ≠ .timeout
  split
  · decide
  · assumption

/-- What a round of `send_compare` does. -/
theorem sendCompareLoop_succ (r : Hml) (snd : SndNible) (rounds : Nat) (w : World σ) :
    (sendCompareLoop ops r snd (rounds + 1)).run w =
      let a := Id.run ((compareAnswer ops r snd).run w)
      if a.1 = .yes ∨ a.1 = .no then some ((a.1, 1), { a.2 with retry := 0 })
      else if 5 < a.2.retry + 1 then some ((.timeout, 1), { a.2 with retry := 0 })
      else ((sendCompareLoop ops r snd rounds).run { a.2 with retry := a.2.retry + 1 }).map
        fun x => ((x.1.1, x.1.2 + 1), x.2) := by
  have hloop : sendCompareLoop ops r snd (rounds + 1) =
      total (compareAnswer ops r snd) >>= fun rr =>
      if rr = .yes ∨ rr = .no then total (setRetry 0) >>= fun _ => pure (rr, 1)
      else if rr = .timeout ∧ snd = .sndA then total (setRetry 0) >>= fun _ => pure (rr, 1)
      else total nextRetry >>= fun retry =>
        if 5 < retry then total (setRetry 0) >>= fun _ => pure (.timeout, 1)
        else sendCompareLoop ops r snd rounds >>= fun x => pure (x.1, x.2 + 1) := rfl
  rw [hloop, StateT.run_bind, total_run]
  have hne := compareAnswer_ne_timeout ops r snd w
  generalize Id.run ((compareAnswer ops r snd).run w) = a at hne ⊢
  change (if _ then _ else if a.1 = _ ∧ _ then _ else _ : Bounded (World σ) _).run a.2 = _
  by_cases hanswer : a.1 = .yes ∨ a.1 = .no
  · rw [if_pos hanswer, if_pos hanswer]
    rfl
  · rw [if_neg hanswer, if_neg hanswer, if_neg fun h => hne h.1, StateT.run_bind, total_run]
    change (if 5 < a.2.retry + 1 then _ else _ : Bounded (World σ) _).run
      { a.2 with retry := a.2.retry + 1 } = _
    by_cases hlast : 5 < a.2.retry + 1
    · rw [if_pos hlast, if_pos hlast]
      rfl
    · rw [if_neg hlast, if_neg hlast, StateT.run_bind, Option.map_eq_bind]
      rfl

theorem compareOnce_run (r : Hml) (snd : SndNible) (again : StateM (World σ) Backword)
    (w : World σ) :
    (compareOnce ops r snd again).run w =
      let a := Id.run ((compareAnswer ops r snd).run w)
      if a.1 = .yes ∨ a.1 = .no then pure (a.1, { a.2 with retry := 0 }) else again.run a.2 := by
  have honce : compareOnce ops r snd again = compareAnswer ops r snd >>= fun rr =>
      if rr = .yes ∨ rr = .no then setRetry 0 >>= fun _ => pure rr else again := rfl
  have hrest : ∀ a : Backword × World σ,
      (if a.1 = .yes ∨ a.1 = .no then setRetry 0 >>= fun _ => pure a.1 else again).run a.2 =
        if a.1 = .yes ∨ a.1 = .no then pure (a.1, { a.2 with retry := 0 }) else again.run a.2 := by
    intro a
    by_cases hanswer : a.1 = .yes ∨ a.1 = .no
    · rw [if_pos hanswer, if_pos hanswer]
      rfl
    · rw [if_neg hanswer, if_neg hanswer]
  rw [honce, StateT.run_bind]
  exact hrest (Id.run ((compareAnswer ops r snd).run w))

/-- `send_compare` returns from so many calls of itself, with `retry` back at 0, and any larger
number of rounds is enough for it. -/
def Returns (ops : BusOps σ) (r : Hml) (snd : SndNible) (left : Nat) (w : World σ) : Prop :=
  ∃ rr exchanges w', exchanges ≤ left + 1 ∧ w'.retry = 0 ∧
    (sendCompareFrom ops r snd left).run w = pure (rr, w') ∧
    ∀ rounds ≥ left, (sendCompareLoop ops r snd (rounds + 1)).run w = some ((rr, exchanges), w')

theorem returns_of_answer (r : Hml) (snd : SndNible) (left : Nat) {w : World σ}
    (hanswer : (Id.run ((compareAnswer ops r snd).run w)).1 = .yes ∨
      (Id.run ((compareAnswer ops r snd).run w)).1 = .no) : Returns ops r snd left w := by
  refine ⟨(Id.run ((compareAnswer ops r snd).run w)).1, 1,
    { (Id.run ((compareAnswer ops r snd).run w)).2 with retry := 0 }, by omega, rfl, ?_,
    fun rounds _ => ?_⟩
  · cases left with
    | zero =>
      rw [sendCompareFrom, compareOnce_run]
      exact if_pos hanswer
    | succ left =>
      rw [sendCompareFrom, compareOnce_run]
      exact if_pos hanswer
  · rw [sendCompareLoop_succ]
    exact if_pos hanswer

/-- Each call of itself raises `retry`, and the call that passes 5 is the last. -/
theorem sendCompare_returns (r : Hml) (snd : SndNible) {left : Nat} {w : World σ}
    (hleft : left = 5 - w.retry) : Returns ops r snd left w := by
  induction left generalizing w with
  | zero =>
    by_cases hanswer : (Id.run ((compareAnswer ops r snd).run w)).1 = .yes ∨
        (Id.run ((compareAnswer ops r snd).run w)).1 = .no
    · exact returns_of_answer r snd 0 hanswer
    have hretry : _ = w.retry := compareAnswer_retry ops r snd w
    refine ⟨.timeout, 1, { (Id.run ((compareAnswer ops r snd).run w)).2 with retry := 0 },
      by omega, rfl, ?_, fun rounds _ => ?_⟩
    · rw [sendCompareFrom, compareOnce_run]
      exact if_neg hanswer
    · rw [sendCompareLoop_succ]
      exact (if_neg hanswer).trans (if_pos (by omega))
  | succ left ih =>
    by_cases hanswer : (Id.run ((compareAnswer ops r snd).run w)).1 = .yes ∨
        (Id.run ((compareAnswer ops r snd).run w)).1 = .no
    · exact returns_of_answer r snd (left + 1) hanswer
    have hretry : _ = w.retry := compareAnswer_retry ops r snd w
    obtain ⟨rr, exchanges, w', hcount, hzero, hfrom, hloop⟩ := ih
      (w := { (Id.run ((compareAnswer ops r snd).run w)).2 with retry := w.retry + 1 })
      (show left = 5 - (w.retry + 1) by omega)
    refine ⟨rr, exchanges + 1, w', by omega, hzero, ?_, fun rounds h => ?_⟩
    · rw [sendCompareFrom, compareOnce_run]
      refine (if_neg hanswer).trans ?_
      rw [← hfrom, ← hretry]
      rfl
    · obtain ⟨rounds, rfl⟩ := Nat.exists_eq_add_one_of_ne_zero (Nat.ne_zero_of_lt h)
      rw [sendCompareLoop_succ]
      refine (if_neg hanswer).trans ?_
      rw [if_neg (by omega), hretry, hloop rounds (by omega)]
      rfl

/-- Six rounds are enough for `send_compare`. -/
theorem sendCompareLoop_eq (r : Hml) (snd : SndNible) {rounds : Nat} (hrounds : 6 ≤ rounds) :
    (sendCompareLoop ops r snd rounds >>= fun x => pure x.1) = total (sendCompare ops r snd) := by
  apply StateT.ext
  intro w
  obtain ⟨rounds, rfl⟩ := Nat.exists_eq_add_one_of_ne_zero (Nat.ne_zero_of_lt hrounds)
  obtain ⟨rr, exchanges, w', -, -, hfrom, hloop⟩ := sendCompare_returns (w := w) r snd rfl
  rw [run_bind_of_eq (hloop rounds (by omega))]
  have hrun : (sendCompare ops r snd).run w = pure (rr, w') := hfrom
  rw [total_run, hrun]
  rfl

theorem compareNibleLoop_eq (r : Hml) (snd : SndNible) {rounds : Nat} (hrounds : 6 ≤ rounds) :
    compareNibleLoop ops rounds r snd = fun sayi => total (compareNible ops r snd sayi) := by
  funext sayi
  by_cases h : snd = .sndA
  · rw [compareNibleLoop, compareNible, if_pos h, if_pos h]
    rfl
  · rw [compareNibleLoop, compareNible, if_neg h, if_neg h]
    exact sendCompareLoop_eq _ _ hrounds

end Compare

/-! ### The nibble searches -/

section Nibble

variable {σ : Type} {compare : UInt8 → StateM (World σ) Backword} {H : Bool} {ust alt : UInt8}

/-- `ek` goes down to `ek1`, and not below zero because `ek1` is not zero. -/
theorem qUpAraLoop_eq {ek1 : UInt8} (hek1 : ek1 ≠ 0) {rounds n : Nat} (hn : n < 256)
    (hrounds : n + 1 - ek1.toNat < rounds) :
    qUpAraLoop (fun sayi => total (compare sayi)) H ust alt ek1 rounds (UInt8.ofNat n) =
      total (qUpAra compare H ust alt ek1.toNat n) := by
  have hpos : ek1.toNat ≠ 0 := fun h => hek1 (UInt8.toNat_inj.mp h)
  induction n generalizing rounds with
  | zero =>
    obtain ⟨rounds, rfl⟩ := Nat.exists_eq_add_one_of_ne_zero (Nat.ne_zero_of_lt hrounds)
    rw [qUpAraLoop, qUpAra, qUpAraRound, if_neg (by rw [UInt8.le_ofNat_iff hn]; omega),
      if_neg (by omega)]
    rfl
  | succ n ih =>
    obtain ⟨rounds, rfl⟩ := Nat.exists_eq_add_one_of_ne_zero (Nat.ne_zero_of_lt hrounds)
    rw [qUpAraLoop, qUpAra, qUpAraRound]
    by_cases h : ek1.toNat ≤ n + 1
    · rw [if_pos ((UInt8.le_ofNat_iff hn).mpr h), if_pos h, total_bind]
      apply bind_congr
      intro rr
      have hpred : UInt8.ofNat (n + 1) - 1 = UInt8.ofNat n := by simp
      rw [total_ite, hpred, ih (by omega) (by omega)]
      rfl
    · rw [if_neg (mt (UInt8.le_ofNat_iff hn).mp h), if_neg h]
      rfl

/-- `count` goes down and the outer loop goes on, unless it was zero. -/
theorem count_again {α : Type} {count : Nat} (hcount : count < 4) (again : UInt8 → α) (last : α) :
    (if UInt8.ofNat (count + 1) - 1 < 4 then again (UInt8.ofNat (count + 1) - 1) else last) =
      again (UInt8.ofNat count) := by
  have hpred : UInt8.ofNat (count + 1) - 1 = UInt8.ofNat count := by simp
  have hlt : UInt8.ofNat count < 4 := by
    rw [UInt8.ofNat_lt_iff (show count < 256 by omega)]
    exact hcount
  rw [hpred, if_pos hlt]

/-- A round of the outer loop, when the inner one ends. -/
theorem qUpLoop_succ {inner rounds count : Nat} {ek : UInt8} {next : StateM (World σ) UInt8}
    (hek1 : ek - 1 <<< UInt8.ofNat (count + 1) ≠ 0)
    (hinner : ek.toNat + 1 - (ek - 1 <<< UInt8.ofNat (count + 1)).toNat < inner)
    (hnext : (if UInt8.ofNat count - 1 < 4 then
        qUpLoop (fun sayi => total (compare sayi)) H ust alt inner rounds (UInt8.ofNat count - 1) ek
      else return if H then 0xF0 ||| alt else ust <<< 4 ||| 0x0F) = total next)
    (old : UInt8) (hek : old ||| 1 <<< UInt8.ofNat count = ek) :
    qUpLoop (fun sayi => total (compare sayi)) H ust alt inner (rounds + 1) (UInt8.ofNat count)
      old = total (qUpRound compare H ust alt count ek next) := by
  have hsucc : UInt8.ofNat count + 1 = UInt8.ofNat (count + 1) := by simp
  simp only [qUpLoop, hek, hsucc, hnext]
  rw [qUpRound, total_bind]
  apply bind_congr
  intro rr
  rw [total_ite, total_bind, ← qUpAraLoop_eq hek1 ek.toNat_lt hinner, UInt8.ofNat_toNat]
  rfl

/-- The nibbles `ek` of `q_upH0` are 8, 12, 14 and 15. -/
theorem qUpLoop_eq {inner rounds count : Nat} {ek : UInt8} (hcount : count < 4)
    (hek : ek = UInt8.ofNat (16 - 2 ^ (count + 1))) (hinner : 10 < inner)
    (hrounds : count < rounds) :
    qUpLoop (fun sayi => total (compare sayi)) H ust alt inner rounds (UInt8.ofNat count) ek =
      total (qUp compare H ust alt count ek) := by
  have hbytes : ∀ count < 4,
      UInt8.ofNat (16 - 2 ^ (count + 1)) ||| 1 <<< UInt8.ofNat count =
        UInt8.ofNat (16 - 2 ^ count) ∧
      UInt8.ofNat (16 - 2 ^ count) - 1 <<< UInt8.ofNat (count + 1) ≠ 0 ∧
      (UInt8.ofNat (16 - 2 ^ count)).toNat + 1 -
        (UInt8.ofNat (16 - 2 ^ count) - 1 <<< UInt8.ofNat (count + 1)).toNat ≤ 10 := by
    decide
  induction count generalizing ek rounds with
  | zero =>
    obtain ⟨rounds, rfl⟩ := Nat.exists_eq_add_one_of_ne_zero (Nat.ne_zero_of_lt hrounds)
    obtain ⟨hnext, hne, hle⟩ := hbytes 0 hcount
    have hone : ek ||| 1 = UInt8.ofNat (16 - 2 ^ 0) := by
      rw [hek]
      exact hnext
    rw [qUp, hone]
    exact qUpLoop_succ hne (by omega) rfl ek hone
  | succ count ih =>
    obtain ⟨rounds, rfl⟩ := Nat.exists_eq_add_one_of_ne_zero (Nat.ne_zero_of_lt hrounds)
    obtain ⟨hnext, hne, hle⟩ := hbytes (count + 1) hcount
    rw [← hek] at hnext
    rw [qUp, hnext]
    refine qUpLoop_succ hne (by omega) ?_ ek hnext
    rw [count_again (by omega) fun count => qUpLoop _ H ust alt inner rounds count _]
    exact ih (by omega) rfl (by omega)

/-- `ek` goes up to `ek1`, which is far below 255, and `ss` does not come back to zero. -/
theorem qDownAraLoop_eq {ek1 ek ss old old' : UInt8} {rounds left : Nat} (hek1 : ek1.toNat < 255)
    (hek : ek.toNat ≤ ek1.toNat + 1) (hleft : left = ek1.toNat + 1 - ek.toNat)
    (hrounds : left < rounds) (hss : ss.toNat + left < 256)
    (hold : (if ss = 0 then sayiOf H ust alt ek else old) = old') :
    qDownAraLoop (fun sayi => total (compare sayi)) H ust alt ek1 rounds ek ss old =
      total (qDownAra compare H ust alt ek old' left) := by
  have hsucc : ∀ x : UInt8, x.toNat < 255 → (x + 1).toNat = x.toNat + 1 := by
    intro x hx
    rw [UInt8.toNat_add]
    exact Nat.mod_eq_of_lt (by change x.toNat + 1 < 256; omega)
  induction left generalizing rounds ek ss old old' with
  | zero =>
    obtain ⟨rounds, rfl⟩ := Nat.exists_eq_add_one_of_ne_zero (Nat.ne_zero_of_lt hrounds)
    rw [qDownAraLoop, qDownAra, if_neg (by rw [UInt8.le_iff_toNat_le]; omega)]
    rfl
  | succ left ih =>
    obtain ⟨rounds, rfl⟩ := Nat.exists_eq_add_one_of_ne_zero (Nat.ne_zero_of_lt hrounds)
    rw [qDownAraLoop, qDownAra, if_pos (UInt8.le_iff_toNat_le.mpr (by omega)), total_bind, hold]
    apply bind_congr
    intro rr
    have hek' := hsucc ek (by omega)
    have hss' := hsucc ss (by omega)
    have hne : ss + 1 ≠ 0 := by
      intro h
      rw [h] at hss'
      exact absurd hss' (by simp)
    rw [total_ite, ih (by omega) (by omega) (by omega) (by omega) (if_neg hne)]
    rfl

theorem qDownLoop_succ {inner rounds count : Nat} {next : StateM (World σ) UInt8}
    (hcount : count < 4) (hinner : 10 < inner)
    (hnext : (if UInt8.ofNat count - 1 < 4 then
        qDownLoop (fun sayi => total (compare sayi)) H ust alt inner rounds (UInt8.ofNat count - 1)
      else return if H then 0x00 ||| alt else ust <<< 4 ||| 0x00) = total next) :
    qDownLoop (fun sayi => total (compare sayi)) H ust alt inner (rounds + 1) (UInt8.ofNat count) =
      total (qDownRound compare H ust alt count next) := by
  have hbytes : ∀ count < 4, (1 <<< UInt8.ofNat (count + 1) : UInt8).toNat = 2 ^ (count + 1) ∧
      (1 <<< UInt8.ofNat count : UInt8).toNat ≤ 2 ^ (count + 1) + 1 ∧ 2 ^ (count + 1) ≤ 16 ∧
      2 ^ (count + 1) + 1 - (1 <<< UInt8.ofNat count : UInt8).toNat ≤ 10 := by
    decide
  obtain ⟨hek1, hek, hlarge, hleft⟩ := hbytes count hcount
  have hsucc : UInt8.ofNat count + 1 = UInt8.ofNat (count + 1) := by simp
  simp only [qDownLoop, hsucc, hnext]
  rw [qDownRound, total_bind]
  apply bind_congr
  intro rr
  have hss : (0 : UInt8).toNat + (2 ^ (count + 1) + 1 - (1 <<< UInt8.ofNat count : UInt8).toNat) <
      256 := by
    rw [UInt8.toNat_zero]
    omega
  rw [qDownAraLoop_eq (by omega) (by omega) (by rw [hek1]) (by omega) hss (if_pos rfl), total_ite]
  rfl

theorem qDownLoop_eq {inner rounds count : Nat} (hcount : count < 4) (hinner : 10 < inner)
    (hrounds : count < rounds) :
    qDownLoop (fun sayi => total (compare sayi)) H ust alt inner rounds (UInt8.ofNat count) =
      total (qDown compare H ust alt count) := by
  induction count generalizing rounds with
  | zero =>
    obtain ⟨rounds, rfl⟩ := Nat.exists_eq_add_one_of_ne_zero (Nat.ne_zero_of_lt hrounds)
    exact qDownLoop_succ hcount hinner rfl
  | succ count ih =>
    obtain ⟨rounds, rfl⟩ := Nat.exists_eq_add_one_of_ne_zero (Nat.ne_zero_of_lt hrounds)
    refine qDownLoop_succ hcount hinner ?_
    rw [count_again (by omega)]
    exact ih (by omega) (by omega)

end Nibble

/-! ### The search -/

section Search

variable {σ : Type} {ops : BusOps σ} {rounds : Nat} (hrounds : 10 < rounds)

include hrounds

theorem qUpH0Loop_eq (r : Hml) (H : Bool) (snd : SndNible) :
    qUpH0Loop ops rounds r H snd = total (qUpH0 ops r H snd) := by
  have hcounts : 3 < rounds := by omega
  rw [qUpH0Loop, compareNibleLoop_eq _ _ (by omega)]
  exact qUpLoop_eq (by decide) (by decide) hrounds hcounts

theorem qDownH0Loop_eq (r : Hml) (H : Bool) (snd : SndNible) :
    qDownH0Loop ops rounds r H snd = total (qDownH0 ops r H snd) := by
  have hcounts : 3 < rounds := by omega
  rw [qDownH0Loop, compareNibleLoop_eq _ _ (by omega)]
  exact qDownLoop_eq (by decide) hrounds hcounts

theorem qH0Loop_eq (r : Hml) (H : Bool) (snd : SndNible) :
    qH0Loop ops rounds r H snd = total (qH0 ops r H snd) := by
  have hloop : qH0Loop ops rounds r H snd =
      (sendCompareLoop ops r .sndA rounds >>= fun x => pure x.1) >>= fun rr =>
        if rr = .no then qUpH0Loop ops rounds r H snd else qDownH0Loop ops rounds r H snd := by
    rw [bind_assoc]
    rfl
  rw [hloop, sendCompareLoop_eq _ _ (by omega), qH0, total_bind]
  apply bind_congr
  intro rr
  rw [total_ite, qUpH0Loop_eq hrounds, qDownH0Loop_eq hrounds]

theorem findBlockLoop_eq (r : Hml) (snd : SndNible) :
    findBlockLoop ops rounds r snd = total (findBlock ops r snd) := by
  simp only [findBlockLoop, qH0Loop_eq hrounds]
  rfl

theorem findMinNumberLoop_eq (r : Hml) :
    findMinNumberLoop ops rounds r = total (findMinNumber ops r) := by
  simp only [findMinNumberLoop, findBlockLoop_eq hrounds]
  rfl

end Search

/-! ### The answers used -/

section Answers

variable (answers : Nat → Option UInt8) (cast : UInt8 → Backword)

/-- An exchange is tried at most three times. -/
theorem compareAnswer_used (r : Hml) (snd : SndNible) (w : World Nat) :
    (Id.run ((compareAnswer (streamOps answers cast) r snd).run w)).2.bus ≤ w.bus + 3 := by
  have hload : SameBus w (Id.run ((loadSearch (streamOps answers cast) r snd).run w)).2 :=
    keeps_loadSearch_of_send (fun f => keeps_modify fun _ => rfl) r snd w
  have hagain : ∀ (f : Forward) kk (w : World Nat),
      (Id.run ((exchangeAgain (streamOps answers cast) f kk).run w)).2.bus ≤ w.bus + 1 := by
    intro f kk w
    by_cases h : kk = none
    · rw [exchangeAgain, if_pos h]
      exact le_refl _
    · rw [exchangeAgain, if_neg h]
      exact Nat.le_succ _
  have hreceive : ∀ (f : Forward) (w : World Nat),
      (Id.run ((sendReceive (streamOps answers cast) f).run w)).2.bus ≤ w.bus + 3 := by
    intro f w
    refine (hagain f _ _).trans (Nat.succ_le_succ ?_)
    exact hagain f _ _
  refine (hreceive _ _).trans ?_
  exact Nat.add_le_add_right (le_of_eq hload) 3

theorem sendCompareLoop_used (r : Hml) (snd : SndNible) {rounds exchanges : Nat} {w w' : World Nat}
    {rr : Backword} (hrun : (sendCompareLoop (streamOps answers cast) r snd rounds).run w =
      some ((rr, exchanges), w')) : w'.bus ≤ w.bus + 3 * exchanges := by
  induction rounds generalizing w w' rr exchanges with
  | zero => cases hrun
  | succ rounds ih =>
    rw [sendCompareLoop_succ] at hrun
    have hused := compareAnswer_used answers cast r snd w
    generalize Id.run ((compareAnswer (streamOps answers cast) r snd).run w) = a at hrun hused
    by_cases hanswer : a.1 = .yes ∨ a.1 = .no
    · simp only [if_pos hanswer] at hrun
      cases hrun
      exact hused
    · simp only [if_neg hanswer] at hrun
      by_cases hlast : 5 < a.2.retry + 1
      · rw [if_pos hlast] at hrun
        cases hrun
        exact hused
      · rw [if_neg hlast] at hrun
        obtain ⟨⟨⟨rr', exchanges'⟩, w''⟩, hagain, heq⟩ := Option.map_eq_some_iff.mp hrun
        have hrest := ih hagain
        cases heq
        change w''.bus ≤ a.2.bus + 3 * exchanges' at hrest
        change w''.bus ≤ w.bus + 3 * (exchanges' + 1)
        omega

/-- Whatever the bus answers, a comparison is over after six exchanges, each of which uses at most
three answers, and the searches end. -/
theorem search_terminates :
    (∀ r snd w, ∃ rr exchanges w', exchanges ≤ 6 ∧ w'.bus ≤ w.bus + 3 * exchanges ∧ w'.retry = 0 ∧
      ∀ rounds ≥ 6, (sendCompareLoop (streamOps answers cast) r snd rounds).run w =
        some ((rr, exchanges), w')) ∧
    (∀ r H snd, Terminates fun rounds => qUpH0Loop (streamOps answers cast) rounds r H snd) ∧
    (∀ r H snd, Terminates fun rounds => qDownH0Loop (streamOps answers cast) rounds r H snd) ∧
    (∀ r snd, Terminates fun rounds => findBlockLoop (streamOps answers cast) rounds r snd) ∧
    ∀ r, Terminates fun rounds => findMinNumberLoop (streamOps answers cast) rounds r := by
  refine ⟨?_, ?_, ?_, ?_, ?_⟩
  · intro r snd w
    have hreturns : Returns (streamOps answers cast) r snd (5 - w.retry) w :=
      sendCompare_returns r snd rfl
    obtain ⟨rr, exchanges, w', hcount, hzero, -, hloop⟩ := hreturns
    refine ⟨rr, exchanges, w', by omega, ?_, hzero, ?_⟩
    · exact sendCompareLoop_used answers cast r snd (hloop _ (le_refl _))
    · intro rounds hrounds
      obtain ⟨rounds, rfl⟩ := Nat.exists_eq_add_one_of_ne_zero (Nat.ne_zero_of_lt hrounds)
      exact hloop rounds (by omega)
  · exact fun r H snd => terminates_of_total 11 fun _ h => qUpH0Loop_eq h r H snd
  · exact fun r H snd => terminates_of_total 11 fun _ h => qDownH0Loop_eq h r H snd
  · exact fun r snd => terminates_of_total 11 fun _ h => findBlockLoop_eq h r snd
  · exact fun r => terminates_of_total 11 fun _ h => findMinNumberLoop_eq h r

end Answers

end DaliController.Search
