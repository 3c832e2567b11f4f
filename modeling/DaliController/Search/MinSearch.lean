import DaliController.Search.Compare
import Mathlib.Tactic.IntervalCases

/-! On a bus without noise `find_min_number` finds the number just below the smallest random
address: a comparison is answered from some threshold on, and each nibble search ends on the last
value below it. -/

namespace DaliController.Search

open Dali

/-- The answer to a comparison without noise. -/
def answer (p : Prop) [Decidable p] : Backword := if p then .yes else .no

theorem answer_congr {p q : Prop} [Decidable p] [Decidable q] (h : p ↔ q) :
    answer p = answer q := by
  unfold answer
  by_cases hq : q
  · rw [if_pos hq, if_pos (h.mpr hq)]
  · rw [if_neg hq, if_neg (mt h.mp hq)]

@[simp] theorem answer_eq_yes (p : Prop) [Decidable p] : answer p = .yes ↔ p := by
  unfold answer
  by_cases h : p <;> simp [h]

@[simp] theorem answer_eq_no (p : Prop) [Decidable p] : answer p = .no ↔ ¬p := by
  unfold answer
  by_cases h : p <;> simp [h]

/-! ### One nibble -/

section Nibble

variable {σ : Type} {compare : UInt8 → StateM (World σ) Backword} {H : Bool} {ust alt : UInt8}

/-- A comparison is answered from the nibble `t` on, and leaves what it compared in the search
register. -/
def Probes (compare : UInt8 → StateM (World σ) Backword) (st : UInt8 → World σ) (H : Bool)
    (ust alt : UInt8) (t : Nat) : Prop :=
  ∀ x ek, ek ≤ 15 → (compare (sayiOf H ust alt (UInt8.ofNat ek))).run (st x) =
    pure (answer (t ≤ ek), st (sayiOf H ust alt (UInt8.ofNat ek)))

variable {st : UInt8 → World σ} {t : Nat}

theorem qUpAra_run (hp : Probes compare st H ust alt t) (ht : 1 ≤ t) {ek1 ek : Nat} (x : UInt8)
    (hlow : ek1 ≤ t - 1) (hek : t - 1 ≤ ek) (hek' : ek ≤ 15) :
    (qUpAra compare H ust alt ek1 ek).run (st x) =
      pure (some (sayiOf H ust alt (UInt8.ofNat (t - 1))),
        st (sayiOf H ust alt (UInt8.ofNat (t - 1)))) := by
  -- Above the threshold the comparison is answered, and `ek` goes down by one.
  induction ek generalizing x with
  | zero =>
    have h0 : t - 1 = 0 := by omega
    have hno : ¬t ≤ 0 := by omega
    rw [qUpAra, qUpAraRound, if_pos (by omega), StateT.run_bind, hp x 0 (by omega), pure_bind,
      if_pos ((answer_eq_no _).mpr hno), h0]
    rfl
  | succ ek ih =>
    rw [qUpAra, qUpAraRound, if_pos (by omega), StateT.run_bind, hp x (ek + 1) hek', pure_bind]
    by_cases h : t ≤ ek + 1
    · rw [if_neg (by rw [answer_eq_no]; omega)]
      exact ih _ (by omega) (by omega)
    · have hek1 : t - 1 = ek + 1 := by omega
      rw [if_pos ((answer_eq_no _).mpr h), hek1]
      rfl

theorem qUpRound_run (hp : Probes compare st H ust alt t) (ht : 1 ≤ t) (count : Nat) {ek : Nat}
    (next : StateM (World σ) UInt8) (x : UInt8) (hek : ek ≤ 15)
    (hek1 : t ≤ ek → (UInt8.ofNat ek - 1 <<< UInt8.ofNat (count + 1)).toNat ≤ t - 1) :
    (qUpRound compare H ust alt count (UInt8.ofNat ek) next).run (st x) =
      if t ≤ ek then pure (sayiOf H ust alt (UInt8.ofNat (t - 1)),
        st (sayiOf H ust alt (UInt8.ofNat (t - 1))))
      else next.run (st (sayiOf H ust alt (UInt8.ofNat ek))) := by
  have htoNat : (UInt8.ofNat ek).toNat = ek :=
    UInt8.toNat_ofNat_of_lt' (show ek < 256 by omega)
  rw [qUpRound, StateT.run_bind, hp x ek hek, pure_bind]
  by_cases h : t ≤ ek
  · rw [if_pos ((answer_eq_yes _).mpr h), if_pos h, StateT.run_bind,
      qUpAra_run hp ht _ (hek1 h) (by omega) (by omega), pure_bind]
    rfl
  · rw [if_neg (by rw [answer_eq_yes]; exact h), if_neg h]

theorem qUp_run (hp : Probes compare st H ust alt t) (ht : 9 ≤ t) (ht' : t ≤ 16) (x : UInt8) :
    (qUp compare H ust alt 3 0).run (st x) = pure (sayiOf H ust alt (UInt8.ofNat (t - 1)),
      st (sayiOf H ust alt (UInt8.ofNat (t - 1)))) := by
  have hend : (if H then 0xF0 ||| alt else ust <<< 4 ||| 0x0F) =
      sayiOf H ust alt (UInt8.ofNat 15) := by
    cases H
    · exact UInt8.or_comm _ _
    · rfl
  have hrounds : qUp compare H ust alt 3 0 =
      qUpRound compare H ust alt 3 (UInt8.ofNat 8)
        (qUpRound compare H ust alt 2 (UInt8.ofNat 12)
          (qUpRound compare H ust alt 1 (UInt8.ofNat 14)
            (qUpRound compare H ust alt 0 (UInt8.ofNat 15)
              (pure (sayiOf H ust alt (UInt8.ofNat 15)))))) := by
    rw [← hend]
    rfl
  have h3 : t ≤ 12 → (UInt8.ofNat 12 - 1 <<< UInt8.ofNat (2 + 1)).toNat ≤ t - 1 := by
    intro h
    have : (UInt8.ofNat 12 - 1 <<< UInt8.ofNat (2 + 1)).toNat = 4 := by decide
    omega
  rw [hrounds, qUpRound_run hp (by omega) 3 _ x (by omega) (by omega), if_neg (by omega),
    qUpRound_run hp (by omega) 2 _ _ (by omega) h3]
  by_cases h12 : t ≤ 12
  · rw [if_pos h12]
  have h2 : (UInt8.ofNat 14 - 1 <<< UInt8.ofNat (1 + 1)).toNat = 10 := by decide
  rw [if_neg h12, qUpRound_run hp (by omega) 1 _ _ (by omega) (by omega)]
  by_cases h14 : t ≤ 14
  · rw [if_pos h14]
  have h1 : (UInt8.ofNat 15 - 1 <<< UInt8.ofNat (0 + 1)).toNat = 13 := by decide
  rw [if_neg h14, qUpRound_run hp (by omega) 0 _ _ (by omega) (by omega)]
  by_cases h15 : t ≤ 15
  · rw [if_pos h15]
  · obtain rfl : t = 16 := by omega
    rw [if_neg h15]
    rfl

theorem qDownAra_run (hp : Probes compare st H ust alt t) (ht' : t ≤ 15)
    {ek left : Nat} {old : UInt8} (x : UInt8) (hek : ek ≤ t)
    (hold : ek = t → old = sayiOf H ust alt (UInt8.ofNat (t - 1))) (hleft : t - ek < left) :
    (qDownAra compare H ust alt (UInt8.ofNat ek) old left).run (st x) =
      pure (some (sayiOf H ust alt (UInt8.ofNat (t - 1))),
        st (sayiOf H ust alt (UInt8.ofNat t))) := by
  -- Below the threshold the comparison is not answered, and `ek` goes up by one.
  induction left generalizing ek old x with
  | zero => omega
  | succ left ih =>
    rw [qDownAra, StateT.run_bind, hp x ek (by omega), pure_bind]
    by_cases h : t ≤ ek
    · obtain rfl : ek = t := by omega
      rw [if_pos ((answer_eq_yes _).mpr h), hold rfl]
      rfl
    · rw [if_neg (by rw [answer_eq_yes]; exact h)]
      have hsucc : UInt8.ofNat ek + 1 = UInt8.ofNat (ek + 1) := by simp
      rw [hsucc]
      refine ih _ (by omega) ?_ (by omega)
      intro he
      rw [show t - 1 = ek by omega]

theorem qDownRound_run (hp : Probes compare st H ust alt t) {count : Nat}
    (next : StateM (World σ) UInt8) (x : UInt8) (hcount : count ≤ 3) (ht' : t ≤ 15)
    (ht : t ≤ 2 ^ (count + 1)) :
    (qDownRound compare H ust alt count next).run (st x) =
      if t ≤ 2 ^ count then next.run (st (sayiOf H ust alt (UInt8.ofNat (2 ^ count))))
      else
        pure (sayiOf H ust alt (UInt8.ofNat (t - 1)), st (sayiOf H ust alt (UInt8.ofNat t))) := by
  have hshift : (1 : UInt8) <<< UInt8.ofNat count = UInt8.ofNat (2 ^ count) := by
    interval_cases count <;> decide
  have htoNat : (UInt8.ofNat (2 ^ count)).toNat = 2 ^ count := by
    interval_cases count <;> decide
  have hle : 2 ^ count ≤ 15 := by interval_cases count <;> decide
  rw [qDownRound]
  simp only [hshift]
  rw [StateT.run_bind, hp x _ hle, pure_bind]
  by_cases h : t ≤ 2 ^ count
  · rw [if_neg (by rw [answer_eq_no]; omega), if_pos h]
  · rw [if_pos ((answer_eq_no _).mpr h), if_neg h, StateT.run_bind,
      qDownAra_run hp ht' _ (by omega) (by omega) (by omega), pure_bind]
    rfl

theorem qDown_run (hp : Probes compare st H ust alt t) (ht' : t ≤ 15) {count : Nat}
    (hcount : count ≤ 3) (ht : t ≤ 2 ^ (count + 1)) (x : UInt8) :
    ∃ y, (qDown compare H ust alt count).run (st x) =
      pure (sayiOf H ust alt (UInt8.ofNat (t - 1)), st y) := by
  induction count generalizing x with
  | zero =>
    rw [qDown, qDownRound_run hp _ _ hcount ht' ht]
    by_cases h : t ≤ 2 ^ 0
    · have hend : (if H then 0x00 ||| alt else ust <<< 4 ||| 0x00) =
          sayiOf H ust alt (UInt8.ofNat 0) := by
        cases H
        · exact UInt8.or_comm _ _
        · rfl
      have ht0 : t - 1 = 0 := by omega
      rw [if_pos h, hend, ht0]
      exact ⟨_, rfl⟩
    · rw [if_neg h]
      exact ⟨_, rfl⟩
  | succ count ih =>
    rw [qDown, qDownRound_run hp _ _ hcount ht' ht]
    by_cases h : t ≤ 2 ^ (count + 1)
    · rw [if_pos h]
      exact ih (by omega) h _
    · rw [if_neg h]
      exact ⟨_, rfl⟩

end Nibble

/-! ### One comparison -/

section Compare

variable {σ : Type}

/-- What `send_compare` does when a comparison leaves the devices as they are, and is answered as
they compare. -/
theorem sendCompare_run_of {ops : BusOps σ} {compares : σ → Prop} [DecidablePred compares]
    {loadFor : σ → Hml → SndNible → σ}
    (hload : ∀ r snd w,
      (loadSearch ops r snd).run w = pure ((), { w with bus := loadFor w.bus r snd }))
    (hcompare : ∀ w : World σ, ∃ rr,
      (sendReceive ops (specialCommand 0x04 0x00)).run w = pure (rr, w) ∧
        (if rr = .timeout then .no else rr) = answer (compares w.bus))
    (r : Hml) (snd : SndNible) (w : World σ) :
    (sendCompare ops r snd).run w = pure (answer (compares (loadFor w.bus r snd)),
      { w with bus := loadFor w.bus r snd, retry := 0 }) := by
  have honce : ∀ again, (compareOnce ops r snd again).run w =
      pure (answer (compares (loadFor w.bus r snd)),
        { w with bus := loadFor w.bus r snd, retry := 0 }) := by
    intro again
    obtain ⟨rr, hrun, hrr⟩ := hcompare { w with bus := loadFor w.bus r snd }
    have hanswer : answer (compares (loadFor w.bus r snd)) = .yes ∨
        answer (compares (loadFor w.bus r snd)) = .no := by
      rw [answer_eq_yes, answer_eq_no]
      exact em _
    simp only [compareOnce, StateT.run_bind, hload, pure_bind, hrun, hrr]
    rw [if_pos hanswer]
    rfl
  have hget : (get : StateM (World σ) (World σ)).run w = pure (w, w) := rfl
  rw [sendCompare, StateT.run_bind, hget, pure_bind]
  cases 5 - w.retry with
  | zero => exact honce _
  | succ left => exact honce _

/-- Each comparison is answered as the devices compare with the whole search address, although only
one of its bytes may be sent: the others were loaded before. -/
structure Comparing (ops : BusOps σ) (load : World σ → Hml → World σ)
    (answered : World σ → Hml → Prop) [∀ w r, Decidable (answered w r)] : Prop where
  load_load : ∀ w r r', load (load w r) r' = load w r'
  answered_load : ∀ w r r', answered (load w r) r' ↔ answered w r'
  all : ∀ r w, (sendCompare ops r .sndA).run w = pure (answer (answered w r), load w r)
  nible : ∀ r {snd}, snd ≠ .sndA → ∀ x b w,
    (compareNible ops r snd b).run (load w (r.set x snd)) =
      pure (answer (answered w (r.set b snd)), load w (r.set b snd))

end Compare

theorem set_get (r : Hml) {snd : SndNible} (hsnd : snd ≠ .sndA) : r.set (r.get snd) snd = r := by
  cases snd with
  | sndA => exact absurd rfl hsnd
  | sndH | sndM | sndL => rfl

theorem set_set (r : Hml) (x y : UInt8) (snd : SndNible) :
    (r.set x snd).set y snd = r.set y snd := by
  cases snd <;> rfl

theorem get_set (r : Hml) (x : UInt8) {snd : SndNible} (hsnd : snd ≠ .sndA) :
    (r.set x snd).get snd = x := by
  cases snd with
  | sndA => exact absurd rfl hsnd
  | sndH | sndM | sndL => rfl

/-! ### One byte -/

section Search

variable {σ : Type} {ops : BusOps σ} {load : World σ → Hml → World σ}
  {answered : World σ → Hml → Prop} [∀ w r, Decidable (answered w r)]

/-- The comparisons with one byte replaced are answered from the value `T` on. -/
def Threshold (answered : Hml → Prop) (r : Hml) (snd : SndNible) (T : Nat) : Prop :=
  ∀ b : UInt8, answered (r.set b snd) ↔ T ≤ b.toNat

/-- The nibble search from its middle value returns the last value below the threshold. -/
theorem qH0_run (hc : Comparing ops load answered) {w : World σ} {r : Hml} {H : Bool}
    {snd : SndNible} {T t : Nat} (hsnd : snd ≠ .sndA) (hT : Threshold (answered w) r snd T)
    (ht : t ≤ 16)
    (hnible : ∀ ek ≤ 15, T ≤ (sayiOf H (r.get snd >>> 4) (r.get snd &&& 0x0F)
      (UInt8.ofNat ek)).toNat ↔ t ≤ ek)
    (hmid : T ≤ (r.get snd).toNat ↔ t ≤ 8) :
    ∃ y, (qH0 ops r H snd).run w = pure (sayiOf H (r.get snd >>> 4)
      (r.get snd &&& 0x0F) (UInt8.ofNat (t - 1)), load w (r.set y snd)) := by
  have hp : Probes (compareNible ops r snd) (fun x => load w (r.set x snd)) H
      (r.get snd >>> 4) (r.get snd &&& 0x0F) t := by
    intro x ek hek
    rw [hc.nible r hsnd x]
    rw [answer_congr ((hT _).trans (hnible ek hek))]
  have hanswer : answer (answered w r) = answer (t ≤ 8) := by
    apply answer_congr
    rw [← hmid, ← hT, set_get r hsnd]
  have hst : load w r = load w (r.set (r.get snd) snd) := by rw [set_get r hsnd]
  rw [qH0, StateT.run_bind, hc.all, pure_bind, hanswer, hst]
  by_cases h : t ≤ 8
  · rw [if_neg (by rw [answer_eq_no]; omega)]
    exact qDown_run hp (by omega) (by omega) (by omega) _
  · rw [if_pos ((answer_eq_no _).mpr h)]
    exact ⟨_, qUp_run hp (by omega) ht _⟩

theorem sayiOf_high (ek : Fin 16) :
    (sayiOf true ((0x80 : UInt8) >>> 4) ((0x80 : UInt8) &&& 0x0F) (UInt8.ofNat ek)).toNat =
      16 * ek := by
  decide +revert

theorem sayiOf_low (x ek : Fin 16) (alt : UInt8) :
    (sayiOf false ((UInt8.ofNat (16 * x) ||| 0x08) >>> 4) alt (UInt8.ofNat ek)).toNat =
      16 * x + ek := by
  simp only [sayiOf, Bool.false_eq_true, if_false]
  clear alt
  decide +revert

theorem middle_low (x : Fin 16) : (UInt8.ofNat (16 * x) ||| 0x08).toNat = 16 * x + 8 := by
  decide +revert

theorem findBlock_run (hc : Comparing ops load answered) {w : World σ} {r : Hml} {snd : SndNible}
    {T : Nat} (hsnd : snd ≠ .sndA) (hT : Threshold (answered w) r snd T) (hT' : T ≤ 256) :
    ∃ y, (findBlock ops r snd).run w =
      pure (r.set (UInt8.ofNat (T - 1)) snd, load w (r.set y snd)) := by
  obtain ⟨x, hx⟩ : ∃ x : Fin 16, (x : Nat) = (T + 15) / 16 - 1 :=
    ⟨⟨(T + 15) / 16 - 1, by omega⟩, rfl⟩
  have hThigh : Threshold (answered w) (r.set 0x80 snd) snd T := by
    intro b
    rw [set_set]
    exact hT b
  have hhigh := qH0_run hc (H := true) hsnd hThigh (t := (T + 15) / 16) (by omega) ?_ ?_
  rotate_left
  · intro ek hek
    rw [get_set r _ hsnd, sayiOf_high ⟨ek, by omega⟩]
    dsimp only
    omega
  · rw [get_set r _ hsnd, show (0x80 : UInt8).toNat = 128 by decide]
    omega
  obtain ⟨y, hy⟩ := hhigh
  have hupper : sayiOf true ((0x80 : UInt8) >>> 4) ((0x80 : UInt8) &&& 0x0F)
      (UInt8.ofNat ((T + 15) / 16 - 1)) = UInt8.ofNat (16 * x) := by
    apply UInt8.toNat_inj.mp
    rw [← hx, sayiOf_high x, UInt8.toNat_ofNat_of_lt' (show 16 * x.val < 256 by omega)]
  rw [get_set r _ hsnd, hupper, set_set] at hy
  have hTlow : Threshold (answered (load w (r.set y snd)))
      (r.set (UInt8.ofNat (16 * x) ||| 0x08) snd) snd T := by
    intro b
    rw [set_set, hc.answered_load]
    exact hT b
  have hlow := qH0_run hc (H := false) hsnd hTlow (t := T - 16 * x) (by omega) ?_ ?_
  rotate_left
  · intro ek hek
    rw [get_set r _ hsnd, sayiOf_low x ⟨ek, by omega⟩]
    dsimp only
    omega
  · rw [get_set r _ hsnd, middle_low x]
    omega
  obtain ⟨z, hz⟩ := hlow
  have hresult : sayiOf false ((UInt8.ofNat (16 * x) ||| 0x08) >>> 4)
      ((UInt8.ofNat (16 * x) ||| 0x08) &&& 0x0F) (UInt8.ofNat (T - 16 * x - 1)) =
        UInt8.ofNat (T - 1) := by
    apply UInt8.toNat_inj.mp
    rw [sayiOf_low x ⟨T - 16 * x - 1, by omega⟩,
      UInt8.toNat_ofNat_of_lt' (show T - 1 < 256 by omega)]
    dsimp only
    omega
  rw [get_set r _ hsnd, hresult, set_set, hc.load_load] at hz
  refine ⟨z, ?_⟩
  simp only [findBlock, StateT.run_bind, hy, pure_bind, set_set, hz]
  rfl

/-! ### The smallest random address -/

theorem findMinNumber_run_of (hc : Comparing ops load answered) {w : World σ} {A : Nat}
    (hA : ∀ r, answered w r ↔ A ≤ r.addr) (hlt : A < 2 ^ 24) :
    ∃ r r', (findMinNumber ops ⟨0, 0, 0⟩).run w = pure (r, load w r') ∧ r.addr = A - 1 := by
  have htoNat : ∀ n, n < 256 → (UInt8.ofNat n).toNat = n := by
    intro n hn
    exact UInt8.toNat_ofNat_of_lt' hn
  obtain ⟨h, hh⟩ : ∃ h, h = (A + 65535) / 65536 - 1 := ⟨_, rfl⟩
  obtain ⟨m, hm⟩ : ∃ m, m = (A - h * 65536 + 255) / 256 - 1 := ⟨_, rfl⟩
  have hTH : Threshold (answered w) ⟨0, 0, 0⟩ .sndH ((A + 65535) / 65536) := by
    intro b
    rw [hA]
    simp only [Hml.addr, Hml.set, addressOf, UInt8.toNat_zero]
    omega
  obtain ⟨y, hy⟩ := findBlock_run hc (by decide) hTH (by omega)
  have hTM : Threshold (answered (load w (Hml.set ⟨0, 0, 0⟩ y .sndH))) ⟨UInt8.ofNat h, 0, 0⟩ .sndM
      ((A - h * 65536 + 255) / 256) := by
    intro b
    rw [hc.answered_load, hA]
    simp only [Hml.addr, Hml.set, addressOf, UInt8.toNat_zero, htoNat h (by omega)]
    omega
  obtain ⟨z, hz⟩ := findBlock_run hc (by decide) hTM (by omega)
  rw [hc.load_load] at hz
  have hTL : Threshold (answered (load w (Hml.set ⟨UInt8.ofNat h, 0, 0⟩ z .sndM)))
      ⟨UInt8.ofNat h, UInt8.ofNat m, 0⟩ .sndL (A - h * 65536 - m * 256) := by
    intro b
    rw [hc.answered_load, hA]
    simp only [Hml.addr, Hml.set, addressOf, htoNat h (by omega), htoNat m (by omega)]
    omega
  obtain ⟨v, hv⟩ := findBlock_run hc (by decide) hTL (by omega)
  rw [hc.load_load] at hv
  rw [← hh] at hy
  rw [← hm] at hz
  refine ⟨⟨UInt8.ofNat h, UInt8.ofNat m, UInt8.ofNat (A - h * 65536 - m * 256 - 1)⟩,
    Hml.set ⟨UInt8.ofNat h, UInt8.ofNat m, 0⟩ v .sndL, ?_, ?_⟩
  · simp only [Hml.set] at hy hz hv
    simp only [findMinNumber, StateT.run_bind, hy, pure_bind, hz, hv, Hml.set]
  · simp only [Hml.addr, addressOf, htoNat h (by omega), htoNat m (by omega)]
    rw [htoNat _ (by omega)]
    omega

end Search

/-! ### The bus without noise -/

section Net

variable {P : Population} (cast : UInt8 → Backword)

theorem sendReceive_run (f : Forward) (w : World Net) (hf : netSend f w.bus = w.bus) :
    (sendReceive (netOps P cast) f).run w =
      pure (backward (netOps P cast) (netReply P f w.bus), w) := by
  cases h : netReply P f w.bus <;> simp [sendReceive, exchangeAgain, netOps, hf, h]

/-- The search address that `send_compare` compares with. -/
def Net.loadFor (n : Net) (r : Hml) : SndNible → Net
  | .sndH => { n with high := r.h }
  | .sndM => { n with mid := r.m }
  | .sndL => { n with low := r.l }
  | .sndA => n.load r.h r.m r.l

theorem loadSearch_run {ops : BusOps Net} (hsend : ops.send = netSend) (r : Hml) (snd : SndNible)
    (w : World Net) :
    (loadSearch ops r snd).run w = pure ((), { w with bus := w.bus.loadFor r snd }) := by
  cases snd <;> simp [loadSearch, sendWhen, hsend, Net.loadFor, Net.load]

/-- The world with a search address loaded. -/
def World.load (w : World Net) (r : Hml) : World Net :=
  { w with bus := w.bus.load r.h r.m r.l, retry := 0 }

@[simp] theorem World.load_load (w : World Net) (r r' : Hml) : (w.load r).load r' = w.load r' := rfl

/-- Whether a comparison with the address is answered in the state `w`. -/
abbrev Answered (P : Population) (w : World Net) (r : Hml) : Prop := (w.load r).bus.Compares P

/-- A bus that sends to the devices of `P` and on which a comparison is answered as they compare. -/
theorem comparing_of {ops : BusOps Net} (hsend : ops.send = netSend)
    (hcompare : ∀ w : World Net, ∃ rr,
      (sendReceive ops (specialCommand 0x04 0x00)).run w = pure (rr, w) ∧
        (if rr = .timeout then .no else rr) = answer (w.bus.Compares P)) :
    Comparing ops World.load (Answered P) where
  load_load _ _ _ := rfl
  answered_load _ _ _ := Iff.rfl
  all r w := sendCompare_run_of (loadSearch_run hsend) hcompare r .sndA w
  nible r snd hsnd x b w := by
    rw [compareNible, if_neg hsnd, sendCompare_run_of (loadSearch_run hsend) hcompare]
    cases snd with
    | sndA => exact absurd rfl hsnd
    | sndH | sndM | sndL => rfl

theorem comparing_netOps : Comparing (netOps P cast) World.load (Answered P) := by
  refine comparing_of rfl fun w => ⟨_, sendReceive_run _ _ _ (netSend_compare _ _), ?_⟩
  rw [netReply_compare]
  by_cases h : w.bus.Compares P <;> simp [h, backward, answer]

theorem compareAll_run (r : Hml) (w : World Net) : (sendCompare (netOps P cast) r .sndA).run w =
    pure (answer (Answered P w r), w.load r) :=
  (comparing_netOps cast).all r w

/-- The comparisons are answered from the address `A` on. -/
def AnsweredFrom (P : Population) (w : World Net) (A : Nat) : Prop :=
  ∀ r : Hml, Answered P w r ↔ A ≤ r.addr

end Net

end DaliController.Search
