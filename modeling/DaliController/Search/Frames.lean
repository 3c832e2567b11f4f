import DaliController.Lib.Frame
import DaliController.Search.Assign

/-! What a relation between worlds must allow for the addressing procedure to keep it: the frames
that each of its parts sends. -/

namespace DaliController.Search

open Frame

variable {σ : Type} {ops : BusOps σ} {R : World σ → World σ → Prop} [IsPreorder (World σ) R]

theorem keeps_sendReceive {f : Forward} (h : Keeps R (exchange ops f)) :
    Keeps R (sendReceive ops f) := by
  have hagain : ∀ kk, Keeps R (exchangeAgain ops f kk) := fun kk => keeps_ite h (keeps_pure _)
  exact keeps_bind h fun _ => keeps_bind (hagain _) fun _ => keeps_bind (hagain _) fun _ =>
    keeps_pure _

/-! ### The search -/

/-- The relation allows the frames of `send_compare`. -/
structure AllowsCompare (ops : BusOps σ) (R : World σ → World σ → Prop) : Prop where
  high : ∀ dat, Keeps R (send ops (specialCommand 0x08 dat))
  mid : ∀ dat, Keeps R (send ops (specialCommand 0x09 dat))
  low : ∀ dat, Keeps R (send ops (specialCommand 0x0A dat))
  compare : Keeps R (exchange ops (specialCommand 0x04 0x00))
  retry : ∀ f : Nat → Nat,
    Keeps R (modify fun w => { w with retry := f w.retry } : StateM (World σ) PUnit)

theorem keeps_loadSearch (h : AllowsCompare ops R) (r : Hml) (snd : SndNible) :
    Keeps R (loadSearch ops r snd) := by
  have hwhen : ∀ (p : Prop) [Decidable p] (f : Forward), Keeps R (send ops f) →
      Keeps R (sendWhen ops p f) := fun p _ f hf => keeps_ite hf (keeps_pure _)
  apply keeps_bind (hwhen _ _ (h.high _))
  intro _
  exact keeps_bind (hwhen _ _ (h.mid _)) fun _ => hwhen _ _ (h.low _)

theorem keeps_compareOnce (h : AllowsCompare ops R) (r : Hml) (snd : SndNible)
    {again : StateM (World σ) Backword} (hagain : Keeps R again) :
    Keeps R (compareOnce ops r snd again) := by
  apply keeps_bind (keeps_loadSearch h r snd)
  intro _
  refine keeps_bind (keeps_sendReceive h.compare) fun _ => keeps_ite ?_ hagain
  exact keeps_bind (h.retry fun _ => 0) fun _ => keeps_pure _

theorem keeps_sendCompare (h : AllowsCompare ops R) (r : Hml) (snd : SndNible) :
    Keeps R (sendCompare ops r snd) := by
  have hfrom : ∀ left, Keeps R (sendCompareFrom ops r snd left) := by
    intro left
    induction left with
    | zero =>
      exact keeps_compareOnce h r snd (keeps_bind (h.retry fun _ => 0) fun _ => keeps_pure _)
    | succ left ih =>
      exact keeps_compareOnce h r snd (keeps_bind (h.retry (· + 1)) fun _ => ih)
  exact keeps_bind keeps_get fun _ => hfrom _

theorem keeps_compareNible (h : AllowsCompare ops R) (r : Hml) (snd : SndNible) (sayi : UInt8) :
    Keeps R (compareNible ops r snd sayi) :=
  keeps_ite (keeps_pure _) (keeps_sendCompare h _ _)

section Nibble

variable {compare : UInt8 → StateM (World σ) Backword} (h : ∀ sayi, Keeps R (compare sayi))
  (H : Bool) (ust alt : UInt8)

include h

theorem keeps_qUpAra (ek1 ek : Nat) : Keeps R (qUpAra compare H ust alt ek1 ek) := by
  have hround : ∀ ek next, Keeps R next → Keeps R (qUpAraRound compare H ust alt ek1 ek next) := by
    intro ek next hnext
    refine keeps_ite (keeps_bind (h _) fun _ => ?_) (keeps_pure _)
    exact keeps_ite (keeps_pure _) hnext
  induction ek with
  | zero => exact hround _ _ (keeps_pure _)
  | succ ek ih => exact hround _ _ ih

theorem keeps_qUp (count : Nat) (ek : UInt8) : Keeps R (qUp compare H ust alt count ek) := by
  have hround : ∀ count ek next, Keeps R next →
      Keeps R (qUpRound compare H ust alt count ek next) := by
    intro count ek next hnext
    refine keeps_bind (h _) fun _ => keeps_ite ?_ hnext
    exact keeps_bind (keeps_qUpAra h H ust alt _ _) fun _ => keeps_pure _
  induction count generalizing ek with
  | zero => exact hround _ _ _ (keeps_pure _)
  | succ count ih => exact hround _ _ _ (ih _)

theorem keeps_qDownAra (ek old : UInt8) (left : Nat) :
    Keeps R (qDownAra compare H ust alt ek old left) := by
  induction left generalizing ek old with
  | zero => exact keeps_pure _
  | succ left ih => exact keeps_bind (h _) fun _ => keeps_ite (keeps_pure _) (ih _ _)

theorem keeps_qDown (count : Nat) : Keeps R (qDown compare H ust alt count) := by
  have hround : ∀ count next, Keeps R next →
      Keeps R (qDownRound compare H ust alt count next) := by
    intro count next hnext
    refine keeps_bind (h _) fun _ => keeps_ite ?_ hnext
    exact keeps_bind (keeps_qDownAra h H ust alt _ _ _) fun _ => keeps_pure _
  induction count with
  | zero => exact hround _ _ (keeps_pure _)
  | succ count ih => exact hround _ _ ih

end Nibble

theorem keeps_findMinNumber (h : AllowsCompare ops R) (r : Hml) :
    Keeps R (findMinNumber ops r) := by
  have hq : ∀ r H snd, Keeps R (qH0 ops r H snd) := by
    intro r H snd
    have hnible := keeps_compareNible h r snd
    apply keeps_bind (keeps_sendCompare h _ _)
    intro _
    exact keeps_ite (keeps_qUp hnible _ _ _ _ _) (keeps_qDown hnible _ _ _ _)
  have hblock : ∀ r snd, Keeps R (findBlock ops r snd) := by
    intro r snd
    exact keeps_bind (hq _ _ _) fun _ => keeps_bind (hq _ _ _) fun _ => keeps_pure _
  exact keeps_bind (hblock _ _) fun _ => keeps_bind (hblock _ _) fun _ => hblock _ _

/-! ### The assignment -/

/-- The relation allows the frames of `AtamaYAP`, and the slot that it writes. -/
structure AllowsAssign (ops : BusOps σ) (R : World σ → World σ → Prop) : Prop where
  program : ∀ ats, Keeps R (send ops (specialCommand 0x0B ats))
  verify : ∀ ats, Keeps R (exchange ops (specialCommand 0x0C ats))
  tamam : ∀ abc, Keeps R (atamaTamam ops abc)

theorem keeps_atamaVeKontrol (h : AllowsAssign ops R) (ats : UInt8) :
    Keeps R (atamaVeKontrol ops ats) := by
  refine keeps_bind (h.program ats) fun _ => keeps_bind (h.program ats) fun _ => ?_
  apply keeps_bind (keeps_sendReceive (h.verify ats))
  intro _
  exact keeps_ite (keeps_sendReceive (h.verify ats)) (keeps_pure _)

theorem keeps_atamaYap (h : AllowsAssign ops R) : Keeps R (atamaYap ops) := by
  refine keeps_bind keeps_get fun w => keeps_ite (keeps_pure _) ?_
  apply keeps_bind (keeps_atamaVeKontrol h _)
  intro rr
  have htekrar : Keeps R (atamaTekrar ops ((findAddr w.gear) <<< 1 ||| 1) rr) :=
    keeps_ite (keeps_atamaVeKontrol h _) (keeps_pure _)
  apply keeps_bind htekrar
  intro rr'
  exact keeps_ite (h.tamam _) (keeps_pure _)

/-! ### The loop -/

/-- The relation allows every step of the loop of `Search_Device`. -/
structure AllowsRound (ops : BusOps σ) (R : World σ → World σ → Prop) : Prop
    extends AllowsCompare ops R where
  assign : Keeps R (atamaYap ops)

/-- The relation allows every step of `Search_Device`. -/
structure AllowsSearch (ops : BusOps σ) (R : World σ → World σ → Prop) : Prop
    extends AllowsRound ops R where
  terminate : Keeps R (send ops (specialCommand 0x00 0x00))
  initialise : ∀ dev, Keeps R (send ops (specialCommand 0x02 dev))
  randomise : Keeps R (send ops (specialCommand 0x03 0x00))

theorem keeps_komsular (h : AllowsRound ops R) (r : Hml) : Keeps R (komsular ops r) := by
  have hsonraki : ∀ r, Keeps R (sonrakiniAta ops r) := by
    intro r
    apply keeps_bind (keeps_sendCompare h.toAllowsCompare _ _)
    intro _
    exact keeps_ite (keeps_bind h.assign fun _ => keeps_pure _) (keeps_pure _)
  refine keeps_bind (hsonraki _) fun _ => keeps_ite ?_ (keeps_pure _)
  refine keeps_bind (hsonraki _) fun _ => keeps_ite ?_ (keeps_pure _)
  exact keeps_bind (hsonraki _) fun _ => keeps_pure _

theorem keeps_araRound (h : AllowsRound ops R) : Keeps R (araRound ops) := by
  have hcompare : ∀ r, Keeps R (sendCompare ops r .sndA) :=
    fun r => keeps_sendCompare h.toAllowsCompare r _
  have hata : ∀ r, Keeps R (araAta ops r) := by
    intro r
    refine keeps_bind (hcompare _) fun _ => keeps_ite ?_ (keeps_pure _)
    exact keeps_bind h.assign fun _ => keeps_ite (keeps_komsular h _) (keeps_pure _)
  refine keeps_bind (hcompare _) fun _ => keeps_ite ?_ ?_
  · exact keeps_bind (hcompare _) fun _ => keeps_pure _
  · apply keeps_bind (keeps_findMinNumber h.toAllowsCompare _)
    intro _
    exact keeps_bind (hata _) fun _ => keeps_pure _

theorem keeps_araLoop (h : AllowsRound ops R) (fuel : Nat) : Keeps R (araLoop ops fuel) := by
  induction fuel with
  | zero => exact keeps_pure _
  | succ fuel ih => exact keeps_bind (keeps_araRound h) fun _ => keeps_ite ih (keeps_pure _)

theorem keeps_searchDevice (h : AllowsSearch ops R) (dev : UInt8) (fuel : Nat) :
    Keeps R (searchDevice ops dev fuel) := by
  have hdouble : ∀ f, Keeps R (send ops f) → Keeps R (doubleSend ops f) :=
    fun f hf => keeps_bind hf fun _ => hf
  apply keeps_bind (hdouble _ h.terminate)
  intro _
  apply keeps_bind (hdouble _ (h.initialise dev))
  intro _
  apply keeps_bind (hdouble _ h.randomise)
  intro _
  refine keeps_bind (keeps_araLoop h.toAllowsRound fuel) fun _ => keeps_ite ?_ (keeps_pure _)
  exact keeps_bind (hdouble _ h.terminate) fun _ => keeps_pure _

end DaliController.Search
