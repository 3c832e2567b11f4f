import DaliController.Search.Compare

/-! `Search_Device`: the loop that looks for the smallest random address, gives its device the first
free short address, and then tries the three addresses after it.  The random address only goes to
the log of `AtamaYAP`; the devices compare it with the search address last loaded. -/

namespace DaliController.Search

/-- The first free slot of `GEAR_FILE`, or 200. -/
def findAddr (gear : Nat → Gear) : UInt8 :=
  match (List.range 64).find? fun i => decide (64 < (gear i).shortAddr) with
  | some i => UInt8.ofNat i
  | none => 200

/-- Devices keep the number above the lowest bit of the address byte. -/
theorem short_of_ats {k : UInt8} (hk : k.toNat < 64) : (k <<< 1 ||| 1) >>> 1 = k := by
  have hall : ∀ n : Fin 64, (UInt8.ofNat n <<< 1 ||| 1) >>> 1 = UInt8.ofNat n := by decide
  have h := hall ⟨k.toNat, hk⟩
  rwa [UInt8.ofNat_toNat] at h

section Program

variable {σ : Type} (ops : BusOps σ)

def doubleSend (f : Forward) : StateM (World σ) Unit := do
  send ops f
  send ops f

def atamaVeKontrol (ats : UInt8) : StateM (World σ) Backword := do
  send ops (specialCommand 0x0B ats)
  send ops (specialCommand 0x0B ats)
  let rr ← sendReceive ops (specialCommand 0x0C ats)
  if rr ≠ .yes then sendReceive ops (specialCommand 0x0C ats) else return rr

/-- What `AtamaYAP` does once `VERIFY` was answered: it reports the device, writes its slot and
withdraws it. -/
def atamaTamam (abc : UInt8) : StateM (World σ) UInt8 := do
  modify fun w => { w with
    gear := Function.update w.gear abc.toNat ⟨abc, 0x06, 0⟩
    init := w.init ++ [abc] }
  send ops (specialCommand 0x05 0x00)
  return 0xFF

/-- Another `AtamaVeKontrol` if the last one was not verified. -/
def atamaTekrar (ats : UInt8) (rr : Backword) : StateM (World σ) Backword :=
  if rr ≠ .yes then atamaVeKontrol ops ats else pure rr

def atamaYap : StateM (World σ) UInt8 := do
  let abc := findAddr (← get).gear
  if 64 < abc then return 0x71
  let ats := abc <<< 1 ||| 1
  let rr ← atamaVeKontrol ops ats
  let rr ← atamaTekrar ops ats rr
  if rr = .yes then atamaTamam ops abc else return 0x00

/-- The carry goes from `l` to `m`, but not on to `h`. -/
def Hml.sonraki (r : Hml) : Hml :=
  if r.l = 0xFF then { r with m := r.m + 1, l := 0 } else { r with l := r.l + 1 }

def sonrakiniAta (r : Hml) : StateM (World σ) (UInt8 × Hml) := do
  let r := r.sonraki
  let rr ← sendCompare ops r .sndA
  if rr = .yes then return (← atamaYap ops, r) else return (0x00, r)

/-- The three addresses after the one that a round found. -/
def komsular (r : Hml) : StateM (World σ) Unit := do
  let (ret, r) ← sonrakiniAta ops r
  if ret = 0xFF then
    let (ret, r) ← sonrakiniAta ops r
    if ret = 0xFF then
      let _ ← sonrakiniAta ops r

def araAta (r : Hml) : StateM (World σ) Unit := do
  let rr ← sendCompare ops r .sndA
  if rr = .yes then
    let ret ← atamaYap ops
    if ret = 0xFF then komsular ops r

/-- One round of the loop of `Search_Device`, and whether another one follows. -/
def araRound : StateM (World σ) Bool := do
  let rr ← sendCompare ops ⟨0xFF, 0xFF, 0xFF⟩ .sndA
  if rr = .no ∨ rr = .timeout then
    let _ ← sendCompare ops ⟨0xFF, 0xFF, 0xFF⟩ .sndA
    return false
  let r ← findMinNumber ops ⟨0x00, 0x00, 0x00⟩
  araAta ops { r with l := r.l + 1 }
  return true

/-- The loop of `Search_Device` for at most `fuel` rounds, and whether it ended. -/
def araLoop : Nat → StateM (World σ) Bool
  | 0 => return false
  | fuel + 1 => do
    let ara ← araRound ops
    if ara then araLoop fuel else return true

def searchDevice (dev : UInt8) (fuel : Nat) : StateM (World σ) Bool := do
  doubleSend ops (specialCommand 0x00 0x00)
  doubleSend ops (specialCommand 0x02 dev)
  doubleSend ops (specialCommand 0x03 0x00)
  let bitti ← araLoop ops fuel
  if bitti then doubleSend ops (specialCommand 0x00 0x00)
  return bitti

end Program

/-- All slots of `GEAR_FILE` are free. -/
def AllFree (gear : Nat → Gear) : Prop := ∀ k < 64, 64 < (gear k).shortAddr

end DaliController.Search
