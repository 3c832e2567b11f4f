import Mathlib.Logic.Basic

/-! Devices that carry out some commands only when they receive them twice in a row.  A sender that
sends each of these commands twice, and every other frame at will, has them carried out one by one:
the devices never stay with half a command. -/

namespace Confirm

variable {σ φ : Type}

/-- What a device does with a frame: which frames have to come twice, what they do then, and what
any other frame does. -/
structure Rules (σ φ : Type) where
  twice : σ → φ → Bool
  carryOut : φ → σ → σ
  once : φ → σ → σ

/-- A device, with the frame that has come once. -/
structure Device (σ φ : Type) where
  state : σ
  first : Option φ

/-- A frame that is sent once, or twice in a row. -/
inductive Block (φ : Type)
  | single (f : φ)
  | double (f : φ)

def Block.frames : Block φ → List φ
  | .single f => [f]
  | .double f => [f, f]

/-- What a block does to a device that it finds without half a command. -/
def Block.run (R : Rules σ φ) (s : σ) : Block φ → σ
  | .single f => R.once f s
  | .double f => if R.twice s f then R.carryOut f s else R.once f (R.once f s)

/-- No frame that has to come twice is sent once. -/
def Block.Fits (R : Rules σ φ) : Block φ → Prop
  | .single f => ∀ s, R.twice s f = false
  | .double f => ∀ s, R.twice s f = false → R.twice (R.once f s) f = false

variable [DecidableEq φ]

def Device.receive (R : Rules σ φ) (d : Device σ φ) (f : φ) : Device σ φ :=
  if R.twice d.state f then
    if d.first = some f then ⟨R.carryOut f d.state, none⟩ else ⟨d.state, some f⟩
  else ⟨R.once f d.state, none⟩

section

variable {R : Rules σ φ}

theorem receive_once {s : σ} {f : φ} (first : Option φ) (h : R.twice s f = false) :
    (⟨s, first⟩ : Device σ φ).receive R f = ⟨R.once f s, none⟩ := by
  simp [Device.receive, h]

theorem receive_twice {s : σ} {f : φ} (h : R.twice s f = true) :
    ((⟨s, none⟩ : Device σ φ).receive R f).receive R f = ⟨R.carryOut f s, none⟩ := by
  simp [Device.receive, h]

theorem foldl_block {b : Block φ} (hb : b.Fits R) (s : σ) :
    b.frames.foldl (Device.receive R) ⟨s, none⟩ = ⟨b.run R s, none⟩ := by
  cases b with
  | single f => exact receive_once none (hb s)
  | double f =>
    cases h : R.twice s f with
    | true =>
      refine (receive_twice h).trans ?_
      simp [Block.run, h]
    | false =>
      have hagain := hb s h
      show ((⟨s, none⟩ : Device σ φ).receive R f).receive R f = _
      rw [receive_once none h, receive_once none hagain]
      simp [Block.run, h]

/-- A device does what the blocks say, one after another. -/
theorem foldl_blocks {bs : List (Block φ)} (hbs : ∀ b ∈ bs, b.Fits R) (s : σ) :
    (bs.flatMap Block.frames).foldl (Device.receive R) ⟨s, none⟩ =
      ⟨bs.foldl (Block.run R) s, none⟩ := by
  induction bs generalizing s with
  | nil => rfl
  | cons b bs ih =>
    obtain ⟨hb, hrest⟩ := List.forall_mem_cons.mp hbs
    rw [List.flatMap_cons, List.foldl_append, foldl_block hb, ih hrest, List.foldl_cons]

end

end Confirm
