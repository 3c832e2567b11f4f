import Mathlib.Data.List.Basic

/-! Programs that copy bytes.  A copy that has a negative length, or does not end within its
destination, is the last thing such a program does. -/

namespace Copies

/-- The size of the destination and the number of bytes of a copy.  A negative number stands for
the `size_t` that it is converted to. -/
structure Copy where
  size : Nat
  length : Int
  deriving DecidableEq, Repr

def Copy.InBounds (k : Copy) : Prop := 0 ≤ k.length ∧ k.length ≤ k.size

instance : DecidablePred Copy.InBounds := fun k =>
  inferInstanceAs (Decidable (0 ≤ k.length ∧ k.length ≤ k.size))

/-- A program with a result, or with the first copy that was out of bounds. -/
abbrev Copying (α : Type) : Type := Except Copy α

def copy (size : Nat) (length : Int) : Copying Unit :=
  if Copy.InBounds ⟨size, length⟩ then .ok () else .error ⟨size, length⟩

@[simp] theorem copy_eq_ok {size : Nat} {length : Int} :
    copy size length = .ok () ↔ 0 ≤ length ∧ length ≤ size := by
  unfold copy
  split
  · rename_i h
    exact iff_of_true rfl h
  · rename_i h
    exact iff_of_false nofun h

variable {α β : Type}

theorem bind_eq_ok {m : Copying α} {f : α → Copying β} {b : β} :
    (m >>= f) = .ok b ↔ ∃ a, m = .ok a ∧ f a = .ok b := by
  cases m with
  | error k =>
    refine iff_of_false nofun ?_
    rintro ⟨a, h, -⟩
    cases h
  | ok a =>
    constructor
    · intro h
      exact ⟨a, rfl, h⟩
    · rintro ⟨a', h, hf⟩
      cases h
      exact hf

/-- Copies before the rest of a program. -/
theorem seq_eq_ok {m : Copying Unit} {n : Copying β} {b : β} :
    (m >>= fun _ => n) = .ok b ↔ m = .ok () ∧ n = .ok b := by
  rw [bind_eq_ok]
  constructor
  · rintro ⟨_, hm, hn⟩
    exact ⟨hm, hn⟩
  · rintro ⟨hm, hn⟩
    exact ⟨(), hm, hn⟩

/-- A loop has a result exactly if all its rounds have one. -/
theorem forM_eq_ok {xs : List α} {f : α → Copying Unit} :
    xs.forM f = .ok () ↔ ∀ x ∈ xs, f x = .ok () := by
  induction xs with
  | nil => exact iff_of_true rfl (List.forall_mem_nil _)
  | cons x xs ih =>
    have hcons : (x :: xs).forM f = f x >>= fun _ => xs.forM f := rfl
    rw [hcons, seq_eq_ok, ih, List.forall_mem_cons]

end Copies
