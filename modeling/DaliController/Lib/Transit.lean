import Mathlib.Data.List.Basic

/-! Numbered items in a queue, in order and among others.  What the queue holds between two numbers
is told by the numbers alone: the front is another item or the next one, and at the end others or
the one after the last may join. -/

namespace Transit

variable {α : Type*} {item : Nat → α → Prop} {other : α → Prop}

/-- The queue holds the items `p`, ..., `n - 1`, in this order, and others. -/
inductive Carries (item : Nat → α → Prop) (other : α → Prop) : Nat → Nat → List α → Prop
  | nil (n : Nat) : Carries item other n n []
  | other {p n : Nat} {x : α} {xs : List α} (hx : other x) (h : Carries item other p n xs) :
    Carries item other p n (x :: xs)
  | item {p n : Nat} {x : α} {xs : List α} (hx : item p x) (h : Carries item other (p + 1) n xs) :
    Carries item other p n (x :: xs)

namespace Carries

variable {p n : Nat} {xs : List α}

theorem le (h : Carries item other p n xs) : p ≤ n := by
  induction h with
  | nil n => exact Nat.le_refl n
  | other _ _ ih => exact ih
  | item _ _ ih => exact Nat.le_of_succ_le ih

theorem of_others (n : Nat) (h : ∀ x ∈ xs, other x) : Carries item other n n xs := by
  induction xs with
  | nil => exact .nil n
  | cons x xs ih =>
    obtain ⟨hx, hxs⟩ := List.forall_mem_cons.mp h
    exact .other hx (ih hxs)

theorem append_others (h : Carries item other p n xs) {ys : List α} (hys : ∀ y ∈ ys, other y) :
    Carries item other p n (xs ++ ys) := by
  induction h with
  | nil n => exact of_others n hys
  | other hx _ ih => exact .other hx ih
  | item hx _ ih => exact .item hx ih

theorem append_item (h : Carries item other p n xs) {y : α} (hy : item n y) :
    Carries item other p (n + 1) (xs ++ [y]) := by
  induction h with
  | nil n => exact .item hy (.nil _)
  | other hx _ ih => exact .other hx (ih hy)
  | item hx _ ih => exact .item hx (ih hy)

/-- When all that the queue holds is other than the items, there is nothing left of them. -/
theorem eq_of_others (h : Carries item other p n xs) (hxs : ∀ x ∈ xs, ∀ i, ¬item i x) : p = n := by
  induction h with
  | nil n => rfl
  | other _ _ ih => exact ih fun x hx => hxs x (List.mem_cons_of_mem _ hx)
  | item hx _ _ => exact absurd hx (hxs _ List.mem_cons_self _)

theorem others (h : Carries item other n n xs) : ∀ x ∈ xs, other x := by
  induction xs with
  | nil => simp
  | cons x xs ih =>
    cases h with
    | other hx h => exact List.forall_mem_cons.mpr ⟨hx, ih h⟩
    | item _ h => exact absurd h.le (Nat.not_succ_le_self n)

end Carries

end Transit
