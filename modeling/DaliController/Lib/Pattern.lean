import Mathlib.Data.List.Chain
import Mathlib.Data.List.Infix

/-! The first place where a character stands twice in a row, as hardware that watches for such a
pattern finds it.  A body in front of the pattern is cut off whole exactly if no pattern is found
earlier, in the body or across its end. -/

namespace Pattern

variable {α : Type*} {c : α}

/-- No two consecutive elements are both `c`. -/
abbrev NoPair (c : α) (xs : List α) : Prop := xs.IsChain fun a b => ¬(a = c ∧ b = c)

theorem noPair_append {xs ys : List α} : NoPair c (xs ++ ys) ↔
    NoPair c xs ∧ NoPair c ys ∧ ¬(xs.getLast? = some c ∧ ys.head? = some c) := by
  rw [NoPair, List.isChain_append]
  refine and_congr_right fun _ => and_congr_right fun _ => ?_
  constructor
  · rintro h ⟨hx, hy⟩
    exact h c hx c hy ⟨rfl, rfl⟩
  · rintro h x hx y hy ⟨rfl, rfl⟩
    exact h ⟨hx, hy⟩

theorem noPair_iff {xs : List α} : NoPair c xs ↔ ¬[c, c] <:+: xs := by
  induction xs with
  | nil => simp
  | cons a xs ih =>
    rw [List.infix_cons_iff, not_or, ← ih]
    cases xs with
    | nil => simp
    | cons b xs =>
      rw [NoPair, List.isChain_cons_cons]
      refine and_congr_left fun _ => not_congr ?_
      simp [List.cons_prefix_cons, eq_comm]

/-- The position of the first `c` that another one follows. -/
def pairPos [DecidableEq α] (c : α) : List α → Option Nat
  | [] => none
  | [_] => none
  | a :: b :: xs => if a = c ∧ b = c then some 0 else (pairPos c (b :: xs)).map (· + 1)

theorem pairPos_eq_none [DecidableEq α] {xs : List α} : pairPos c xs = none ↔ NoPair c xs := by
  induction xs with
  | nil => simp [pairPos]
  | cons a xs ih =>
    cases xs with
    | nil => simp [pairPos]
    | cons b xs =>
      rw [NoPair] at ih ⊢
      rw [pairPos, List.isChain_cons_cons, ← ih]
      split_ifs with hab
      · simp [hab]
      · simp [hab]

/-- The pattern after a body is found first exactly if the body has none, and does not end in its
character. -/
theorem pairPos_append_pair [DecidableEq α] {xs : List α} :
    pairPos c (xs ++ [c, c]) = some xs.length ↔ NoPair c (xs ++ [c]) := by
  induction xs with
  | nil => simp [pairPos]
  | cons a xs ih =>
    cases xs with
    | nil => by_cases ha : a = c <;> simp [pairPos, ha]
    | cons b xs =>
      simp only [List.cons_append, pairPos, List.length_cons] at ih ⊢
      rw [NoPair] at ih ⊢
      rw [List.isChain_cons_cons, ← ih]
      by_cases hab : a = c ∧ b = c
      · simp [hab]
      · rw [if_neg hab]
        simp [hab]

end Pattern
