import Mathlib.Data.List.Basic

/-! C strings, as the bytes in front of their NUL. -/

namespace CString

/-- The contents of a C string. -/
structure Text where
  bytes : List UInt8
  nul_free : 0 ∉ bytes

/-- The text that a buffer holds as a C string. -/
def cstring (buf : List UInt8) : List UInt8 := buf.takeWhile (· ≠ 0)

theorem cstring_of_nul_free {xs : List UInt8} (h : 0 ∉ xs) (ys : List UInt8) :
    cstring (xs ++ ys) = xs ++ cstring ys := by
  refine List.takeWhile_append_of_pos fun b hb => decide_eq_true fun hzero => ?_
  exact h (hzero ▸ hb)

theorem zero_not_mem_cstring (buf : List UInt8) : 0 ∉ cstring buf := by
  intro h
  have hall : (cstring buf).all (· ≠ 0) = true := List.all_takeWhile
  exact absurd (List.all_eq_true.mp hall 0 h) (by decide)

theorem cstring_eq_self {xs : List UInt8} (h : 0 ∉ xs) : cstring xs = xs := by
  have happ := cstring_of_nul_free h []
  rwa [List.append_nil, show cstring [] = [] from rfl, List.append_nil] at happ

/-- What stands behind a NUL is not part of the string. -/
theorem cstring_append_nul (xs ys : List UInt8) : cstring (xs ++ 0 :: ys) = cstring xs := by
  induction xs with
  | nil => rfl
  | cons x xs ih =>
    unfold cstring at ih ⊢
    rw [List.cons_append, List.takeWhile_cons, List.takeWhile_cons, ih]

theorem head?_cstring {xs : List UInt8} {b : UInt8} (hb : b ≠ 0) :
    (cstring xs).head? = some b ↔ xs.head? = some b := by
  cases xs with
  | nil => exact Iff.rfl
  | cons x xs =>
    by_cases hx : x = 0
    · subst hx
      exact iff_of_false nofun fun h => hb (Option.some.inj h).symm
    · simp [cstring, hx]

theorem cstring_append_zeros (text : Text) (n : Nat) :
    cstring (text.bytes ++ List.replicate n 0) = text.bytes := by
  rw [cstring_of_nul_free text.nul_free]
  cases n with
  | zero => exact List.append_nil _
  | succ n => exact List.append_nil _

end CString
