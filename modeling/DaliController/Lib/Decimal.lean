import Mathlib.Data.List.TakeWhile
import Mathlib.Data.Nat.Digits.Defs

/-! Decimal numbers as C prints and reads them: the digits of `%d`, and `atoi`. -/

namespace Decimal

def digitByte (d : Nat) : UInt8 := UInt8.ofNat (0x30 + d)

/-- The text that `%d` prints for a natural number. -/
def decimal (n : Nat) : List UInt8 :=
  if n = 0 then [0x30] else ((Nat.digits 10 n).map digitByte).reverse

/-- The text that `%d` prints. -/
def decimalInt (z : Int) : List UInt8 :=
  if z < 0 then 0x2D :: decimal z.natAbs else decimal z.natAbs

def IsSpace (b : UInt8) : Prop := b = 0x20 ∨ 0x09 ≤ b ∧ b ≤ 0x0D

instance : DecidablePred IsSpace := fun b =>
  inferInstanceAs (Decidable (b = 0x20 ∨ 0x09 ≤ b ∧ b ≤ 0x0D))

def IsDigit (b : UInt8) : Prop := 0x30 ≤ b ∧ b ≤ 0x39

instance : DecidablePred IsDigit := fun b => inferInstanceAs (Decidable (0x30 ≤ b ∧ b ≤ 0x39))

/-- The number that a string of digits writes. -/
def digitsValue (xs : List UInt8) : Nat :=
  xs.foldl (fun v b => 10 * v + (b.toNat - 0x30)) 0

/-- The digits at the start of a text, as a number. -/
def leadingValue (xs : List UInt8) : Nat := digitsValue (xs.takeWhile (IsDigit ·))

/-- `atoi`: white space, a sign, and digits up to the first other character. -/
def atoi (xs : List UInt8) : Int :=
  match xs.dropWhile (IsSpace ·) with
  | 0x2D :: ys => -(leadingValue ys : Int)
  | 0x2B :: ys => leadingValue ys
  | ys => leadingValue ys

theorem toNat_digitByte {d : Nat} (hd : d < 10) : (digitByte d).toNat = 0x30 + d := by
  rw [digitByte, UInt8.toNat_ofNat']
  exact Nat.mod_eq_of_lt (by omega)

theorem isDigit_digitByte {d : Nat} (hd : d < 10) : IsDigit (digitByte d) := by
  have h := toNat_digitByte hd
  constructor
  · rw [UInt8.le_iff_toNat_le, h]
    exact Nat.le_add_right _ _
  · rw [UInt8.le_iff_toNat_le, h]
    exact Nat.add_le_add_left (Nat.le_of_lt_succ hd) 0x30

theorem isDigit_of_mem_decimal {n : Nat} {b : UInt8} (hb : b ∈ decimal n) : IsDigit b := by
  unfold decimal at hb
  split at hb
  · obtain rfl := List.mem_singleton.mp hb
    decide
  · obtain ⟨d, hd, rfl⟩ := List.mem_map.mp (List.mem_reverse.mp hb)
    exact isDigit_digitByte (Nat.digits_lt_base (by decide) hd)

theorem decimal_ne_nil (n : Nat) : decimal n ≠ [] := by
  unfold decimal
  split
  · exact List.cons_ne_nil _ _
  · rename_i hn
    have hdigits : Nat.digits 10 n ≠ [] := Nat.digits_ne_nil_iff_ne_zero.mpr hn
    simpa using hdigits

theorem digitsValue_decimal (n : Nat) : digitsValue (decimal n) = n := by
  by_cases hn : n = 0
  · subst hn
    rfl
  · have hfold (ds : List Nat) (hds : ∀ d ∈ ds, d < 10) :
        digitsValue (ds.map digitByte).reverse = Nat.ofDigits 10 ds := by
      unfold digitsValue
      rw [List.foldl_reverse]
      induction ds with
      | nil => rfl
      | cons d ds ih =>
        rw [List.map_cons, List.foldr_cons, ih fun e he => hds e (List.mem_cons_of_mem _ he),
          toNat_digitByte (hds d List.mem_cons_self), Nat.ofDigits_cons, Nat.add_sub_cancel_left,
          Nat.add_comm]
    rw [decimal, if_neg hn, hfold _ fun d hd => Nat.digits_lt_base (by decide) hd,
      Nat.ofDigits_digits]

/-- A text of digits is all digits up to what follows it. -/
theorem leadingValue_of_digits {xs : List UInt8} (h : ∀ b ∈ xs, IsDigit b) :
    leadingValue xs = digitsValue xs := by
  unfold leadingValue
  rw [List.takeWhile_eq_self_iff.mpr fun b hb => decide_eq_true (h b hb)]

theorem atoi_of_digits {xs : List UInt8} (h : ∀ b ∈ xs, IsDigit b) :
    atoi xs = digitsValue xs := by
  have hlead := leadingValue_of_digits h
  cases xs with
  | nil => rfl
  | cons b ys =>
    have hb : IsDigit b := h b List.mem_cons_self
    have hspace : ¬IsSpace b := by
      rintro (rfl | ⟨-, hle⟩)
      · exact absurd hb (by decide)
      · exact absurd (UInt8.le_trans hb.1 hle) (by decide)
    have hdrop : (b :: ys).dropWhile (IsSpace ·) = b :: ys := by
      rw [List.dropWhile_cons, if_neg (by simpa using hspace)]
    unfold atoi
    rw [hdrop]
    split
    · rename_i heq
      obtain ⟨rfl, -⟩ := List.cons.inj heq
      exact absurd hb (by decide)
    · rename_i heq
      obtain ⟨rfl, -⟩ := List.cons.inj heq
      exact absurd hb (by decide)
    · exact congrArg Int.ofNat hlead

/-- Reading back what was printed. -/
theorem atoi_decimal (n : Nat) : atoi (decimal n) = n := by
  rw [atoi_of_digits fun b hb => isDigit_of_mem_decimal hb, digitsValue_decimal]

end Decimal
