import Mathlib.Data.Finset.Card
import Mathlib.Data.Finset.Max

/-! Ranks and runs in a finite set of numbers.  The rank of a number counts the elements below it;
the run before it counts the elements that end right below it without a gap. -/

namespace Ranks

variable {D : Finset Nat} {a t : Nat}

def rank (D : Finset Nat) (a : Nat) : Nat := (D.filter (· < a)).card

/-- The number of consecutive elements right below `a`. -/
def runBefore (D : Finset Nat) : Nat → Nat
  | 0 => 0
  | a + 1 => if a ∈ D then runBefore D a + 1 else 0

/-- The first element from `t` on. -/
structure Next (D : Finset Nat) (t a : Nat) : Prop where
  mem : a ∈ D
  le : t ≤ a
  least : ∀ b ∈ D, t ≤ b → a ≤ b

theorem Next.of_mem (h : t ∈ D) : Next D t t := ⟨h, le_rfl, fun _ _ hb => hb⟩

/-- Either no element is left from `t` on, or there is a first one. -/
theorem next_cases (D : Finset Nat) (t : Nat) : (∀ a ∈ D, a < t) ∨ ∃ a, Next D t a := by
  by_cases h : ∃ a ∈ D, t ≤ a
  · have hne : (D.filter (t ≤ ·)).Nonempty := by
      obtain ⟨a, ha, hta⟩ := h
      exact ⟨a, Finset.mem_filter.mpr ⟨ha, hta⟩⟩
    obtain ⟨hmem, hle⟩ := Finset.mem_filter.mp (Finset.min'_mem _ hne)
    refine Or.inr ⟨_, hmem, hle, ?_⟩
    intro b hb htb
    exact Finset.min'_le _ _ (Finset.mem_filter.mpr ⟨hb, htb⟩)
  · refine Or.inl fun a ha => ?_
    by_contra hta
    exact h ⟨a, ha, by omega⟩

theorem rank_succ_of_mem (ha : a ∈ D) : rank D (a + 1) = rank D a + 1 := by
  have hfilter : D.filter (· < a + 1) = insert a (D.filter (· < a)) := by
    ext b
    simp only [Finset.mem_filter, Finset.mem_insert]
    constructor
    · rintro ⟨hb, hlt⟩
      by_cases hba : b = a
      · exact Or.inl hba
      · exact Or.inr ⟨hb, by omega⟩
    · rintro (rfl | ⟨hb, hlt⟩)
      · exact ⟨ha, by omega⟩
      · exact ⟨hb, by omega⟩
  rw [rank, hfilter, Finset.card_insert_of_notMem (by simp), rank]

theorem rank_add {i : Nat} (h : ∀ j < i, a + j ∈ D) : rank D (a + i) = rank D a + i := by
  induction i with
  | zero => rfl
  | succ i ih =>
    rw [← Nat.add_assoc, rank_succ_of_mem (h i (by omega)), ih fun j hj => h j (by omega)]
    omega

theorem Next.rank_eq (h : Next D t a) : rank D a = rank D t := by
  have hfilter : D.filter (· < a) = D.filter (· < t) := by
    ext b
    simp only [Finset.mem_filter, and_congr_right_iff]
    intro hb
    have hle := h.le
    have hleast := h.least b hb
    omega
  rw [rank, hfilter, rank]

theorem rank_lt_card (ha : a ∈ D) : rank D a < D.card := by
  apply Finset.card_lt_card
  refine Finset.filter_ssubset.mpr ⟨a, ha, by omega⟩

theorem rank_eq_card (h : ∀ a ∈ D, a < t) : rank D t = D.card := by
  rw [rank, Finset.filter_true_of_mem h]

theorem rank_mono {b : Nat} (h : a ≤ b) : rank D a ≤ rank D b := by
  apply Finset.card_le_card
  intro x hx
  simp only [Finset.mem_filter] at hx ⊢
  exact ⟨hx.1, by omega⟩

theorem rank_lt_of_mem {b : Nat} (ha : a ∈ D) (hab : a < b) : rank D a < rank D b := by
  have hsucc := rank_succ_of_mem ha
  have hmono : rank D (a + 1) ≤ rank D b := rank_mono hab
  omega

/-- The ranks of the elements are the numbers below the size of the set. -/
theorem exists_rank_eq {k : Nat} (hk : k < D.card) : ∃ a ∈ D, rank D a = k := by
  have himage : D.image (rank D) = Finset.range D.card := by
    apply Finset.eq_of_subset_of_card_le
    · intro k hk
      obtain ⟨a, ha, rfl⟩ := Finset.mem_image.mp hk
      exact Finset.mem_range.mpr (rank_lt_card ha)
    · rw [Finset.card_range, Finset.card_image_of_injOn]
      intro a ha b hb hab
      rcases Nat.lt_trichotomy a b with hlt | heq | hgt
      · have := rank_lt_of_mem (Finset.mem_coe.mp ha) hlt
        omega
      · exact heq
      · have := rank_lt_of_mem (Finset.mem_coe.mp hb) hgt
        omega
  have hmem : k ∈ D.image (rank D) := by
    rw [himage]
    exact Finset.mem_range.mpr hk
  exact Finset.mem_image.mp hmem

theorem runBefore_add {i : Nat} (h : ∀ j < i, a + j ∈ D) :
    runBefore D (a + i) = runBefore D a + i := by
  induction i with
  | zero => rfl
  | succ i ih =>
    rw [← Nat.add_assoc, runBefore, if_pos (h i (by omega)), ih fun j hj => h j (by omega)]
    omega

/-- The first element after a gap has no run before it. -/
theorem Next.runBefore_eq_zero (h : Next D t a) (ht : t ∉ D) : runBefore D a = 0 := by
  cases a with
  | zero => rfl
  | succ a =>
    have hle := h.le
    have hne : t ≠ a + 1 := fun he => ht (he ▸ h.mem)
    have hgap : a ∉ D := by
      intro ha
      have := h.least a ha (by omega)
      omega
    rw [runBefore, if_neg hgap]

end Ranks
