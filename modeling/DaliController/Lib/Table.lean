import Mathlib.Data.List.Basic

/-! A table that is filled in order, the entries of a table after one is added or changed, and
selections from a list. -/

namespace Table

universe u v

variable {α β ι : Type*}

/-- An entry of the longer table is the new one or an old one. -/
theorem concat_cases {xs : List α} {a b : α} {k : Nat} (h : (xs ++ [a])[k]? = some b) :
    (k = xs.length ∧ b = a) ∨ (k < xs.length ∧ xs[k]? = some b) := by
  rcases Nat.lt_trichotomy k xs.length with hk | rfl | hk
  · rw [List.getElem?_append_left hk] at h
    exact Or.inr ⟨hk, h⟩
  · rw [List.getElem?_concat_length] at h
    exact Or.inl ⟨rfl, (Option.some.inj h).symm⟩
  · rw [List.getElem?_eq_none (by rw [List.length_append]; exact hk)] at h
    cases h

/-- An entry of the changed table is the changed one or an old one. -/
theorem set_cases {xs : List α} {a b : α} {i k : Nat} (h : (xs.set i a)[k]? = some b) :
    (k = i ∧ b = a) ∨ (k ≠ i ∧ xs[k]? = some b) := by
  rcases eq_or_ne k i with rfl | hk
  · rw [List.getElem?_set, if_pos rfl] at h
    split at h
    · exact Or.inl ⟨rfl, (Option.some.inj h).symm⟩
    · cases h
  · rw [List.getElem?_set_ne (Ne.symm hk)] at h
    exact Or.inr ⟨hk, h⟩

/-- Filling a table piece by piece, as long as nothing goes wrong. -/
theorem foldlM_flatMap {m : Type u → Type v} [Monad m] [LawfulMonad m] {σ : Type u}
    (put : σ → α → m σ) (f : ι → List α) (is : List ι) (s : σ) :
    is.foldlM (fun s i => (f i).foldlM put s) s = (is.flatMap f).foldlM put s := by
  induction is generalizing s with
  | nil => rfl
  | cons i is ih =>
    rw [List.foldlM_cons, List.flatMap_cons, List.foldlM_append]
    exact bind_congr fun t => ih t

section

variable (p : Nat → α → Bool)

/-- The entries up to the first one that fails, from place `k` on. -/
def upTo : Nat → List α → List α
  | _, [] => []
  | k, a :: as => if p k a then a :: upTo (k + 1) as else []

theorem upTo_map (p : Nat → β → Bool) (f : α → β) (k : Nat) (xs : List α) :
    (upTo (fun i a => p i (f a)) k xs).map f = upTo p k (xs.map f) := by
  induction xs generalizing k with
  | nil => rfl
  | cons a as ih =>
    rw [upTo, List.map_cons, upTo]
    split
    · rw [List.map_cons, ih]
    · rfl

theorem upTo_sublist (k : Nat) (xs : List α) : (upTo p k xs).Sublist xs := by
  induction xs generalizing k with
  | nil => exact .refl _
  | cons a as ih =>
    rw [upTo]
    split
    · exact (ih (k + 1)).cons_cons a
    · exact List.nil_sublist _

/-- No entry fails if and only if all of them are there. -/
theorem upTo_eq_self_iff (k : Nat) (xs : List α) :
    upTo p k xs = xs ↔ ∀ w ∈ xs.zipIdx k, p w.2 w.1 = true := by
  induction xs generalizing k with
  | nil => simp [upTo]
  | cons a as ih =>
    rw [List.zipIdx_cons, List.forall_mem_cons, ← ih, upTo]
    split
    · rename_i h
      simp [h]
    · rename_i h
      simp [h]

end

/-- A selection from a list holds as much of everything as the list if and only if it leaves nothing
out. -/
theorem filter_map_perm_iff (p : α → Bool) (f : α → β) (xs : List α) :
    ((xs.filter p).map f).Perm (xs.map f) ↔ ∀ x ∈ xs, p x = true := by
  constructor
  · intro h
    have hlen := h.length_eq
    rw [List.length_map, List.length_map] at hlen
    exact List.length_filter_eq_length_iff.mp hlen
  · intro h
    rw [List.filter_eq_self.mpr h]

end Table
