import Mathlib.Computability.Language

/-! Wildcard patterns.  A piece of a pattern stands for one letter of some kind, or for any number
of them, and the language of a pattern is the product of the languages of its pieces.  A matcher
that finds the end of a run by trial has to look at the suffixes that the run can reach. -/

namespace Glob

variable {α : Type}

inductive Piece (α : Type)
  | one (p : α → Bool)
  | run (p : α → Bool)

def Piece.language : Piece α → Language α
  | one p => {w | ∃ a, p a = true ∧ w = [a]}
  | run p => {w | ∀ a ∈ w, p a = true}

def language (ps : List (Piece α)) : Language α := (ps.map Piece.language).prod

/-- The suffixes with at least one letter in front of which only letters of the run stand. -/
def starts (p : α → Bool) : List α → List (List α)
  | [] => []
  | a :: w => (a :: w) :: if p a then starts p w else []

variable {p : α → Bool} {L : Language α} {w : List α}

theorem mem_one_mul :
    w ∈ (Piece.one p).language * L ↔ ∃ a v, w = a :: v ∧ p a = true ∧ v ∈ L := by
  rw [Language.mem_mul]
  constructor
  · rintro ⟨_, ⟨a, ha, rfl⟩, v, hv, rfl⟩
    exact ⟨a, v, rfl, ha, hv⟩
  · rintro ⟨a, v, rfl, ha, hv⟩
    exact ⟨[a], ⟨a, ha, rfl⟩, v, hv, rfl⟩

theorem nil_not_mem_one_mul : [] ∉ (Piece.one p).language * L := by
  rw [mem_one_mul]
  rintro ⟨a, v, heq, -⟩
  cases heq

theorem mem_run_mul : w ∈ (Piece.run p).language * L ↔
    ∃ u v, w = u ++ v ∧ (∀ a ∈ u, p a = true) ∧ v ∈ L := by
  rw [Language.mem_mul]
  constructor
  · rintro ⟨u, hu, v, hv, rfl⟩
    exact ⟨u, v, rfl, hu, hv⟩
  · rintro ⟨u, v, rfl, hu, hv⟩
    exact ⟨u, hu, v, hv, rfl⟩

theorem mem_run_mul_of_mem (h : w ∈ L) : w ∈ (Piece.run p).language * L :=
  mem_run_mul.mpr ⟨[], w, rfl, fun _ ha => absurd ha List.not_mem_nil, h⟩

/-- A run ends here, or goes on with a letter. -/
theorem cons_mem_run_mul {a : α} : a :: w ∈ (Piece.run p).language * L ↔
    a :: w ∈ L ∨ p a = true ∧ w ∈ (Piece.run p).language * L := by
  rw [mem_run_mul, mem_run_mul]
  constructor
  · rintro ⟨u, v, heq, hu, hv⟩
    cases u with
    | nil => exact .inl (heq ▸ hv)
    | cons b u =>
      obtain ⟨rfl, rfl⟩ := List.cons.inj heq
      obtain ⟨ha, hu⟩ := List.forall_mem_cons.mp hu
      exact .inr ⟨ha, u, v, rfl, hu, hv⟩
  · rintro (h | ⟨ha, u, v, rfl, hu, hv⟩)
    · exact ⟨[], a :: w, rfl, fun _ hb => absurd hb List.not_mem_nil, h⟩
    · exact ⟨a :: u, v, rfl, List.forall_mem_cons.mpr ⟨ha, hu⟩, hv⟩

/-- Two runs in a row are one. -/
theorem run_mul_run :
    (Piece.run p).language * ((Piece.run p).language * L) = (Piece.run p).language * L := by
  ext w
  constructor
  · intro h
    obtain ⟨u, v, rfl, hu, hv⟩ := mem_run_mul.mp h
    obtain ⟨u', v', rfl, hu', hv'⟩ := mem_run_mul.mp hv
    refine mem_run_mul.mpr ⟨u ++ u', v', (List.append_assoc ..).symm, fun a ha => ?_, hv'⟩
    exact (List.mem_append.mp ha).elim (hu a) (hu' a)
  · exact mem_run_mul_of_mem

/-- If something has to follow the run, the suffixes with a letter are enough. -/
theorem mem_run_mul_iff_starts (hL : [] ∉ L) :
    w ∈ (Piece.run p).language * L ↔ ∃ v ∈ starts p w, v ∈ L := by
  induction w with
  | nil =>
    refine iff_of_false (fun h => ?_) (fun ⟨v, hv, _⟩ => absurd hv List.not_mem_nil)
    obtain ⟨u, v, heq, -, hv⟩ := mem_run_mul.mp h
    obtain ⟨-, rfl⟩ := List.append_eq_nil_iff.mp heq.symm
    exact hL hv
  | cons a w ih =>
    rw [cons_mem_run_mul, starts]
    by_cases ha : p a = true
    · rw [if_pos ha, ih]
      simp [ha]
    · rw [if_neg ha]
      simp [ha]

/-- If what follows the run starts with a letter that is not of it, the run ends at the first such
letter. -/
theorem mem_run_mul_iff_dropWhile (hL : ∀ v ∈ L, ∃ a ∈ v.head?, p a = false) :
    w ∈ (Piece.run p).language * L ↔ w.dropWhile p ∈ L := by
  induction w with
  | nil =>
    refine iff_of_false (fun h => ?_) (fun h => ?_)
    · obtain ⟨u, v, heq, -, hv⟩ := mem_run_mul.mp h
      obtain ⟨-, rfl⟩ := List.append_eq_nil_iff.mp heq.symm
      obtain ⟨a, ha, -⟩ := hL _ hv
      cases ha
    · obtain ⟨a, ha, -⟩ := hL _ h
      cases ha
  | cons a w ih =>
    rw [cons_mem_run_mul, List.dropWhile_cons, ih]
    by_cases ha : p a = true
    · have hnot : a :: w ∉ L := by
        intro h
        obtain ⟨b, hb, hpb⟩ := hL _ h
        cases hb
        rw [ha] at hpb
        cases hpb
      simp [ha, hnot]
    · simp [ha]

end Glob
