import Mathlib.Data.Nat.Notation

/-! Programs in a state monad whose loops may only go through a given number of rounds, and have no
result when they need more.  A program with enough rounds is a total one. -/

namespace Rounds

variable {σ α β : Type}

abbrev Bounded (σ α : Type) := StateT σ Option α

def outOfRounds : Bounded σ α := fun _ => none

/-- A program that always has a result. -/
def total (p : StateM σ α) : Bounded σ α := fun s => some (Id.run (p.run s))

theorem total_run (p : StateM σ α) (s : σ) : (total p).run s = some (Id.run (p.run s)) := rfl

theorem total_bind (p : StateM σ α) (f : α → StateM σ β) :
    total (p >>= f) = total p >>= fun a => total (f a) := rfl

theorem total_ite (c : Prop) [Decidable c] (p q : StateM σ α) :
    total (if c then p else q) = if c then total p else total q :=
  apply_ite total c p q

/-- A program that goes on when it has rounds left. -/
theorem run_bind_of_eq {m : Bounded σ α} {s s' : σ} {a : α} (h : m.run s = some (a, s'))
    (f : α → Bounded σ β) : (m >>= f).run s = (f a).run s' := by
  rw [StateT.run_bind, h]
  rfl

/-- A program has the same result with every number of rounds from some number on. -/
def Terminates (p : Nat → Bounded σ α) : Prop :=
  ∃ n, ∀ s, ∃ x, ∀ rounds ≥ n, (p rounds).run s = some x

theorem terminates_of_total {p : Nat → Bounded σ α} {q : StateM σ α} (n : Nat)
    (h : ∀ rounds ≥ n, p rounds = total q) : Terminates p := by
  refine ⟨n, fun s => ⟨Id.run (q.run s), fun rounds hrounds => ?_⟩⟩
  rw [h rounds hrounds, total_run]

end Rounds
