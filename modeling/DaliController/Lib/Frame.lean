import Mathlib.Order.Defs.Unbundled

/-! Frame rules for programs in a state monad.  A program keeps a relation when the state it starts
from and the state it leaves are always related.  Programs built from parts that keep a preorder
keep it themselves. -/

namespace Frame

variable {σ α β : Type} {R : σ → σ → Prop}

def Keeps (R : σ → σ → Prop) (m : StateM σ α) : Prop := ∀ s, R s (Id.run (m.run s)).2

theorem Keeps.run {m : StateM σ α} (h : Keeps R m) {s s' : σ} {a : α}
    (hrun : m.run s = pure (a, s')) : R s s' := by
  have hs := h s
  rw [hrun] at hs
  exact hs

theorem Keeps.mono {S : σ → σ → Prop} {m : StateM σ α} (h : Keeps R m)
    (hRS : ∀ s s', R s s' → S s s') : Keeps S m :=
  fun s => hRS _ _ (h s)

theorem keeps_modify {f : σ → σ} (h : ∀ s, R s (f s)) : Keeps R (modify f : StateM σ PUnit) := h

theorem keeps_modifyGet {f : σ → α × σ} (h : ∀ s, R s (f s).2) :
    Keeps R (modifyGet f : StateM σ α) := h

section Preorder

variable [IsPreorder σ R]

theorem keeps_pure (a : α) : Keeps R (pure a : StateM σ α) := fun s => refl_of R s

theorem keeps_get : Keeps R (get : StateM σ σ) := fun s => refl_of R s

theorem keeps_bind {m : StateM σ α} {f : α → StateM σ β} (hm : Keeps R m)
    (hf : ∀ a, Keeps R (f a)) : Keeps R (m >>= f) :=
  fun s => trans_of R (hm s) (hf _ _)

end Preorder

theorem keeps_ite {p : Prop} [Decidable p] {m n : StateM σ α} (hm : Keeps R m) (hn : Keeps R n) :
    Keeps R (if p then m else n) := by
  by_cases h : p
  · rwa [if_pos h]
  · rwa [if_neg h]

end Frame
