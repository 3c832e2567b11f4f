import DaliController.Search.MinSearch
import Mathlib.Order.Bounds.Defs

/-! `find_min_number` over any bus that answers comparisons, whether the answer no is a reply or
silence: it ends on the number just below the smallest random address that takes part. -/

namespace DaliController.Search

open Dali

/-- The bus on which a comparison is answered no by silence or by the reply 0x00. -/
def comparingOps (P : Population) (cast : UInt8 → Backword) (silent : Bool) : BusOps Net where
  send := netSend
  exchange f n :=
    (if f = specialCommand 0x04 0x00 then
      if n.Compares P then some 0xFF else if silent then none else some 0x00
    else netReply P f n, netSend f n)
  cast := cast

section Comparing

variable (P : Population) (cast : UInt8 → Backword) (silent : Bool)

theorem comparing_comparingOps :
    Comparing (comparingOps P cast silent) World.load (Answered P) := by
  refine comparing_of rfl fun w => ?_
  by_cases h : w.bus.Compares P
  · refine ⟨.yes, ?_, by simp [h, answer]⟩
    simp [sendReceive, exchangeAgain, comparingOps, h, backward]
  · cases silent with
    | true =>
      refine ⟨.timeout, ?_, by simp [h, answer]⟩
      simp [sendReceive, exchangeAgain, comparingOps, h, backward]
    | false =>
      refine ⟨.no, ?_, by simp [h, answer]⟩
      simp [sendReceive, exchangeAgain, comparingOps, h, backward]

/-- The comparisons are answered from the smallest address that takes part on. -/
theorem answeredFrom_of_isLeast {P : Population} {w : World Net} {A : Nat}
    (hA : IsLeast {a | a ∈ P.devices ∧ w.bus.withdrawn a = false} A) : AnsweredFrom P w A := by
  intro r
  constructor
  · rintro ⟨a, ha, hactive, hle⟩
    exact le_trans (hA.2 ⟨ha, hactive⟩) hle
  · intro hle
    exact ⟨A, hA.1.1, hA.1.2, hle⟩

/-- Whatever search address the devices held before, the search ends on the predecessor of the
smallest random address that takes part. -/
theorem find_min_number_predecessor {w : World Net} {A : Nat}
    (hA : IsLeast {a | a ∈ P.devices ∧ w.bus.withdrawn a = false} A) (hpos : 1 ≤ A) :
    ∃ r w', (findMinNumber (comparingOps P cast silent) ⟨0, 0, 0⟩).run w = pure (r, w') ∧
      r.h.toNat * 65536 + r.m.toNat * 256 + r.l.toNat + 1 = A := by
  obtain ⟨r, r', hrun, hr⟩ := findMinNumber_run_of (comparing_comparingOps P cast silent)
    (answeredFrom_of_isLeast hA) (P.random_lt A hA.1.1)
  refine ⟨r, w.load r', hrun, ?_⟩
  have haddr : r.h.toNat * 65536 + r.m.toNat * 256 + r.l.toNat = A - 1 := hr
  rw [haddr]
  exact Nat.sub_add_cancel hpos

end Comparing

/-- Devices on both sides of a 16-bit boundary, of which the first one is withdrawn. -/
def threeLamps : Population := ⟨{0x00FFFF, 0x010000, 0x7F0180}, by decide⟩

def firstWithdrawn : World Net where
  bus := ⟨0x12, 0x34, 0x56, fun a => decide (a = 0x00FFFF), fun _ => none⟩
  gear _ := ⟨200, 0, 0⟩
  init := []
  retry := 0

theorem find_min_number_predecessor_threeLamps :
    ∃ r w', (findMinNumber (comparingOps threeLamps .other false) ⟨0, 0, 0⟩).run firstWithdrawn =
      pure (r, w') ∧ r.h.toNat * 65536 + r.m.toNat * 256 + r.l.toNat + 1 = 0x010000 := by
  have hleast : IsLeast {a | a ∈ threeLamps.devices ∧ firstWithdrawn.bus.withdrawn a = false}
      0x010000 := by
    refine ⟨⟨by decide, by decide⟩, ?_⟩
    rintro a ⟨ha, hactive⟩
    simp only [threeLamps, Finset.mem_insert, Finset.mem_singleton] at ha
    rcases ha with rfl | rfl | rfl
    · exact absurd hactive (by decide)
    · exact Nat.le_refl _
    · exact Nat.le_of_ble_eq_true rfl
  exact find_min_number_predecessor threeLamps .other false hleast (by decide)

end DaliController.Search
