import DaliController.Lib.Runs
import Mathlib.Logic.Function.Basic
import Mathlib.Order.Lattice

/-! Timers of which one fires at a time and is then armed again.  When a timer is armed for the
first of its times that is still to come, it fires once for each of them, but for those that pass
before it is armed again. -/

namespace Timers

open Runs

variable {ι τ : Type*}

/-- For when each timer is armed, and the one that has fired, with the time at which it did. -/
structure State (ι τ : Type*) where
  due : ι → τ
  fired : Option (ι × τ)

inductive Event (ι τ : Type*)
  | fire (i : ι) (now : τ)
  | rearm (now : τ)

def Event.time : Event ι τ → τ
  | .fire _ now => now
  | .rearm now => now

/-- The timer that fires. -/
def Event.fires : Event ι τ → List ι
  | .fire i _ => [i]
  | .rearm _ => []

/-- From when a timer fired until it was armed again. -/
structure Turn (ι τ : Type*) where
  timer : ι
  due : τ
  fired : τ
  rearmed : τ

variable [LinearOrder τ]

/-- The clock does not go back. -/
def Ticks (now : τ) (es : List (Event ι τ)) : Prop := (now :: es.map Event.time).Pairwise (· ≤ ·)

theorem Ticks.head {now : τ} {e : Event ι τ} {es : List (Event ι τ)} (h : Ticks now (e :: es)) :
    now ≤ e.time :=
  List.rel_of_pairwise_cons h List.mem_cons_self

theorem Ticks.tail {now : τ} {e : Event ι τ} {es : List (Event ι τ)} (h : Ticks now (e :: es)) :
    Ticks e.time es :=
  h.of_cons

/-- No timer has fired too early or behind the time `now`. -/
def Timely (now : τ) (s : State ι τ) : Prop := ∀ p ∈ s.fired, s.due p.1 ≤ p.2 ∧ p.2 ≤ now

/-- The turn that ends with an event. -/
def ended (s : State ι τ) : Event ι τ → Option (Turn ι τ)
  | .fire _ _ => none
  | .rearm now => s.fired.map fun p => ⟨p.1, s.due p.1, p.2, now⟩

variable [DecidableEq ι]

section

variable (next : ι → τ → τ)

def step (s : State ι τ) : Event ι τ → Option (State ι τ)
  | .fire i now =>
    if s.fired.isNone ∧ s.due i ≤ now then some { s with fired := some (i, now) } else none
  | .rearm now =>
    s.fired.map fun p => ⟨Function.update s.due p.1 (next p.1 now), none⟩

/-- The turns that end in a run. -/
def turns : State ι τ → List (Event ι τ) → List (Turn ι τ)
  | _, [] => []
  | s, e :: es => (ended s e).toList ++ (step next s e).elim [] fun s' => turns s' es

end

variable {next : ι → τ → τ}

/-- What a step does. -/
theorem step_cases {s s' : State ι τ} {e : Event ι τ} (h : step next s e = some s') :
    (∃ i now, e = .fire i now ∧ s.fired = none ∧ s.due i ≤ now ∧
      s' = { s with fired := some (i, now) }) ∨
    ∃ i at' now, e = .rearm now ∧ s.fired = some (i, at') ∧
      s' = ⟨Function.update s.due i (next i now), none⟩ := by
  cases e with
  | fire i now =>
    rw [step] at h
    split at h
    · rename_i hcond
      cases h
      exact .inl ⟨i, now, rfl, Option.isNone_iff_eq_none.mp hcond.1, hcond.2, rfl⟩
    · cases h
  | rearm now =>
    obtain ⟨⟨i, at'⟩, hfired, rfl⟩ := Option.map_eq_some_iff.mp h
    exact .inr ⟨i, at', now, rfl, hfired, rfl⟩

theorem timely_step {s s' : State ι τ} {e : Event ι τ} (hstep : step next s e = some s') :
    Timely e.time s' := by
  rcases step_cases hstep with ⟨i, t, rfl, -, hdue, rfl⟩ | ⟨i, at', t, rfl, -, rfl⟩
  · intro p hp
    cases hp
    exact ⟨hdue, le_refl _⟩
  · intro p hp
    cases hp

theorem turns_cons {s s' : State ι τ} {e : Event ι τ} (es : List (Event ι τ))
    (h : step next s e = some s') :
    turns next s (e :: es) = (ended s e).toList ++ turns next s' es := by
  rw [turns, h]
  rfl

theorem step_of_ended {s s' : State ι τ} {e : Event ι τ} {t : Turn ι τ}
    (h : step next s e = some s') (ht : t ∈ (ended s e).toList) :
    e = .rearm t.rearmed ∧ s.fired = some (t.timer, t.fired) ∧ t.due = s.due t.timer ∧
      s' = ⟨Function.update s.due t.timer (next t.timer t.rearmed), none⟩ := by
  rcases step_cases h with ⟨i, now, rfl, -⟩ | ⟨i, at', now, rfl, hfired, rfl⟩
  · cases ht
  · rw [ended, hfired, Option.map_some, Option.toList_some, List.mem_singleton] at ht
    subst ht
    exact ⟨rfl, hfired, rfl, rfl⟩

/-- Each timer that fires has its turn, unless it is still to be armed again. -/
theorem turns_fires {s s' : State ι τ} {es : List (Event ι τ)}
    (hrun : run (step next) s es = some s') :
    (s.fired.map Prod.fst).toList ++ es.flatMap Event.fires =
      (turns next s es).map Turn.timer ++ (s'.fired.map Prod.fst).toList := by
  induction es generalizing s with
  | nil =>
    cases hrun
    exact List.append_nil _
  | cons e es ih =>
    obtain ⟨u, hu, hrest⟩ := run_cons_eq_some hrun
    have hnext := ih hrest
    rw [turns_cons es hu, List.map_append, List.append_assoc, ← hnext]
    rcases step_cases hu with ⟨i, now, rfl, hfired, -, rfl⟩ | ⟨i, at', now, rfl, hfired, rfl⟩
    · rw [hfired]
      rfl
    · rw [ended, hfired]
      rfl

/-- Every turn starts in time. -/
theorem turns_timely {now : τ} {s s' : State ι τ} {es : List (Event ι τ)} (h : Timely now s)
    (hticks : Ticks now es) (hrun : run (step next) s es = some s') :
    ∀ t ∈ turns next s es, t.due ≤ t.fired ∧ t.fired ≤ t.rearmed := by
  induction es generalizing s now with
  | nil => simp [turns]
  | cons e es ih =>
    obtain ⟨u, hu, hrest⟩ := run_cons_eq_some hrun
    intro t ht
    rw [turns_cons es hu, List.mem_append] at ht
    rcases ht with ht | ht
    · obtain ⟨rfl, hfired, hdue, -⟩ := step_of_ended hu ht
      obtain ⟨hle, hat⟩ := h _ hfired
      exact ⟨hdue ▸ hle, le_trans hat hticks.head⟩
    · exact ih (timely_step hu) hticks.tail hrest t ht

/-- A timer fires for the time that it was armed for last. -/
theorem turns_due {now : τ} {s s' : State ι τ} {es : List (Event ι τ)} (hticks : Ticks now es)
    (hrun : run (step next) s es = some s') (i : ι) :
    ∀ t ∈ turns next s es, t.timer = i →
      t.due = s.due i ∨ ∃ r, now ≤ r ∧ t.due = next i r := by
  induction es generalizing s now with
  | nil => simp [turns]
  | cons e es ih =>
    obtain ⟨u, hu, hrest⟩ := run_cons_eq_some hrun
    intro t ht hti
    rw [turns_cons es hu, List.mem_append] at ht
    rcases ht with ht | ht
    · obtain ⟨-, -, hdue, -⟩ := step_of_ended hu ht
      exact .inl (hti ▸ hdue)
    · rcases ih hticks.tail hrest t ht hti with hdue | ⟨r, hr, hdue⟩
      · rcases step_cases hu with ⟨j, r, rfl, -, -, rfl⟩ | ⟨j, at', r, rfl, -, rfl⟩
        · exact .inl hdue
        · rcases eq_or_ne i j with rfl | hne
          · exact .inr ⟨r, hticks.head, by simpa using hdue⟩
          · exact .inl (by simpa [hne] using hdue)
      · exact .inr ⟨r, le_trans hticks.head hr, hdue⟩

section

variable (next) (i : ι)

/-- A timer is never armed for an earlier time than before, if it is armed for times to come. -/
theorem due_le_step {now : τ} {s s' : State ι τ} {e : Event ι τ} (h : Timely now s)
    (hnow : now ≤ e.time) (hnext : e.time < next i e.time) (hstep : step next s e = some s') :
    s.due i ≤ s'.due i := by
  rcases step_cases hstep with ⟨j, t, rfl, -, -, rfl⟩ | ⟨j, at', t, rfl, hfired, rfl⟩
  · exact le_refl _
  · rcases eq_or_ne i j with rfl | hne
    · obtain ⟨hdue, hat⟩ := h _ hfired
      show s.due i ≤ Function.update s.due i (next i t) i
      rw [Function.update_self]
      exact le_trans hdue (le_trans hat (le_trans hnow (le_of_lt hnext)))
    · show s.due i ≤ Function.update s.due j (next j t) i
      rw [Function.update_of_ne hne]

theorem due_le_turns {now : τ} (hnext : ∀ r, now ≤ r → r < next i r) {s s' : State ι τ}
    {es : List (Event ι τ)} (h : Timely now s) (hticks : Ticks now es)
    (hrun : run (step next) s es = some s') :
    ∀ t ∈ turns next s es, t.timer = i → s.due i ≤ t.due := by
  induction es generalizing s now with
  | nil => simp [turns]
  | cons e es ih =>
    obtain ⟨u, hu, hrest⟩ := run_cons_eq_some hrun
    intro t ht hti
    rw [turns_cons es hu, List.mem_append] at ht
    rcases ht with ht | ht
    · obtain ⟨-, -, hdue, -⟩ := step_of_ended hu ht
      rw [hdue, hti]
    · have hlater : ∀ r, e.time ≤ r → r < next i r := fun r hr =>
        hnext r (le_trans hticks.head hr)
      exact le_trans (due_le_step next i h hticks.head (hlater _ (le_refl _)) hu)
        (ih hlater (timely_step hu) hticks.tail hrest t ht hti)

/-- Between two turns of a timer it is armed for a time that is still to come. -/
theorem turns_apart {now : τ} (hnext : ∀ r, now ≤ r → r < next i r) {s s' : State ι τ}
    {es : List (Event ι τ)} (h : Timely now s) (hticks : Ticks now es)
    (hrun : run (step next) s es = some s') :
    (turns next s es).Pairwise fun t t' => t.timer = i → t'.timer = i → t.rearmed < t'.due := by
  induction es generalizing s now with
  | nil => exact List.Pairwise.nil
  | cons e es ih =>
    obtain ⟨u, hu, hrest⟩ := run_cons_eq_some hrun
    have htimely := timely_step hu
    have hlater : ∀ r, e.time ≤ r → r < next i r := fun r hr =>
      hnext r (le_trans hticks.head hr)
    rw [turns_cons es hu, List.pairwise_append]
    refine ⟨?_, ih hlater htimely hticks.tail hrest, ?_⟩
    · cases ended s e <;> simp
    · intro t ht t' ht' hti hti'
      have hdue := due_le_turns next i hlater htimely hticks.tail hrest t' ht' hti'
      obtain ⟨rfl, -, -, rfl⟩ := step_of_ended hu ht
      simp only [hti, Function.update_self] at hdue
      exact lt_of_lt_of_le (hlater _ (le_refl _)) hdue

/-- A time of the timer that passes in a run has its turn, or passes during one. -/
theorem turns_cover {now x : τ} (hfirst : ∀ r, now ≤ r → r < x → next i r ≤ x)
    {s s' : State ι τ} {es : List (Event ι τ)} (hticks : Ticks now es)
    (hrun : run (step next) s es = some s') (hlow : s.due i ≤ x) (hhigh : x < s'.due i) :
    ∃ t ∈ turns next s es, t.timer = i ∧ t.due ≤ x ∧ x ≤ t.rearmed := by
  induction es generalizing s now with
  | nil =>
    cases hrun
    exact absurd hlow (not_le_of_gt hhigh)
  | cons e es ih =>
    obtain ⟨u, hu, hrest⟩ := run_cons_eq_some hrun
    have hlift (hlow' : u.due i ≤ x) : ∃ t ∈ turns next s (e :: es),
        t.timer = i ∧ t.due ≤ x ∧ x ≤ t.rearmed := by
      obtain ⟨t, ht, hti⟩ := ih (fun r hr => hfirst r (le_trans hticks.head hr)) hticks.tail hrest
        hlow'
      exact ⟨t, by rw [turns_cons es hu]; exact List.mem_append_right _ ht, hti⟩
    rcases step_cases hu with ⟨j, r, rfl, -, -, rfl⟩ | ⟨j, at', r, rfl, hfired, rfl⟩
    · exact hlift hlow
    · rcases eq_or_ne i j with rfl | hne
      · rcases lt_or_ge r x with hrx | hxr
        · apply hlift
          show Function.update s.due i (next i r) i ≤ x
          rw [Function.update_self]
          exact hfirst r hticks.head hrx
        · refine ⟨⟨i, s.due i, at', r⟩, ?_, rfl, hlow, hxr⟩
          rw [turns_cons es hu, ended, hfired]
          exact List.mem_append_left _ (List.mem_singleton_self _)
      · apply hlift
        show Function.update s.due j (next j r) i ≤ x
        rwa [Function.update_of_ne hne]

/-- When a timer is always armed again before `x`, it has fired for that time exactly once. -/
theorem turns_once {now x : τ} (hnext : ∀ r, now ≤ r → r < next i r)
    (hfirst : ∀ r, now ≤ r → r < x → next i r ≤ x) {s s' : State ι τ} {es : List (Event ι τ)}
    (h : Timely now s) (hticks : Ticks now es) (hrun : run (step next) s es = some s')
    (hlow : s.due i ≤ x) (hhigh : x < s'.due i)
    (hsoon : ∀ t ∈ turns next s es, t.timer = i → t.due < x → t.rearmed < x) :
    ∃ t, (turns next s es).filter (fun t => t.timer = i ∧ t.due = x) = [t] := by
  have htimely := turns_timely h hticks hrun
  have hpairwise := (turns_apart next i hnext h hticks hrun).filter fun t => t.timer = i ∧ t.due = x
  obtain ⟨t, ht, hti, hdue, hx⟩ := turns_cover next i hfirst hticks hrun hlow hhigh
  have hdue' : t.due = x := by
    by_contra hne
    exact absurd hx (not_le_of_gt (hsoon t ht hti (lt_of_le_of_ne hdue hne)))
  have hmem : t ∈ (turns next s es).filter fun t => t.timer = i ∧ t.due = x :=
    List.mem_filter.mpr ⟨ht, by simp [hti, hdue']⟩
  have hall (u) (hu : u ∈ (turns next s es).filter fun t => t.timer = i ∧ t.due = x) :
      u.timer = i ∧ u.due = x ∧ x ≤ u.rearmed := by
    rw [List.mem_filter, decide_eq_true_eq] at hu
    obtain ⟨hdue, hat⟩ := htimely u hu.1
    exact ⟨hu.2.1, hu.2.2, hu.2.2 ▸ le_trans hdue hat⟩
  cases hlist : (turns next s es).filter fun t => t.timer = i ∧ t.due = x with
  | nil =>
    rw [hlist] at hmem
    cases hmem
  | cons u us =>
    cases us with
    | nil => exact ⟨u, rfl⟩
    | cons v us =>
      rw [hlist] at hall hpairwise
      obtain ⟨hui, -, hux⟩ := hall u List.mem_cons_self
      obtain ⟨hvi, hvx, -⟩ := hall v (List.mem_cons_of_mem u List.mem_cons_self)
      have hlater := List.rel_of_pairwise_cons hpairwise List.mem_cons_self hui hvi
      rw [hvx] at hlater
      exact absurd hux (not_le_of_gt hlater)

end

end Timers
