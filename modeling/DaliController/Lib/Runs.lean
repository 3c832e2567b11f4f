import Mathlib.Data.List.Basic

/-! Runs of a step function over a list of events.  A step may be disabled in a state, and then the
run has no result.  An invariant of one step is an invariant of every run, also when a step keeps it
only under a condition that every step of the run meets. -/

namespace Runs

variable {σ ε : Type*} {step : σ → ε → Option σ}

/-- The state after the events of a list, if every step is enabled. -/
def run (step : σ → ε → Option σ) : σ → List ε → Option σ
  | s, [] => some s
  | s, e :: es => (step s e).bind fun s' => run step s' es

@[simp] theorem run_nil (s : σ) : run step s [] = some s := rfl

@[simp] theorem run_cons (s : σ) (e : ε) (es : List ε) :
    run step s (e :: es) = (step s e).bind fun s' => run step s' es := rfl

theorem run_cons_eq_some {s s' : σ} {e : ε} {es : List ε} (h : run step s (e :: es) = some s') :
    ∃ t, step s e = some t ∧ run step t es = some s' :=
  Option.bind_eq_some_iff.mp h

theorem run_append (s : σ) (es fs : List ε) :
    run step s (es ++ fs) = (run step s es).bind fun s' => run step s' fs := by
  induction es generalizing s with
  | nil => rfl
  | cons e es ih =>
    simp only [List.cons_append, run_cons, Option.bind_assoc]
    exact Option.bind_congr fun s' _ => ih s'

theorem run_append_of {s t u : σ} {es fs : List ε} (h1 : run step s es = some t)
    (h2 : run step t fs = some u) : run step s (es ++ fs) = some u := by
  rw [run_append, h1, Option.bind_some, h2]

/-- Every step of the run from `s`, as far as it is enabled, meets the condition `C`. -/
def Meets (step : σ → ε → Option σ) (C : σ → ε → Prop) : σ → List ε → Prop
  | _, [] => True
  | s, e :: es => C s e ∧ ∀ s', step s e = some s' → Meets step C s' es

instance decidableMeets {C : σ → ε → Prop} [∀ s e, Decidable (C s e)] :
    ∀ s es, Decidable (Meets step C s es)
  | _, [] => inferInstanceAs (Decidable True)
  | s, e :: es =>
    have : DecidablePred fun t => Meets step C t es := fun t => decidableMeets t es
    inferInstanceAs (Decidable (C s e ∧ ∀ t ∈ step s e, Meets step C t es))

theorem run_invariant_of_meets {C : σ → ε → Prop} {I : σ → Prop}
    (hstep : ∀ s e s', I s → C s e → step s e = some s' → I s') {s s' : σ} {es : List ε}
    (hs : I s) (hc : Meets step C s es) (h : run step s es = some s') : I s' := by
  induction es generalizing s with
  | nil => cases h; exact hs
  | cons e es ih =>
    obtain ⟨t, ht, hrest⟩ := run_cons_eq_some h
    exact ih (hstep s e t hs hc.1 ht) (hc.2 t ht) hrest

/-- When a step is enabled under its condition, so is a run whose steps all meet theirs.  Events of
the run satisfy `V`. -/
theorem exists_run_of_meets {C : σ → ε → Prop} {V : ε → Prop} {I : σ → Prop}
    (hstep : ∀ s e, I s → V e → C s e → ∃ s', step s e = some s' ∧ I s') {s : σ} {es : List ε}
    (hs : I s) (hv : ∀ e ∈ es, V e) (hc : Meets step C s es) :
    ∃ s', run step s es = some s' ∧ I s' := by
  induction es generalizing s with
  | nil => exact ⟨s, rfl, hs⟩
  | cons e es ih =>
    obtain ⟨t, ht, hi⟩ := hstep s e hs (hv e List.mem_cons_self) hc.1
    obtain ⟨s', hrun, hs'⟩ := ih hi (fun e he => hv e (List.mem_cons_of_mem _ he)) (hc.2 t ht)
    exact ⟨s', by rw [run_cons, ht, Option.bind_some, hrun], hs'⟩

theorem meets_true (s : σ) (es : List ε) : Meets step (fun _ _ => True) s es := by
  induction es generalizing s with
  | nil => trivial
  | cons e es ih => exact ⟨trivial, fun s' _ => ih s'⟩

/-- When, under an invariant, a step is enabled exactly under its condition, a run goes through
exactly if all its steps meet theirs. -/
theorem exists_run_iff_meets {C : σ → ε → Prop} {I : σ → Prop}
    (hI : ∀ s e s', I s → step s e = some s' → I s')
    (hC : ∀ s e, I s → ((∃ s', step s e = some s') ↔ C s e)) {s : σ} {es : List ε} (hs : I s) :
    (∃ s', run step s es = some s') ↔ Meets step C s es := by
  induction es generalizing s with
  | nil => exact ⟨fun _ => trivial, fun _ => ⟨s, rfl⟩⟩
  | cons e es ih =>
    constructor
    · rintro ⟨s', h⟩
      obtain ⟨t, ht, hrest⟩ := run_cons_eq_some h
      refine ⟨(hC s e hs).mp ⟨t, ht⟩, fun u hu => ?_⟩
      obtain rfl : t = u := Option.some.inj (ht.symm.trans hu)
      exact (ih (hI s e t hs ht)).mp ⟨s', hrest⟩
    · rintro ⟨hc, hrest⟩
      obtain ⟨t, ht⟩ := (hC s e hs).mpr hc
      obtain ⟨s', h⟩ := (ih (hI s e t hs ht)).mpr (hrest t ht)
      exact ⟨s', by rw [run_cons, ht, Option.bind_some, h]⟩

theorem run_invariant {I : σ → Prop} (hstep : ∀ s e s', I s → step s e = some s' → I s') {s s' : σ}
    {es : List ε} (hs : I s) (h : run step s es = some s') : I s' :=
  run_invariant_of_meets (C := fun _ _ => True) (fun s e s' hi _ => hstep s e s' hi) hs
    (meets_true s es) h

/-- When each step is a run of another step function on the same states, so is a run. -/
theorem exists_run_of_steps {α : Type*} {abstract : σ → α → Option σ}
    (h : ∀ s e s', step s e = some s' → ∃ es', run abstract s es' = some s') {s s' : σ}
    {es : List ε} (hrun : run step s es = some s') : ∃ es', run abstract s es' = some s' := by
  refine run_invariant (I := fun t => ∃ es', run abstract s es' = some t) ?_ ⟨[], rfl⟩ hrun
  rintro t e t' ⟨fs, hfs⟩ hstep
  obtain ⟨gs, hgs⟩ := h t e t' hstep
  exact ⟨fs ++ gs, run_append_of hfs hgs⟩

/-- A step function that follows another one, step by step, under a condition, follows its runs. -/
theorem run_follows {α : Type*} {abstract : α → ε → Option α} {C : σ → ε → Prop} {R : σ → α → Prop}
    (h : ∀ s a e a', R s a → C s e → abstract a e = some a' → ∃ s', step s e = some s' ∧ R s' a')
    {s : σ} {a a' : α} {es : List ε} (hR : R s a) (hc : Meets step C s es)
    (hrun : run abstract a es = some a') : ∃ s', run step s es = some s' ∧ R s' a' := by
  induction es generalizing s a with
  | nil => cases hrun; exact ⟨s, rfl, hR⟩
  | cons e es ih =>
    obtain ⟨b, hb, hrest⟩ := run_cons_eq_some hrun
    obtain ⟨t, ht, hRt⟩ := h s a e b hR hc.1 hb
    obtain ⟨s', hs', hR'⟩ := ih hRt (hc.2 t ht) hrest
    exact ⟨s', by rw [run_cons, ht, Option.bind_some, hs'], hR'⟩

/-- What the steps of a run are in an abstract view. -/
def trace {α : Type*} (step : σ → ε → Option σ) (label : σ → ε → Option α) :
    σ → List ε → List α
  | _, [] => []
  | s, e :: es => (label s e).toList ++ (step s e).elim [] fun s' => trace step label s' es

theorem trace_cons {α : Type*} {label : σ → ε → Option α} {s s' : σ} {e : ε} (es : List ε)
    (h : step s e = some s') :
    trace step label s (e :: es) = (label s e).toList ++ trace step label s' es := by
  rw [trace, h]
  rfl

/-- When each step is one of an abstract system, or none, a run is a run of that system.  Events of
the run satisfy `V`. -/
theorem run_trace {τ α : Type*} {abstract : τ → α → Option τ} (label : σ → ε → Option α)
    {V : ε → Prop} {R : σ → τ → Prop}
    (h : ∀ s a e s', R s a → V e → step s e = some s' →
      ∃ a', run abstract a (label s e).toList = some a' ∧ R s' a')
    {s s' : σ} {a : τ} {es : List ε} (hR : R s a) (hv : ∀ e ∈ es, V e)
    (hrun : run step s es = some s') :
    ∃ a', run abstract a (trace step label s es) = some a' ∧ R s' a' := by
  induction es generalizing s a with
  | nil => cases hrun; exact ⟨a, rfl, hR⟩
  | cons e es ih =>
    obtain ⟨t, ht, hrest⟩ := run_cons_eq_some hrun
    obtain ⟨b, hb, hRt⟩ := h s a e t hR (hv e List.mem_cons_self) ht
    obtain ⟨a', ha', hR'⟩ := ih hRt (fun e he => hv e (List.mem_cons_of_mem _ he)) hrest
    exact ⟨a', by rw [trace_cons es ht, run_append, hb, Option.bind_some, ha'], hR'⟩

/-- What the steps of a run add to a list, one after the other. -/
theorem run_collects {α β : Type*} {label : σ → ε → Option α} {added : α → List β}
    {view : σ → List β} {V : ε → Prop}
    (h : ∀ s e s', V e → step s e = some s' →
      view s' = view s ++ (label s e).toList.flatMap added)
    {s s' : σ} {es : List ε} (hv : ∀ e ∈ es, V e) (hrun : run step s es = some s') :
    view s' = view s ++ (trace step label s es).flatMap added := by
  induction es generalizing s with
  | nil =>
    cases hrun
    exact (List.append_nil _).symm
  | cons e es ih =>
    obtain ⟨t, ht, hrest⟩ := run_cons_eq_some hrun
    rw [ih (fun e he => hv e (List.mem_cons_of_mem _ he)) hrest,
      h s e t (hv e List.mem_cons_self) ht, trace_cons es ht, List.flatMap_append,
      List.append_assoc]

/-- What every step of a run is under an invariant. -/
theorem forall_mem_trace {α : Type*} {label : σ → ε → Option α} {I : σ → Prop} {V : ε → Prop}
    {P : α → Prop}
    (h : ∀ s e s', I s → V e → step s e = some s' → I s' ∧ ∀ a ∈ label s e, P a)
    {s s' : σ} {es : List ε} (hs : I s) (hv : ∀ e ∈ es, V e) (hrun : run step s es = some s') :
    ∀ a ∈ trace step label s es, P a := by
  induction es generalizing s with
  | nil => exact nofun
  | cons e es ih =>
    obtain ⟨t, ht, hrest⟩ := run_cons_eq_some hrun
    obtain ⟨hI, hP⟩ := h s e t hs (hv e List.mem_cons_self) ht
    intro a ha
    rw [trace_cons es ht, List.mem_append] at ha
    rcases ha with ha | ha
    · exact hP a (Option.mem_toList.mp ha)
    · exact ih hI (fun e he => hv e (List.mem_cons_of_mem _ he)) hrest a ha

end Runs
