import DaliController.Lib.Runs

/-! Operations of one party in a system of several.  An operation returns if the steps of its own
come to an end and none of them has to wait, whatever the others do between them. -/

namespace Runs

variable {σ ε : Type*}

/-- The events of an operation, and those that may come between them. -/
structure Operation (σ ε : Type*) where
  own : ε → Bool
  during : ε → Bool
  returned : σ → Prop
  during_of_own : ∀ e, own e = true → during e = true

namespace Operation

variable {step : σ → ε → Option σ} {o : Operation σ ε}

/-- The events of a list may all occur during the operation. -/
def Between (o : Operation σ ε) (es : List ε) : Prop := ∀ e ∈ es, o.during e = true

/-- The operation returns from `s` within `n` of its steps, which are enabled until then. -/
structure Returns (o : Operation σ ε) (step : σ → ε → Option σ) (s : σ) (n : Nat) : Prop where
  bound : ∀ es s', o.Between es → run step s es = some s' → es.countP o.own ≤ n
  enabled : ∀ es s', o.Between es → run step s es = some s' → ¬o.returned s' →
    ∀ e, o.own e = true → ∃ t, step s' e = some t

/-- An invariant holds between the steps of an operation. -/
theorem run_between {I : σ → Prop}
    (hstep : ∀ s e s', I s → o.during e = true → step s e = some s' → I s') {s s' : σ}
    {es : List ε} (hs : I s) (hes : o.Between es) (hrun : run step s es = some s') : I s' := by
  induction es generalizing s with
  | nil =>
    cases hrun
    exact hs
  | cons e es ih =>
    obtain ⟨t, ht, hrest⟩ := run_cons_eq_some hrun
    have hI : I t := hstep s e t hs (hes e List.mem_cons_self) ht
    exact ih hI (fun e' he => hes e' (List.mem_cons_of_mem e he)) hrest

/-- Every step of the operation lowers a rank, and the others do not raise it. -/
theorem returns_of_rank {I : σ → Prop} {rank : σ → Nat}
    (hstep : ∀ s e s', I s → o.during e = true → step s e = some s' →
      I s' ∧ rank s' + (if o.own e = true then 1 else 0) ≤ rank s)
    (henabled : ∀ s, I s → ¬o.returned s → ∀ e, o.own e = true → ∃ t, step s e = some t)
    {s : σ} (hs : I s) : o.Returns step s (rank s) where
  bound := by
    intro es
    induction es generalizing s with
    | nil =>
      intro s' _ _
      exact Nat.zero_le _
    | cons e es ih =>
      intro s' hes hrun
      obtain ⟨t, ht, hrest⟩ := run_cons_eq_some hrun
      obtain ⟨hI, hrank⟩ := hstep s e t hs (hes e List.mem_cons_self) ht
      have hbound := ih hI s' (fun e' he => hes e' (List.mem_cons_of_mem e he)) hrest
      rw [List.countP_cons]
      omega
  enabled := by
    intro es s' hes hrun
    apply henabled
    exact run_between (fun s e s' hI he h => (hstep s e s' hI he h).1) hs hes hrun

/-- An operation that returns does so when the others rest, and keeps what its steps keep. -/
theorem Returns.exists_returned {I : σ → Prop} {s : σ} {n : Nat} (h : o.Returns step s n) {e : ε}
    (he : o.own e = true)
    (hI : ∀ s s', I s → ¬o.returned s → step s e = some s' → I s') (hs : I s)
    (hne : ¬o.returned s) :
    ∃ es s' s'', o.Between es ∧ run step s es = some s' ∧ ¬o.returned s' ∧
      step s' e = some s'' ∧ o.returned s'' ∧ I s'' := by
  apply by_contradiction
  intro hnever
  have hgoes : ∀ k, ∃ s', run step s (List.replicate k e) = some s' ∧ ¬o.returned s' ∧ I s' := by
    intro k
    induction k with
    | zero => exact ⟨s, rfl, hne, hs⟩
    | succ k ih =>
      obtain ⟨s', hrun, hnot, hI'⟩ := ih
      have hes : o.Between (List.replicate k e) := by
        intro e' he'
        rw [(List.mem_replicate.mp he').2]
        exact o.during_of_own e he
      obtain ⟨s'', hstep⟩ := h.enabled _ s' hes hrun hnot e he
      have hI'' := hI s' s'' hI' hnot hstep
      refine ⟨s'', ?_, fun hret => ?_, hI''⟩
      · rw [List.replicate_succ']
        apply run_append_of hrun
        rw [run_cons, hstep]
        rfl
      · exact hnever ⟨_, s', s'', hes, hrun, hnot, hstep, hret, hI''⟩
  obtain ⟨s', hrun, -, -⟩ := hgoes (n + 1)
  have hbound := h.bound _ s' (fun e' he' => by
    rw [(List.mem_replicate.mp he').2]
    exact o.during_of_own e he) hrun
  rw [List.countP_replicate, if_pos he] at hbound
  omega

end Operation

end Runs
