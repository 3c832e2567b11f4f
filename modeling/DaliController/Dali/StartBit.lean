import DaliController.Dali.Codec

/-! When the receiver aborts.  A fall that comes more than 1746 microseconds after the last one
starts `per_timer`, and `gptimer_start` fails on a timer that runs.  Whether it runs is not
recorded: a start bit whose low time was wrong is dropped, but its timer runs on to the alarm. -/

namespace DaliController.Dali

/-- A fall has started `per_timer`, and no rise has confirmed the start bit. -/
structure Pending (r : Receiver) : Prop where
  running : r.perTimer.running = true
  noStart : r.startBitBegin = false

/-- While a start bit is pending, up to the alarm, the line does not fall more than 1746
microseconds after its last fall. -/
def Spaced (r : Receiver) (e : Edge) : Prop :=
  Pending r → e.level = false → r.perTimer.count + e.dt < perAlarm →
    r.komTimer.count + e.dt ≤ fullPeriodDown3

/-- What the interrupt and the alarm keep of the two timers and `start_bit_begin`.  A timer that the
alarm stopped stays at its alarm count. -/
structure Timed (r : Receiver) : Prop where
  running : r.perTimer.running = true → r.perTimer.count < perAlarm
  stopped : r.perTimer.running = false → r.perTimer.count = 0 ∨ r.perTimer.count = perAlarm
  start : r.startBitBegin = true → r.perTimer.running = true
  pending : Pending r → r.komTimer.count ≤ r.perTimer.count

/-- The alarm falls within the next `dt` microseconds. -/
def Rings (dt : Nat) (r : Receiver) : Prop :=
  r.perTimer.running = true ∧ perAlarm ≤ r.perTimer.count + dt

theorem perAlarm_pos : 0 < perAlarm := by decide

theorem elapse_ring {dt : Nat} {r : Receiver} (h : Rings dt r) :
    elapse dt r = advance (dt - (perAlarm - r.perTimer.count))
      (timerAlarmCb (advance (perAlarm - r.perTimer.count) r)) :=
  if_pos h

theorem elapse_rings {dt : Nat} {r : Receiver} (h : Rings dt r) :
    (elapse dt r).perTimer.running = false ∧ (elapse dt r).startBitBegin = false := by
  rw [elapse_ring h]
  exact ⟨rfl, rfl⟩

theorem elapse_quiet {dt : Nat} {r : Receiver} (h : ¬Rings dt r) : elapse dt r = advance dt r :=
  if_neg h

/-- While a start bit is pending, neither counter reaches its alarm. -/
theorem advance_pending {dt : Nat} {r : Receiver} (hr : Timed r) (hp : Pending r)
    (hring : ¬Rings dt r) : (advance dt r).perTimer = ⟨true, r.perTimer.count + dt⟩ ∧
      (advance dt r).komTimer.count = r.komTimer.count + dt := by
  have hbefore : r.perTimer.count + dt < perAlarm := Nat.not_le.mp fun h => hring ⟨hp.running, h⟩
  have hkom := hr.pending hp
  rw [perAlarm_eq] at hbefore
  constructor
  · simp [advance, hp.running]
  · show (r.komTimer.count + dt) % komAlarm = _
    exact Nat.mod_eq_of_lt (by unfold komAlarm; omega)

theorem elapse_timed {dt : Nat} {r : Receiver} (hr : Timed r) : Timed (elapse dt r) := by
  by_cases hring : Rings dt r
  · obtain ⟨hstop, hstart⟩ := elapse_rings hring
    refine ⟨fun h => ?_, fun _ => Or.inr ?_, fun h => ?_, fun h => ?_⟩
    · exact absurd (hstop.symm.trans h) (by decide)
    · have hlow := hr.running hring.1
      rw [elapse_ring hring]
      simp only [advance, timerAlarmCb, hring.1, if_true, Bool.false_eq_true, if_false]
      omega
    · exact absurd (hstart.symm.trans h) (by decide)
    · exact absurd (hstop.symm.trans h.running) (by decide)
  · rw [elapse_quiet hring]
    cases hrun : r.perTimer.running with
    | false =>
      have hper : (advance dt r).perTimer = r.perTimer := by simp [advance, hrun]
      refine ⟨fun h => ?_, fun _ => ?_, fun h => ?_, fun h => ?_⟩
      · rw [hper, hrun] at h
        cases h
      · rw [hper]
        exact hr.stopped hrun
      · exact absurd (hrun.symm.trans (hr.start h)) (by decide)
      · have := h.running
        rw [hper, hrun] at this
        cases this
    | true =>
      have hbefore : r.perTimer.count + dt < perAlarm := Nat.not_le.mp fun h => hring ⟨hrun, h⟩
      have hper : (advance dt r).perTimer = ⟨true, r.perTimer.count + dt⟩ := by
        simp [advance, hrun]
      refine ⟨fun _ => ?_, fun h => ?_, fun _ => ?_, fun h => ?_⟩
      · rw [hper]
        exact hbefore
      · rw [hper] at h
        cases h
      · rw [hper]
      · have hp : Pending r := ⟨hrun, h.noStart⟩
        have hkom := (advance_pending hr hp hring).2
        have hle := hr.pending hp
        rw [hkom, hper]
        show _ ≤ r.perTimer.count + dt
        omega

/-- The interrupt fails exactly when it takes a fall for a start bit while the timer runs. -/
theorem intHandler_eq_none {level : Bool} {r : Receiver} :
    intHandler level r = none ↔
      Pending r ∧ level = false ∧ fullPeriodDown3 < r.komTimer.count := by
  constructor
  · intro h
    simp only [intHandler] at h
    split at h
    · rename_i hfall
      split at h
      · rename_i hkom
        rw [Option.map_eq_none_iff, GpTimer.start] at h
        split at h
        · rename_i hrun
          exact ⟨⟨hrun, hfall.1⟩, hfall.2, hkom⟩
        · cases h
      · cases h
    · split at h
      · split at h <;> cases h
      · split at h <;> cases h
  · rintro ⟨hp, rfl, hkom⟩
    unfold intHandler
    rw [if_pos ⟨hp.noStart, rfl⟩]
    dsimp only
    rw [if_pos hkom, GpTimer.start, if_pos hp.running]
    rfl

theorem intHandler_timed {level : Bool} {r r' : Receiver} (hr : Timed r)
    (h : intHandler level r = some r') : Timed r' := by
  simp only [intHandler] at h
  split at h
  · rename_i hfall
    split at h
    · rw [GpTimer.start] at h
      split at h
      · cases h
      · cases h
        refine ⟨fun _ => perAlarm_pos, fun hstop => ?_, fun _ => rfl, fun _ => Nat.le_refl 0⟩
        cases hstop
    · cases h
      exact ⟨hr.running, hr.stopped, hr.start, fun _ => Nat.zero_le _⟩
  · split at h
    · split at h
      · rename_i hwindow
        cases h
        -- A stopped timer is at 0 or at its alarm count, so it never looks like a start bit.
        have hrun : r.perTimer.running = true := by
          cases hrun : r.perTimer.running with
          | true => rfl
          | false =>
            have hcount := hr.stopped hrun
            rw [halfPeriodDown_eq, halfPeriodUp_eq] at hwindow
            rw [perAlarm_eq] at hcount
            omega
        refine ⟨fun _ => perAlarm_pos, fun _ => Or.inl rfl, fun _ => hrun, fun hp => ?_⟩
        cases hp.noStart
      · cases h
        exact hr
    · rename_i hfall hrise
      have hstart : r.startBitBegin = true := by
        cases hstart : r.startBitBegin with
        | true => rfl
        | false =>
          cases level with
          | true => exact absurd ⟨hstart, rfl⟩ hrise
          | false => exact absurd ⟨hstart, rfl⟩ hfall
      have hrun := hr.start hstart
      split at h
      · cases h
        refine ⟨fun _ => perAlarm_pos, fun _ => Or.inl rfl, fun _ => hrun, fun hp => ?_⟩
        exact absurd (hstart.symm.trans hp.noStart) (by decide)
      · cases h
        exact ⟨hr.running, hr.stopped, hr.start, fun hp => hr.pending ⟨hp.running, hp.noStart⟩⟩

theorem edgeStep_timed (r : Receiver) (e : Edge) (r' : Receiver) (hr : Timed r)
    (h : edgeStep r e = some r') : Timed r' :=
  intHandler_timed (elapse_timed hr) h

/-- An edge goes through exactly if it is spaced from the pending start bit. -/
theorem edgeStep_iff (r : Receiver) (e : Edge) (hr : Timed r) :
    (∃ r', edgeStep r e = some r') ↔ Spaced r e := by
  have hsome : (∃ r', edgeStep r e = some r') ↔ ¬edgeStep r e = none :=
    Option.ne_none_iff_exists'.symm
  rw [hsome, edgeStep, intHandler_eq_none]
  by_cases hring : Rings e.dt r
  · refine ⟨fun _ hp _ hbefore => ?_, fun _ h => ?_⟩
    · exact absurd hring.2 (Nat.not_le.mpr hbefore)
    · exact absurd ((elapse_rings hring).1.symm.trans h.1.running) (by decide)
  · have hpend : Pending (elapse e.dt r) ↔ Pending r := by
      rw [elapse_quiet hring]
      constructor
      · intro h
        refine ⟨?_, h.noStart⟩
        cases hrun : r.perTimer.running with
        | true => rfl
        | false =>
          have := h.running
          rw [show (advance e.dt r).perTimer = r.perTimer by simp [advance, hrun], hrun] at this
          exact this
      · intro h
        exact ⟨by rw [(advance_pending hr h hring).1], h.noStart⟩
    rw [hpend, Spaced]
    constructor
    · intro h hp hlevel _
      have hkom := (advance_pending hr hp hring).2
      rw [elapse_quiet hring, hkom] at h
      exact Nat.not_lt.mp fun hlate => h ⟨hp, hlevel, hlate⟩
    · rintro h ⟨hp, hlevel, hlate⟩
      have hbefore : r.perTimer.count + e.dt < perAlarm :=
        Nat.not_le.mp fun hle => hring ⟨hp.running, hle⟩
      have hkom := (advance_pending hr hp hring).2
      rw [elapse_quiet hring, hkom] at hlate
      exact absurd (h hp hlevel hbefore) (Nat.not_le.mpr hlate)

theorem idleReceiver_timed : Timed idleReceiver :=
  ⟨nofun, fun _ => Or.inl rfl, nofun, fun h => absurd h.running (by decide)⟩

/-- From power-up on, the receiver survives exactly the edges that are spaced. -/
theorem receive_survives_iff (es : List Edge) :
    (∃ r, receive idleReceiver es = some r) ↔ Runs.Meets edgeStep Spaced idleReceiver es :=
  Runs.exists_run_iff_meets edgeStep_timed edgeStep_iff idleReceiver_timed

/-- The line dips for 600 microseconds, and again after 1300 more. -/
theorem receive_aborts :
    receive idleReceiver [⟨3000, false⟩, ⟨600, true⟩, ⟨1300, false⟩] = none := by
  decide +kernel

end DaliController.Dali
