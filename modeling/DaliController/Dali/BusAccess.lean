import DaliController.Dali.Wire
import DaliController.Lib.Runs
import DaliController.Lib.Table

/-! Several tasks on one TX pin.  The TCP handler, the cron jobs and the button callback transmit
through `DaliSend`, `DaliSendReceive` and `double_send`, and each half period is a step of its own.
`busy_is_wait` returns at once, so nothing keeps a task from starting a frame inside another one. -/

namespace DaliController.Dali

/-- What a transmission does on the cable, in order. -/
inductive BusAct
  | busyIsWait
  | send (pk : Package)
  deriving DecidableEq, Repr

inductive BusCall
  | daliSend (pk : Package) (type : UInt8)
  | daliSendReceive (pk : Package) (type : UInt8)
  | doubleSend (pk : Package)
  | daliDoubleSend (pk : Package) (type : UInt8)
  deriving DecidableEq, Repr

/-- `DaliSend`: type 0x99 sends on the cable and by radio, a type below 0x0A on the cable only. -/
def daliSendActs (pk : Package) (type : UInt8) : List BusAct :=
  if type = 0x99 then [.busyIsWait, .send pk]
  else if type < 0x0A then [.busyIsWait, .send pk]
  else []

def daliSendReceiveActs (pk : Package) (type : UInt8) : List BusAct :=
  if type < 0x0A then [.busyIsWait, .send pk] else []

def BusCall.acts : BusCall → List BusAct
  | .daliSend pk type => daliSendActs pk type
  | .daliSendReceive pk type => daliSendReceiveActs pk type
  | .doubleSend pk => [.send pk, .send pk]
  | .daliDoubleSend pk type => daliSendActs pk type ++ daliSendActs pk type

def BusCall.package : BusCall → Package
  | .daliSend pk _ | .daliSendReceive pk _ | .doubleSend pk | .daliDoubleSend pk _ => pk

/-- A task: the rest of the frame it is sending, and what it does after that. -/
structure BusTask where
  rest : List Bool
  todo : List BusAct
  deriving DecidableEq, Repr

/-- The tasks, the levels that the pin has had, and the packages whose sending has begun. -/
structure Bus where
  tasks : List BusTask
  tx : List Bool
  started : List Package
  deriving DecidableEq, Repr

def busInit (n : Nat) : Bus := ⟨List.replicate n ⟨[], []⟩, [], []⟩

inductive BusEvent
  | call (i : Nat) (c : BusCall)
  | free (i : Nat)
  | start (i : Nat) (pk : Package)
  | half (i : Nat)
  deriving DecidableEq, Repr

/-- Task `i` makes a call, returns from `busy_is_wait`, puts the first level of a frame on the pin,
or the next one. -/
def busStep (s : Bus) : BusEvent → Option Bus
  | .call i c =>
    match s.tasks[i]? with
    | some ⟨[], []⟩ => some { s with tasks := s.tasks.set i ⟨[], c.acts⟩ }
    | _ => none
  | .free i =>
    match s.tasks[i]? with
    -- its result, always false, is not looked at
    | some ⟨[], .busyIsWait :: todo⟩ => some { s with tasks := s.tasks.set i ⟨[], todo⟩ }
    | _ => none
  | .start i pk =>
    match s.tasks[i]? with
    | some ⟨[], .send pk' :: todo⟩ =>
      if pk' = pk then
        some
          { tasks := s.tasks.set i ⟨(send pk).tail, todo⟩
            tx := s.tx ++ (send pk).take 1
            started := s.started ++ [pk] }
      else none
    | _ => none
  | .half i =>
    match s.tasks[i]? with
    | some ⟨level :: rest, todo⟩ =>
      some { s with tasks := s.tasks.set i ⟨rest, todo⟩, tx := s.tx ++ [level] }
    | _ => none

/-- No task is inside a frame. -/
def Bus.Silent (s : Bus) : Prop := ∀ t ∈ s.tasks, t.rest = []

instance (s : Bus) : Decidable s.Silent := inferInstanceAs (Decidable (∀ t ∈ s.tasks, _))

/-- The levels of a package's frame. -/
def frameLevels (pk : Package) : Nat := 16 * pk.bytes.length + 3

/-- The frames are started one frame length apart: `due` levels of the one before are still to
come, and each `half` is one of them. -/
def Apart : Nat → List BusEvent → Prop
  | _, [] => True
  | due, .start _ pk :: evs => due = 0 ∧ Apart (frameLevels pk - 1) evs
  | due, .half _ :: evs => Apart (due - 1) evs
  | due, .call _ _ :: evs | due, .free _ :: evs => Apart due evs

instance decidableApart : ∀ due evs, Decidable (Apart due evs)
  | _, [] => inferInstanceAs (Decidable True)
  | due, .start _ pk :: evs =>
    have := decidableApart (frameLevels pk - 1) evs
    inferInstanceAs (Decidable (due = 0 ∧ Apart (frameLevels pk - 1) evs))
  | due, .half _ :: evs => decidableApart (due - 1) evs
  | due, .call _ _ :: evs | due, .free _ :: evs => decidableApart due evs

/-- The pin has shown complete frames of packages that were asked for, in the order in which they
were started, and the beginning of the last. -/
structure Framed (asked : List Package) (s : Bus) : Prop where
  requested : s.started ⊆ asked
  complete : s.started.dropLast.flatMap send <+: s.tx
  begun : s.tx <+: s.started.flatMap send
  silent : s.Silent → s.tx = s.started.flatMap send

/-- The levels that the tasks have still to put on the pin. -/
def Bus.rest (s : Bus) : List Bool := s.tasks.flatMap BusTask.rest

/-! ### Steps -/

/-- What each step finds and leaves. -/
theorem busStep_cases {s s' : Bus} {e : BusEvent} (h : busStep s e = some s') :
    (∃ i c, e = .call i c ∧ s.tasks[i]? = some ⟨[], []⟩ ∧
      s' = { s with tasks := s.tasks.set i ⟨[], c.acts⟩ }) ∨
    (∃ i todo, e = .free i ∧ s.tasks[i]? = some ⟨[], .busyIsWait :: todo⟩ ∧
      s' = { s with tasks := s.tasks.set i ⟨[], todo⟩ }) ∨
    (∃ i pk todo, e = .start i pk ∧ s.tasks[i]? = some ⟨[], .send pk :: todo⟩ ∧
      s' = ⟨s.tasks.set i ⟨(send pk).tail, todo⟩, s.tx ++ (send pk).take 1,
        s.started ++ [pk]⟩) ∨
    ∃ i level rest todo, e = .half i ∧ s.tasks[i]? = some ⟨level :: rest, todo⟩ ∧
      s' = { s with tasks := s.tasks.set i ⟨rest, todo⟩, tx := s.tx ++ [level] } := by
  cases e with
  | call i c =>
    simp only [busStep] at h
    split at h
    · exact Or.inl ⟨i, c, rfl, ‹_›, (Option.some.inj h).symm⟩
    · cases h
  | free i =>
    simp only [busStep] at h
    split at h
    · exact Or.inr (Or.inl ⟨i, _, rfl, ‹_›, (Option.some.inj h).symm⟩)
    · cases h
  | start i pk =>
    simp only [busStep] at h
    split at h
    · rename_i pk' todo ht
      split at h
      · rename_i hpk
        subst hpk
        exact Or.inr (Or.inr (Or.inl ⟨i, _, _, rfl, ht, (Option.some.inj h).symm⟩))
      · cases h
    · cases h
  | half i =>
    simp only [busStep] at h
    split at h
    · exact Or.inr (Or.inr (Or.inr ⟨i, _, _, _, rfl, ‹_›, (Option.some.inj h).symm⟩))
    · cases h

/-- Every task but `i` is outside a frame. -/
def OnlyAt (ts : List BusTask) (i : Nat) : Prop := ∀ j ≠ i, ∀ t, ts[j]? = some t → t.rest = []

theorem flatMap_rest_of_onlyAt {ts : List BusTask} {i : Nat} (h : OnlyAt ts i) {t : BusTask}
    (ht : ts[i]? = some t) : ts.flatMap BusTask.rest = t.rest := by
  induction ts generalizing i with
  | nil => cases ht
  | cons u us ih =>
    cases i with
    | zero =>
      obtain rfl : u = t := by simpa using ht
      have hrest : us.flatMap BusTask.rest = [] := by
        rw [List.flatMap_eq_nil_iff]
        intro v hv
        obtain ⟨j, hj⟩ := List.mem_iff_getElem?.mp hv
        exact h (j + 1) (Nat.succ_ne_zero j) v hj
      rw [List.flatMap_cons, hrest, List.append_nil]
    | succ i =>
      have hu : u.rest = [] := h 0 (Nat.succ_ne_zero i).symm u rfl
      rw [List.flatMap_cons, hu, List.nil_append]
      exact ih (fun j hj v hv => h (j + 1) (fun he => hj (Nat.succ.inj he)) v hv) ht

theorem onlyAt_set {ts : List BusTask} {i : Nat} (h : OnlyAt ts i) (t : BusTask) :
    OnlyAt (ts.set i t) i := by
  intro j hj u hu
  rw [List.getElem?_set_ne (Ne.symm hj)] at hu
  exact h j hj u hu

theorem flatMap_rest_set {ts : List BusTask} {i : Nat} (h : OnlyAt ts i) {t : BusTask}
    (ht : ts[i]? = some t) (u : BusTask) : (ts.set i u).flatMap BusTask.rest = u.rest := by
  have hi : i < ts.length := (List.getElem?_eq_some_iff.mp ht).1
  exact flatMap_rest_of_onlyAt (onlyAt_set h u) (List.getElem?_set_self hi)

theorem length_send (pk : Package) : (send pk).length = frameLevels pk := by
  have hwave (bits : List Bool) : (Manchester.wave bits).length = 2 * bits.length := by
    induction bits with
    | nil => rfl
    | cons b bs ih => simp [Manchester.halves, ih]; omega
  rw [send_eq_wave]
  simp only [List.length_append, hwave, length_frameBits, Manchester.halves, List.length_cons,
    List.length_nil, frameLevels]
  omega

/-- At most one task is inside a frame, with `due` levels to go, and these complete the frames
started so far. -/
structure Exclusive (due : Nat) (s : Bus) : Prop where
  one : ∃ i, OnlyAt s.tasks i
  frames : s.tx ++ s.rest = s.started.flatMap send
  due : s.rest.length = due
  complete : s.started.dropLast.flatMap send <+: s.tx

/-- A task that stays outside a frame does not change who is inside one. -/
theorem onlyAt_set_idle {ts : List BusTask} {k : Nat} (h : OnlyAt ts k) (i : Nat)
    (todo : List BusAct) : OnlyAt (ts.set i ⟨[], todo⟩) k := by
  intro j hj u hu
  obtain ⟨-, rfl⟩ | ⟨-, hu⟩ := Table.set_cases hu
  · rfl
  · exact h j hj u hu

theorem flatMap_rest_set_idle {ts : List BusTask} {i : Nat} {todo : List BusAct}
    (ht : ts[i]? = some ⟨[], todo⟩) (todo' : List BusAct) :
    (ts.set i ⟨[], todo'⟩).flatMap BusTask.rest = ts.flatMap BusTask.rest := by
  induction ts generalizing i with
  | nil => rfl
  | cons u us ih =>
    cases i with
    | zero =>
      obtain rfl : u = ⟨[], todo⟩ := by simpa using ht
      rfl
    | succ i => rw [List.set_cons_succ, List.flatMap_cons, List.flatMap_cons, ih ht]

theorem exclusive_set_idle {due : Nat} {s : Bus} (h : Exclusive due s) {i : Nat}
    {todo : List BusAct} (ht : s.tasks[i]? = some ⟨[], todo⟩) (todo' : List BusAct) :
    Exclusive due { s with tasks := s.tasks.set i ⟨[], todo'⟩ } := by
  obtain ⟨k, hk⟩ := h.one
  have hrest : Bus.rest { s with tasks := s.tasks.set i ⟨[], todo'⟩ } = s.rest :=
    flatMap_rest_set_idle ht todo'
  exact ⟨⟨k, onlyAt_set_idle hk i todo'⟩, by rw [hrest]; exact h.frames,
    by rw [hrest]; exact h.due, h.complete⟩

theorem exclusive_start {s : Bus} (h : Exclusive 0 s) {i : Nat} {pk : Package}
    {todo : List BusAct} (ht : s.tasks[i]? = some ⟨[], .send pk :: todo⟩) :
    Exclusive (frameLevels pk - 1) ⟨s.tasks.set i ⟨(send pk).tail, todo⟩,
      s.tx ++ (send pk).take 1, s.started ++ [pk]⟩ := by
  have hsilent : s.rest = [] := List.length_eq_zero_iff.mp h.due
  have hidle : ∀ t ∈ s.tasks, t.rest = [] := List.flatMap_eq_nil_iff.mp hsilent
  have hi : OnlyAt s.tasks i := fun j _ t htj => hidle t (List.mem_of_getElem? htj)
  have hrest : (s.tasks.set i ⟨(send pk).tail, todo⟩).flatMap BusTask.rest = (send pk).tail :=
    flatMap_rest_set hi ht _
  have htx : s.tx = s.started.flatMap send := by
    rw [← h.frames, hsilent, List.append_nil]
  refine ⟨⟨i, onlyAt_set hi _⟩, ?_, ?_, ?_⟩
  · show s.tx ++ (send pk).take 1 ++ (s.tasks.set i ⟨(send pk).tail, todo⟩).flatMap BusTask.rest = _
    rw [hrest, List.append_assoc, ← List.drop_one, List.take_append_drop, List.flatMap_append,
      List.flatMap_singleton, htx]
  · show ((s.tasks.set i ⟨(send pk).tail, todo⟩).flatMap BusTask.rest).length = _
    rw [hrest, List.length_tail, length_send]
  · show (s.started ++ [pk]).dropLast.flatMap send <+: s.tx ++ (send pk).take 1
    rw [List.dropLast_concat, ← htx]
    exact List.prefix_append _ _

theorem exclusive_half {due : Nat} {s : Bus} (h : Exclusive due s) {i : Nat} {level : Bool}
    {rest : List Bool} {todo : List BusAct} (ht : s.tasks[i]? = some ⟨level :: rest, todo⟩) :
    Exclusive (due - 1) { s with tasks := s.tasks.set i ⟨rest, todo⟩, tx := s.tx ++ [level] } := by
  obtain ⟨k, hk⟩ := h.one
  obtain rfl : i = k := by
    by_contra hne
    cases hk i hne _ ht
  have hbefore : s.rest = level :: rest := flatMap_rest_of_onlyAt hk ht
  have hafter : (s.tasks.set i ⟨rest, todo⟩).flatMap BusTask.rest = rest :=
    flatMap_rest_set hk ht _
  have hframes := h.frames
  have hdue := h.due
  rw [hbefore] at hframes hdue
  refine ⟨⟨i, onlyAt_set hk _⟩, ?_, ?_, h.complete.trans (List.prefix_append _ _)⟩
  · show s.tx ++ [level] ++ (s.tasks.set i ⟨rest, todo⟩).flatMap BusTask.rest = _
    rw [hafter, List.append_assoc]
    exact hframes
  · show ((s.tasks.set i ⟨rest, todo⟩).flatMap BusTask.rest).length = _
    rw [hafter, ← hdue]
    rfl

theorem busInit_exclusive (n : Nat) : Exclusive 0 (busInit n) := by
  have hidle : ∀ t ∈ (busInit n).tasks, t.rest = [] := by
    intro t ht
    rw [List.eq_of_mem_replicate ht]
  have hrest : (busInit n).rest = [] := List.flatMap_eq_nil_iff.mpr hidle
  refine ⟨⟨0, fun j _ t ht => hidle t (List.mem_of_getElem? ht)⟩, ?_, ?_, List.prefix_refl _⟩
  · rw [hrest]
    rfl
  · rw [hrest]
    rfl

/-- Inside a frame there is a level to go that is not the low one that starts the next frame. -/
theorem not_complete_start {due : Nat} {s : Bus} (h : Exclusive due s) (hdue : due ≠ 0)
    (pk : Package) : ¬s.started.flatMap send <+: s.tx ++ (send pk).take 1 := by
  have hstop (ps : List Package) (level : Bool) (hlast : (ps.flatMap send).getLast? = some level) :
      level = true := by
    obtain rfl | ⟨ps, p, rfl⟩ := ps.eq_nil_or_concat
    · cases hlast
    · rw [List.concat_eq_append, List.flatMap_append, List.flatMap_singleton, send_eq_wave,
        ← List.append_assoc, ← List.append_assoc, List.getLast?_concat] at hlast
      exact (Option.some.inj hlast).symm
  have hstart : (send pk).take 1 = [false] := rfl
  intro hprefix
  rw [← h.frames, hstart, List.prefix_append_right_inj] at hprefix
  have hrest : s.rest = [false] := by
    refine hprefix.eq_of_length (Nat.le_antisymm hprefix.length_le ?_)
    have := h.due
    simp only [List.length_cons, List.length_nil]
    omega
  have hframes := h.frames
  rw [hrest] at hframes
  have hlow := hstop s.started false (by rw [← hframes, List.getLast?_concat])
  cases hlow

/-! ### What is sent was asked for -/

/-- The packages of the calls made so far. -/
def requested (evs : List BusEvent) : List Package :=
  evs.filterMap fun
    | .call _ c => some c.package
    | _ => none

theorem package_of_acts {c : BusCall} {pk : Package} (h : .send pk ∈ c.acts) : pk = c.package := by
  have hsend {pk' : Package} {type : UInt8} (h : BusAct.send pk ∈ daliSendActs pk' type) :
      pk = pk' := by
    unfold daliSendActs at h
    split at h
    · simpa using h
    · split at h <;> simp at h
      exact h
  cases c with
  | daliSend pk' type => exact hsend h
  | daliSendReceive pk' type =>
    change BusAct.send pk ∈ daliSendReceiveActs pk' type at h
    unfold daliSendReceiveActs at h
    split at h <;> simp at h
    exact h
  | doubleSend pk' => simpa [BusCall.acts, BusCall.package] using h
  | daliDoubleSend pk' type => exact (List.mem_append.mp h).elim hsend hsend

/-- Every package that is being sent, or will be, is one of `asked`. -/
structure From (asked : List Package) (s : Bus) : Prop where
  started : ∀ pk ∈ s.started, pk ∈ asked
  todo : ∀ t ∈ s.tasks, ∀ pk, .send pk ∈ t.todo → pk ∈ asked

theorem From.mono {asked asked' : List Package} {s : Bus} (h : From asked s)
    (hsub : asked ⊆ asked') : From asked' s :=
  ⟨fun pk hpk => hsub (h.started pk hpk), fun t ht pk hpk => hsub (h.todo t ht pk hpk)⟩

/-- A task goes on with acts whose packages were asked for. -/
theorem From.set {asked : List Package} {s : Bus} (h : From asked s) (i : Nat) {t : BusTask}
    (ht : ∀ pk, .send pk ∈ t.todo → pk ∈ asked) :
    ∀ u ∈ s.tasks.set i t, ∀ pk, .send pk ∈ u.todo → pk ∈ asked := by
  intro u hu
  rcases List.mem_or_eq_of_mem_set hu with hu | rfl
  · exact h.todo u hu
  · exact ht

theorem busStep_from {asked : List Package} {s s' : Bus} {e : BusEvent} (h : From asked s)
    (hcall : ∀ i c, e = .call i c → c.package ∈ asked) (hstep : busStep s e = some s') :
    From asked s' := by
  obtain ⟨i, c, rfl, ht, rfl⟩ | ⟨i, todo, rfl, ht, rfl⟩ | ⟨i, pk, todo, rfl, ht, rfl⟩ |
    ⟨i, level, rest, todo, rfl, ht, rfl⟩ := busStep_cases hstep
  · refine ⟨h.started, h.set i fun pk hpk => ?_⟩
    rw [package_of_acts hpk]
    exact hcall i c rfl
  · have hi := h.todo _ (List.mem_of_getElem? ht)
    exact ⟨h.started, h.set i fun pk hpk => hi pk (List.mem_cons_of_mem _ hpk)⟩
  · have hi := h.todo _ (List.mem_of_getElem? ht)
    refine ⟨?_, h.set i fun pk hpk => hi pk (List.mem_cons_of_mem _ hpk)⟩
    intro pk' hpk'
    rcases List.mem_append.mp hpk' with hpk' | hpk'
    · exact h.started pk' hpk'
    · obtain rfl := List.mem_singleton.mp hpk'
      exact hi pk' List.mem_cons_self
  · have hi := h.todo _ (List.mem_of_getElem? ht)
    exact ⟨h.started, h.set i hi⟩

theorem run_from {evs : List BusEvent} {asked : List Package} {s s' : Bus} (h : From asked s)
    (hsub : requested evs ⊆ asked) (hrun : Runs.run busStep s evs = some s') : From asked s' := by
  induction evs generalizing s with
  | nil => cases hrun; exact h
  | cons e evs ih =>
    obtain ⟨t, ht, hrest⟩ := Runs.run_cons_eq_some hrun
    have hcall : ∀ i c, e = .call i c → c.package ∈ asked := by
      rintro i c rfl
      exact hsub List.mem_cons_self
    refine ih (busStep_from h hcall ht) (fun pk hpk => hsub ?_) hrest
    obtain ⟨e', he', hpk'⟩ := List.mem_filterMap.mp hpk
    exact List.mem_filterMap.mpr ⟨e', List.mem_cons_of_mem _ he', hpk'⟩

/-! ### The levels of a run -/

theorem Exclusive.framed {due : Nat} {s : Bus} (h : Exclusive due s) {asked : List Package}
    (hasked : s.started ⊆ asked) : Framed asked s := by
  refine ⟨hasked, h.complete, ⟨s.rest, h.frames⟩, fun hs => ?_⟩
  have hrest : s.rest = [] := List.flatMap_eq_nil_iff.mpr hs
  rw [← h.frames, hrest, List.append_nil]

/-- The levels still due after a run of events. -/
def dueAfter : Nat → List BusEvent → Nat
  | due, [] => due
  | _, .start _ pk :: evs => dueAfter (frameLevels pk - 1) evs
  | due, .half _ :: evs => dueAfter (due - 1) evs
  | due, .call _ _ :: evs | due, .free _ :: evs => dueAfter due evs

theorem busStep_exclusive {due : Nat} {s s' : Bus} {e : BusEvent} (h : Exclusive due s)
    (hapart : Apart due [e]) (hstep : busStep s e = some s') :
    Exclusive (dueAfter due [e]) s' := by
  obtain ⟨i, c, rfl, ht, rfl⟩ | ⟨i, todo, rfl, ht, rfl⟩ | ⟨i, pk, todo, rfl, ht, rfl⟩ |
    ⟨i, level, rest, todo, rfl, ht, rfl⟩ := busStep_cases hstep
  · exact exclusive_set_idle h ht _
  · exact exclusive_set_idle h ht _
  · obtain ⟨rfl, -⟩ := hapart
    exact exclusive_start h ht
  · exact exclusive_half h ht

theorem apart_cons (due : Nat) (e : BusEvent) (evs : List BusEvent) :
    Apart due (e :: evs) ↔ Apart due [e] ∧ Apart (dueAfter due [e]) evs := by
  cases e <;> simp [Apart, dueAfter]

/-- When in every state of a run the frames before the last one started are complete on the pin,
they are started a frame length apart. -/
theorem apart_of_complete {evs : List BusEvent} {due : Nat} {s s' : Bus} (h : Exclusive due s)
    (hrun : Runs.run busStep s evs = some s')
    (hcomplete : ∀ k t, Runs.run busStep s (evs.take k) = some t →
      t.started.dropLast.flatMap send <+: t.tx) : Apart due evs := by
  induction evs generalizing due s with
  | nil => trivial
  | cons e evs ih =>
    obtain ⟨s1, hs1, hrest⟩ := Runs.run_cons_eq_some hrun
    have hnext : ∀ k t, Runs.run busStep s1 (evs.take k) = some t →
        t.started.dropLast.flatMap send <+: t.tx := by
      intro k t ht
      apply hcomplete (k + 1) t
      rw [List.take_succ_cons, Runs.run_cons, hs1, Option.bind_some, ht]
    have he : Apart due [e] := by
      obtain ⟨i, c, rfl, -, -⟩ | ⟨i, todo, rfl, -, -⟩ | ⟨i, pk, todo, rfl, -, rfl⟩ |
        ⟨i, level, rest, todo, rfl, -, -⟩ := busStep_cases hs1
      · trivial
      · trivial
      · refine ⟨?_, trivial⟩
        by_contra hdue
        have hstart := hnext 0 _ rfl
        rw [List.dropLast_concat] at hstart
        exact not_complete_start h hdue pk hstart
      · trivial
    exact (apart_cons due e evs).mpr ⟨he, ih (busStep_exclusive h he hs1) hrest hnext⟩

theorem run_exclusive {evs : List BusEvent} {due : Nat} {s s' : Bus} (h : Exclusive due s)
    (hapart : Apart due evs) (hrun : Runs.run busStep s evs = some s') :
    Exclusive (dueAfter due evs) s' := by
  induction evs generalizing due s with
  | nil =>
    cases hrun
    exact h
  | cons e evs ih =>
    obtain ⟨s1, hs1, hrest⟩ := Runs.run_cons_eq_some hrun
    obtain ⟨he, hevs⟩ := (apart_cons due e evs).mp hapart
    have hdue : dueAfter due (e :: evs) = dueAfter (dueAfter due [e]) evs := by
      cases e <;> rfl
    rw [hdue]
    exact ih (busStep_exclusive h he hs1) hevs hrest

theorem apart_take {evs : List BusEvent} {due : Nat} (h : Apart due evs) (k : Nat) :
    Apart due (evs.take k) := by
  induction evs generalizing due k with
  | nil => rw [List.take_nil]; trivial
  | cons e evs ih =>
    cases k with
    | zero => trivial
    | succ k =>
      rw [apart_cons] at h
      rw [List.take_succ_cons, apart_cons]
      exact ⟨h.1, ih h.2 k⟩

/-- A recall of the maximum level by the lamps of group 2. -/
def groupMax : Package := ⟨0x85, 0x05, 0, .block16, 0⟩

/-- Task 0 calls `DaliSend`, and task 1 does so when the frame is complete. -/
def oneByOne : List BusEvent :=
  [.call 0 (.daliSend groupMax 0), .call 1 (.daliSend groupMax 0), .free 0, .free 1,
    .start 0 groupMax] ++ List.replicate 34 (.half 0) ++ [.start 1 groupMax] ++
    List.replicate 34 (.half 1)

/-- Both tasks find the bus free, and their half periods alternate. -/
def sideBySide : List BusEvent :=
  [.call 0 (.daliSend groupMax 0), .call 1 (.daliSend groupMax 0), .free 0, .free 1,
    .start 0 groupMax, .start 1 groupMax] ++ (List.range 68).map fun k => .half (k % 2)

end DaliController.Dali
