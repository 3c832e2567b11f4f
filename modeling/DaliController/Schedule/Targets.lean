import DaliController.Dali.Package
import DaliController.Schedule.Completeness
import Mathlib.Data.List.Forall2
import Mathlib.Data.List.Induction
import Mathlib.Data.List.Infix

/-! What the scheduled jobs act on.  `set_zaman` keeps group `n` in record `n` and scene `s` in
record `s + 16`.  `create_zjob` tells them apart again by the record, but takes record 16 for a
scene, so the jobs of group 16 do nothing. -/

namespace DaliController.Schedule

open Dali

/-- The fields of `address_t` that this repository sets. -/
structure Address where
  shortAdr : Bool := false
  broadcastAdr : Bool := false
  groupAdr : Bool := false
  special : Bool := false
  arcPower : Bool := false
  data : UInt8 := 0
  deriving DecidableEq, Repr

def adresType (adr gurup : UInt8) (bb : Address) : Address :=
  let bb := if adr ≠ 255 then { bb with shortAdr := true } else bb
  let bb := if adr = 255 then { bb with broadcastAdr := true } else bb
  if gurup ≠ 0 then
    { bb with groupAdr := true, broadcastAdr := false, shortAdr := false, data := adr - 1 }
  else { bb with data := adr }

/-- The calls that `cron_callback` makes. -/
inductive DaliCall
  | arcPower (adr gurup power : UInt8)
  | off (adr gurup : UInt8)
  | commandAction (adr gurup comm : UInt8)
  deriving DecidableEq, Repr

/-- The command byte of `command_action`. -/
def commandByte (comm : UInt8) : UInt8 :=
  match comm with
  | 1 => 0x0A
  | 2 => 0x06
  | 3 => 0x05
  | 4 => 0x08
  | 5 => 0x07
  | 6 => 0x10
  | 7 => 0x11
  | 8 => 0x12
  | 9 => 0x13
  | 10 => 0x14
  | 11 => 0x15
  | 12 => 0x16
  | 13 => 0x17
  | _ => 0x00

/-- A frame of 16 bits.  `package_address` is declared outside this repository. -/
def frame (packageAddress : Address → UInt8) (bb : Address) (data1 : UInt8) : Package :=
  ⟨packageAddress bb, data1, 0, .block16, 0⟩

/-- What a call sends. -/
def DaliCall.package (packageAddress : Address → UInt8) : DaliCall → Package
  | .arcPower adr gurup power =>
    frame packageAddress { adresType adr gurup {} with arcPower := true } power
  | .off adr gurup => frame packageAddress { adresType adr gurup {} with arcPower := false } 0x00
  | .commandAction adr gurup comm =>
    frame packageAddress { adresType adr gurup {} with arcPower := false } (commandByte comm)

def cronCallback (jb : ZamanJob) : List DaliCall :=
  if jb.type = 1 then
    (if jb.command = 1 then [.arcPower jb.addr 1 jb.power] else []) ++
    (if jb.command = 2 then [.off jb.addr 1] else [])
  else
    if jb.command = 3 then [.off 255 0, .commandAction 255 0 (jb.addr + 5)] else []

/-! ### What the jobs are for -/

inductive Target
  | group (n : UInt8)
  | scene (s : UInt8)
  deriving DecidableEq, Repr

def targets : List Target :=
  (List.range 16).map (fun i => .group (UInt8.ofNat (i + 1))) ++
    (List.range 8).map fun i => .scene (UInt8.ofNat (i + 1))

def ZamanCommand.target (c : ZamanCommand) : Option Target :=
  if c.gurup = 1 then some (.group c.adres)
  else if c.gurup = 0 then some (.scene c.adres) else none

/-- A time at which a target is switched on or off. -/
structure Entry where
  target : Target
  on : Bool
  saat : UInt8
  dakika : UInt8
  power : UInt8
  deriving DecidableEq, Repr

def Entry.isSet (e : Entry) : Bool := !(e.saat == 0 && e.dakika == 0)

def effectivePower (power : UInt8) : UInt8 := if power < 10 then 150 else power

/-- The entries that a command sets for its target. -/
def ZamanCommand.entries (c : ZamanCommand) (t : Target) : List Entry :=
  [⟨t, true, c.on1s, c.on1d, effectivePower c.pow1⟩,
    ⟨t, true, c.on2s, c.on2d, effectivePower c.pow2⟩, ⟨t, false, c.off1s, c.off1d, 0⟩,
    ⟨t, false, c.off2s, c.off2d, 0⟩].filter Entry.isSet

/-- The last command for a target. -/
def latest (cs : List ZamanCommand) (t : Target) : Option ZamanCommand :=
  (cs.filter fun c => c.target = some t).getLast?

/-- The entries that are set after the commands. -/
def entries (cs : List ZamanCommand) : List Entry :=
  targets.flatMap fun t => (latest cs t).elim [] fun c => c.entries t

/-- A broadcast of a command byte. -/
def broadcast (packageAddress : Address → UInt8) (data1 : UInt8) : Package :=
  frame packageAddress { broadcastAdr := true, data := 255 } data1

/-- The calls do what the entry is for: a scene is recalled after all lamps were switched off, and
there is nothing to do when it ends. -/
def Entry.Performed (packageAddress : Address → UInt8) (e : Entry) (calls : List DaliCall) : Prop :=
  match e.target, e.on with
  | .group n, true => calls = [.arcPower n 1 e.power]
  | .group n, false => calls = [.off n 1]
  | .scene s, true => calls.map (DaliCall.package packageAddress) =
      [broadcast packageAddress 0x00, broadcast packageAddress (0x10 + (s - 1))]
  | .scene _, false => calls = []

/-- Each job is the one of an entry, and does what the entry is for. -/
def Timetable.OnTarget (packageAddress : Address → UInt8) (cs : List ZamanCommand) (d : Timetable) :
    Prop :=
  List.Forall₂ (fun e j => j.expr = cronExpr e.dakika e.saat ∧
    e.Performed packageAddress (cronCallback j.data)) (entries cs) d.jobs

/-- Both parts of a time are zero, or neither. -/
def PlainTime (saat dakika : UInt8) : Prop := saat = 0 ∧ dakika = 0 ∨ 0 < saat ∧ 0 < dakika

/-- A command for a group or a scene. -/
structure ZamanCommand.Plain (c : ZamanCommand) : Prop where
  target : ∃ t ∈ targets, c.target = some t
  on1 : PlainTime c.on1s c.on1d
  on2 : PlainTime c.on2s c.on2d
  off1 : PlainTime c.off1s c.off1d
  off2 : PlainTime c.off2s c.off2d

/-- The hours and minutes are those of a clock. -/
structure ZamanCommand.OnClock (c : ZamanCommand) : Prop where
  on1 : c.on1s ≤ 23 ∧ c.on1d ≤ 59
  on2 : c.on2s ≤ 23 ∧ c.on2d ≤ 59
  off1 : c.off1s ≤ 23 ∧ c.off1d ≤ 59
  off2 : c.off2s ≤ 23 ∧ c.off2d ≤ 59

/-! ### The jobs of one command -/

def Target.slot : Target → UInt8
  | .group n => n
  | .scene s => s + 16

/-- The job that `init_cron` creates for an entry. -/
def Entry.job (e : Entry) : CronJob :=
  let cm : UInt8 := match e.target, e.on with
    | .group _, true => 1
    | .scene _, true => 3
    | _, false => 2
  ⟨cronExpr e.dakika e.saat, { createZjob e.target.slot cm with power := e.power }⟩

theorem jobWhen_entry {saat dakika : UInt8} (h : PlainTime saat dakika) (t : Target) (on : Bool)
    (power : UInt8) :
    jobWhen saat dakika (Entry.job ⟨t, on, saat, dakika, power⟩).data =
      ([⟨t, on, saat, dakika, power⟩].filter Entry.isSet).map Entry.job := by
  unfold jobWhen
  rcases h with ⟨rfl, rfl⟩ | hpos
  · rfl
  · have hne : saat ≠ 0 := fun h0 => absurd (h0 ▸ hpos.1) (by decide)
    have hset : Entry.isSet ⟨t, on, saat, dakika, power⟩ = true := by simp [Entry.isSet, hne]
    rw [if_pos hpos, List.filter_cons_of_pos hset]
    rfl

/-- The flag `active` changes nothing. -/
theorem recordJobs_eq {kk : Zaman} (hkk : kk.Marked) (i : UInt8) :
    recordJobs i kk =
      jobWhen kk.on1saat kk.on1dakika
        { createZjob i (if kk.gurup = 0 then 3 else 1) with power := kk.power1 } ++
      jobWhen kk.on2saat kk.on2dakika
        { createZjob i (if kk.gurup = 0 then 3 else 1) with power := kk.power2 } ++
      jobWhen kk.off1saat kk.off1dakika { createZjob i 2 with power := 0 } ++
      jobWhen kk.off2saat kk.off2dakika { createZjob i 2 with power := 0 } := by
  unfold recordJobs
  by_cases hactive : 0 < kk.active
  · rw [if_pos hactive]
  · have hnone : ∀ t ∈ kk.times 0, ∀ jb, jobWhen t.saat t.dakika jb = [] := by
      intro t ht jb
      refine if_neg fun hpos => hactive ((hkk 0).mpr ⟨t, ht, ?_⟩)
      simp [ZamanTime.full, hpos]
    rw [if_neg hactive, hnone ⟨0, kk.on1saat, kk.on1dakika⟩ (by simp [Zaman.times]),
      hnone ⟨0, kk.on2saat, kk.on2dakika⟩ (by simp [Zaman.times]),
      hnone ⟨0, kk.off1saat, kk.off1dakika⟩ (by simp [Zaman.times]),
      hnone ⟨0, kk.off2saat, kk.off2dakika⟩ (by simp [Zaman.times])]
    rfl

theorem job_on {c : ZamanCommand} {t : Target} (ht : c.target = some t)
    (saat dakika power : UInt8) : (Entry.job ⟨t, true, saat, dakika, power⟩).data =
      { createZjob t.slot (if c.record.gurup = 0 then 3 else 1) with power := power } := by
  have hgurup : c.record.gurup = c.gurup := rfl
  unfold ZamanCommand.target at ht
  rw [hgurup]
  by_cases hgroup : c.gurup = 1
  · rw [if_pos hgroup] at ht
    cases ht
    rw [hgroup]
    rfl
  · by_cases hscene : c.gurup = 0
    · rw [if_neg hgroup, if_pos hscene] at ht
      cases ht
      rw [hscene]
      rfl
    · rw [if_neg hgroup, if_neg hscene] at ht
      cases ht

theorem job_off (t : Target) (saat dakika : UInt8) :
    (Entry.job ⟨t, false, saat, dakika, 0⟩).data = { createZjob t.slot 2 with power := 0 } := by
  cases t <;> rfl

/-- A record that a command wrote has the jobs of the command's entries. -/
theorem recordJobs_record {c : ZamanCommand} (hc : c.Plain) {t : Target} (ht : c.target = some t) :
    recordJobs t.slot c.record = (c.entries t).map Entry.job := by
  have hentries : c.entries t =
      [⟨t, true, c.on1s, c.on1d, effectivePower c.pow1⟩].filter Entry.isSet ++
      [⟨t, true, c.on2s, c.on2d, effectivePower c.pow2⟩].filter Entry.isSet ++
      [⟨t, false, c.off1s, c.off1d, 0⟩].filter Entry.isSet ++
      [⟨t, false, c.off2s, c.off2d, 0⟩].filter Entry.isSet := by
    simp only [← List.filter_append]
    rfl
  rw [hentries, List.map_append, List.map_append, List.map_append, ← jobWhen_entry hc.on1,
    ← jobWhen_entry hc.on2, ← jobWhen_entry hc.off1, ← jobWhen_entry hc.off2, job_on ht, job_on ht,
    job_off, job_off, recordJobs_eq (record_marked c)]
  rfl

/-! ### The file after a run -/

theorem targets_slot {t : Target} (ht : t ∈ targets) : 1 ≤ t.slot ∧ t.slot ≤ 24 := by
  revert t
  decide

theorem slot_inj : ∀ t ∈ targets, ∀ u ∈ targets, t.slot = u.slot → t = u := by
  decide +kernel

/-- The records of `ZAMAN_FILE` are those of the latest commands. -/
structure Kept (cs : List ZamanCommand) (zaman : UInt8 → Zaman) : Prop where
  record : ∀ t ∈ targets, zaman t.slot = (latest cs t).elim {} ZamanCommand.record
  other : ∀ i : UInt8, i < 1 ∨ 24 < i → zaman i = {}

theorem latest_concat (cs : List ZamanCommand) (c : ZamanCommand) (t : Target) :
    latest (cs ++ [c]) t = if c.target = some t then some c else latest cs t := by
  by_cases h : c.target = some t
  · simp [latest, h]
  · simp [latest, h]

theorem slot_of_target {c : ZamanCommand} {t : Target} (ht : c.target = some t) :
    slot c.gurup c.adres = some t.slot := by
  unfold ZamanCommand.target at ht
  unfold slot
  split at ht
  · cases ht
    exact if_pos ‹_›
  · rename_i hgroup
    rw [if_neg hgroup]
    split at ht
    · cases ht
      exact if_pos ‹_›
    · cases ht

theorem written_kept {cs : List ZamanCommand} {c : ZamanCommand} {zaman : UInt8 → Zaman}
    (hz : Kept cs zaman) (hc : c.Plain) : Kept (cs ++ [c]) (written zaman c) := by
  obtain ⟨t, ht, htarget⟩ := hc.target
  have hwritten : written zaman c = Function.update zaman t.slot c.record := by
    rw [written, slot_of_target htarget]
  have hslot := targets_slot ht
  refine ⟨fun u hu => ?_, fun i hi => ?_⟩
  · rw [hwritten, latest_concat, htarget]
    by_cases hut : u = t
    · rw [hut, Function.update_self, if_pos rfl]
      rfl
    · rw [Function.update_of_ne fun h => hut (slot_inj u hu t ht h),
        if_neg fun h => hut (Option.some.inj h).symm]
      exact hz.record u hu
  · rw [hwritten, Function.update_of_ne, hz.other i hi]
    rintro rfl
    rcases hi with hi | hi
    · exact absurd hslot.1 (UInt8.not_le.mpr hi)
    · exact absurd hslot.2 (UInt8.not_le.mpr hi)

theorem mem_of_latest {cs : List ZamanCommand} {c : ZamanCommand} {t : Target}
    (h : latest cs t = some c) : c ∈ cs ∧ c.target = some t := by
  obtain ⟨hmem, htarget⟩ := List.mem_filter.mp (List.mem_of_getLast? h)
  exact ⟨hmem, of_decide_eq_true htarget⟩

/-- The records from 1 to 24 have the jobs of the entries, and the others have none. -/
theorem allJobs_kept {cs : List ZamanCommand} {zaman : UInt8 → Zaman} (hz : Kept cs zaman)
    (hplain : ∀ c ∈ cs, c.Plain) : allJobs zaman = (entries cs).map Entry.job := by
  have hslots : (List.range 32).map UInt8.ofNat =
      0 :: (targets.map Target.slot ++ [25, 26, 27, 28, 29, 30, 31]) := by
    decide
  have hall : allJobs zaman =
      ((List.range 32).map UInt8.ofNat).flatMap fun i => recordJobs i (zaman i) := by
    rw [List.flatMap_map]
    rfl
  have hfirst : recordJobs 0 (zaman 0) = [] := by
    rw [hz.other 0 (by decide)]
    rfl
  have hpast : ([25, 26, 27, 28, 29, 30, 31] : List UInt8).all (24 < ·) = true := by
    decide
  have hlast : ([25, 26, 27, 28, 29, 30, 31] : List UInt8).flatMap
      (fun i => recordJobs i (zaman i)) = [] := by
    refine List.flatMap_eq_nil_iff.mpr fun i hi => ?_
    rw [hz.other i (.inr (of_decide_eq_true (List.all_eq_true.mp hpast i hi)))]
    rfl
  rw [hall, hslots, List.flatMap_cons, hfirst, List.nil_append, List.flatMap_append, hlast,
    List.append_nil, List.flatMap_map, entries, List.map_flatMap]
  refine List.flatMap_congr fun t ht => ?_
  rw [hz.record t ht]
  cases hlatest : latest cs t with
  | none => rfl
  | some c =>
    obtain ⟨hmem, htarget⟩ := mem_of_latest hlatest
    exact recordJobs_record (hplain c hmem) htarget

theorem onClock_of_mem {c : ZamanCommand} (hc : c.OnClock) {t : Target} {e : Entry}
    (he : e ∈ c.entries t) : e.saat ≤ 23 ∧ e.dakika ≤ 59 := by
  have hmem := List.mem_of_mem_filter he
  simp only [List.mem_cons, List.not_mem_nil, or_false] at hmem
  rcases hmem with rfl | rfl | rfl | rfl
  · exact hc.on1
  · exact hc.on2
  · exact hc.off1
  · exact hc.off2

theorem target_of_mem_entries {c : ZamanCommand} {t : Target} {e : Entry} (he : e ∈ c.entries t) :
    e.target = t := by
  have hmem := List.mem_of_mem_filter he
  simp only [List.mem_cons, List.not_mem_nil, or_false] at hmem
  rcases hmem with rfl | rfl | rfl | rfl <;> rfl

theorem mem_entries {cs : List ZamanCommand} {e : Entry} :
    e ∈ entries cs ↔ e.target ∈ targets ∧
      ∃ c, latest cs e.target = some c ∧ e ∈ c.entries e.target := by
  unfold entries
  rw [List.mem_flatMap]
  constructor
  · rintro ⟨t, ht, he⟩
    cases hlatest : latest cs t with
    | none =>
      rw [hlatest] at he
      cases he
    | some c =>
      rw [hlatest] at he
      have htarget := target_of_mem_entries he
      rw [htarget]
      exact ⟨ht, c, hlatest, he⟩
  · rintro ⟨ht, c, hlatest, he⟩
    refine ⟨e.target, ht, ?_⟩
    rw [hlatest]
    exact he

/-- The entries are for times of a clock. -/
theorem onClock_of_mem_entries {cs : List ZamanCommand} (hclock : ∀ c ∈ cs, c.OnClock) {e : Entry}
    (he : e ∈ entries cs) : e.saat ≤ 23 ∧ e.dakika ≤ 59 := by
  obtain ⟨-, c, hlatest, hmem⟩ := mem_entries.mp he
  exact onClock_of_mem (hclock c (mem_of_latest hlatest).1) hmem

section

variable {rounds : Nat} (hrounds : 86400 < rounds) (clock : Nat → Clock)

include hrounds

/-- `cron_next` returns for the jobs of entries. -/
theorem created_entries {es : List Entry} (hes : ∀ e ∈ es, e.saat ≤ 23 ∧ e.dakika ≤ 59) :
    created rounds clock 0 (es.map Entry.job) = es.map Entry.job := by
  rw [created, Table.upTo_eq_self_iff]
  rintro ⟨job, k⟩ hw
  obtain ⟨e, he, rfl⟩ := List.mem_map.mp (List.fst_mem_of_mem_zipIdx hw)
  obtain ⟨hsaat, hdakika⟩ := hes e he
  exact Option.isSome_of_eq_some (nextTime_daily hrounds hdakika hsaat (clock k))

/-- A run of commands that never set more than 20 times has a result. -/
theorem exists_run_kept (cs : List ZamanCommand) (hplain : ∀ c ∈ cs, c.Plain)
    (hclock : ∀ c ∈ cs, c.OnClock) (hroom : ∀ ps, ps <+: cs → (entries ps).length ≤ 20) :
    ∃ d, Runs.run (setZaman rounds clock) timetableInit cs = some d ∧ Kept cs d.zaman ∧
      d.jobs = (entries cs).map Entry.job := by
  induction cs using List.reverseRecOn with
  | nil =>
    refine ⟨timetableInit, rfl, ⟨fun t _ => rfl, fun i _ => rfl⟩, ?_⟩
    decide +kernel
  | append_singleton cs c ih =>
    have hc := hplain c (by simp)
    obtain ⟨d, hrun, hkept, -⟩ := ih (fun c hc => hplain c (List.mem_append_left _ hc))
      (fun c hc => hclock c (List.mem_append_left _ hc))
      fun ps hps => hroom ps (hps.trans (List.prefix_append cs [c]))
    have hz := written_kept hkept hc
    have hjobs := allJobs_kept hz hplain
    have hcreated := created_entries hrounds (fun k => clock (d.readings + k))
      fun e he => onClock_of_mem_entries hclock he
    have hlen : (allJobs (written d.zaman c)).length ≤ 20 := by
      rw [hjobs, List.length_map]
      exact hroom _ (List.prefix_refl _)
    rw [← hjobs] at hcreated
    obtain ⟨t, -, htarget⟩ := hc.target
    refine ⟨⟨written d.zaman c, allJobs (written d.zaman c),
      d.readings + (allJobs (written d.zaman c)).length⟩, ?_, hz, hjobs⟩
    apply Runs.run_append_of hrun
    rw [Runs.run_cons, setZaman, slot_of_target htarget]
    simp only
    rw [scheduled_eq, if_pos ⟨hcreated, hlen⟩]
    rfl

end

/-! ### What the jobs do -/

theorem group_le {n : UInt8} (h : .group n ∈ targets) : n < 16 ∨ n = 16 := by
  obtain ⟨i, hi, rfl⟩ : ∃ i < 16, UInt8.ofNat (i + 1) = n := by
    simpa [targets] using h
  revert i
  decide

/-- The record and the command number of a scene lead back to its number. -/
theorem scene_number {s : UInt8} (h : .scene s ∈ targets) :
    ¬s + 16 < 16 ∧ s + 16 - 16 = s ∧ commandByte (s + 5) = 0x10 + (s - 1) := by
  obtain ⟨i, hi, rfl⟩ : ∃ i < 8, UInt8.ofNat (i + 1) = s := by
    simpa [targets] using h
  revert i
  decide

section

variable (packageAddress : Address → UInt8)

/-- The job of an entry does what the entry is for, unless the target is group 16. -/
theorem job_performed_iff {e : Entry} (he : e.target ∈ targets) :
    e.Performed packageAddress (cronCallback e.job.data) ↔ e.target ≠ .group 16 := by
  obtain ⟨t, on, saat, dakika, power⟩ := e
  cases t with
  | group n =>
    rcases group_le he with hlt | rfl
    · have hne : Target.group n ≠ .group 16 := by
        rintro ⟨⟩
        exact absurd hlt (by decide)
      cases on <;>
        simp [Entry.Performed, Entry.job, Target.slot, createZjob, hlt, cronCallback, hne]
    · cases on <;> simp [Entry.Performed, Entry.job, Target.slot, createZjob, cronCallback]
  | scene s =>
    obtain ⟨hscene, haddr, hcommand⟩ := scene_number he
    cases on with
    | true =>
      simp [Entry.Performed, Entry.job, Target.slot, createZjob, hscene, haddr, cronCallback,
        DaliCall.package, hcommand, broadcast, adresType]
    | false =>
      simp [Entry.Performed, Entry.job, Target.slot, createZjob, hscene, cronCallback]

/-- As long as no more than 20 times are set, every job acts on the target of its entry and does
what the entry is for if and only if no time is set for group 16. -/
theorem setZaman_onTarget {rounds : Nat} (hrounds : 86400 < rounds) (clock : Nat → Clock)
    (cs : List ZamanCommand) (hplain : ∀ c ∈ cs, c.Plain) (hclock : ∀ c ∈ cs, c.OnClock)
    (hroom : ∀ ps, ps <+: cs → (entries ps).length ≤ 20) :
    (∃ d, Runs.run (setZaman rounds clock) timetableInit cs = some d ∧
      d.OnTarget packageAddress cs) ↔
        ∀ c, latest cs (.group 16) = some c → c.entries (.group 16) = [] := by
  obtain ⟨d, hrun, -, hjobs⟩ := exists_run_kept hrounds clock cs hplain hclock hroom
  have honTarget : d.OnTarget packageAddress cs ↔ ∀ e ∈ entries cs, e.target ≠ .group 16 := by
    unfold Timetable.OnTarget
    rw [hjobs, List.forall₂_map_right_iff, List.forall₂_same]
    refine forall₂_congr fun e he => ?_
    rw [job_performed_iff packageAddress (mem_entries.mp he).1]
    exact and_iff_right rfl
  constructor
  · rintro ⟨d', hrun', h⟩ c hlatest
    obtain rfl : d = d' := Option.some.inj (hrun.symm.trans hrun')
    refine List.eq_nil_iff_forall_not_mem.mpr fun e he => ?_
    have htarget := target_of_mem_entries he
    refine honTarget.mp h e (mem_entries.mpr ?_) htarget
    rw [htarget]
    exact ⟨by decide, c, hlatest, he⟩
  · intro h
    refine ⟨d, hrun, honTarget.mpr fun e he htarget => ?_⟩
    obtain ⟨-, c, hlatest, hmem⟩ := mem_entries.mp he
    rw [htarget] at hlatest hmem
    rw [h c hlatest] at hmem
    cases hmem

end

/-- The address byte of a frame. -/
def addressByte (bb : Address) : UInt8 :=
  (if bb.broadcastAdr then 0xFE else if bb.groupAdr then 0x80 + 2 * bb.data else 2 * bb.data) +
    if bb.arcPower then 0 else 1

/-- Scene 2 at 20:05. -/
def aksam : ZamanCommand := { adres := 2, gurup := 0, on1s := 20, on1d := 5 }

theorem setZaman_onTarget_sabah : ∃ d,
    Runs.run (setZaman 86401 november) timetableInit [sabah, aksam] = some d ∧
      d.OnTarget addressByte [sabah, aksam] := by
  refine (setZaman_onTarget addressByte (by decide) november [sabah, aksam] ?_ ?_ ?_).mpr ?_
  · intro c hc
    rcases List.mem_pair.mp hc with rfl | rfl
    · exact ⟨⟨.group 3, by decide, rfl⟩, .inr (by decide), .inl (by decide), .inr (by decide),
        .inl (by decide)⟩
    · exact ⟨⟨.scene 2, by decide, rfl⟩, .inr (by decide), .inl (by decide), .inl (by decide),
        .inl (by decide)⟩
  · intro c hc
    rcases List.mem_pair.mp hc with rfl | rfl
    · exact ⟨by decide, by decide, by decide, by decide⟩
    · exact ⟨by decide, by decide, by decide, by decide⟩
  · have hinits : ∀ ps ∈ [sabah, aksam].inits, (entries ps).length ≤ 20 := by decide +kernel
    exact fun ps hps => hinits ps ((List.mem_inits ps _).mpr hps)
  · intro c hlatest
    have hnone : latest [sabah, aksam] (.group 16) = none := by decide
    rw [hnone] at hlatest
    cases hlatest

/-- The jobs of group 16 do nothing. -/
theorem group16_idle : ∃ d,
    Runs.run (setZaman 86401 november) timetableInit [{ sabah with adres := 16 }] = some d ∧
      (d.jobs.map fun j => cronCallback j.data) = [[], []] ∧
      ¬d.OnTarget addressByte [{ sabah with adres := 16 }] := by
  have hrun : (Runs.run (setZaman 86401 november) timetableInit
      [{ sabah with adres := 16 }]).map (fun d => d.jobs.map fun j => cronCallback j.data) =
        some [[], []] := by
    decide +kernel
  obtain ⟨d, hd, hcalls⟩ := Option.map_eq_some_iff.mp hrun
  refine ⟨d, hd, hcalls, fun h => ?_⟩
  have hentries : entries [{ sabah with adres := 16 }] =
      [⟨.group 16, true, 7, 30, 200⟩, ⟨.group 16, false, 22, 15, 0⟩] := by
    decide +kernel
  unfold Timetable.OnTarget at h
  rw [hentries] at h
  obtain ⟨j, js, ⟨-, hperformed⟩, -, hjobs⟩ := List.forall₂_cons_left_iff.mp h
  rw [hjobs, List.map_cons] at hcalls
  have hnone := (List.cons.inj hcalls).1
  rw [hnone] at hperformed
  cases hperformed

end DaliController.Schedule
