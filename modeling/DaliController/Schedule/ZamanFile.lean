import DaliController.Lib.RecordFile
import DaliController.Schedule.Targets

/-! `set_zaman` and `get_zaman` on the bytes of `ZAMAN_FILE`.  A group and a scene whose record
numbers agree as bytes share a record.  The first record that is written is often behind the end of
the file: the storage is assumed to fill the gap with zeros, which SPIFFS does not promise. -/

namespace DaliController.Schedule

open RecordFile

/-! ### The code -/

/-- `sizeof(zaman_t)`. -/
def zamanSize : Nat := 12

def Zaman.bytes (kk : Zaman) : List UInt8 :=
  [kk.active, kk.on1saat, kk.on1dakika, kk.on2saat, kk.on2dakika, kk.off1saat, kk.off1dakika,
    kk.off2saat, kk.off2dakika, kk.power1, kk.power2, kk.gurup]

def Zaman.ofBytes (xs : List UInt8) : Zaman where
  active := xs.getD 0 0
  on1saat := xs.getD 1 0
  on1dakika := xs.getD 2 0
  on2saat := xs.getD 3 0
  on2dakika := xs.getD 4 0
  off1saat := xs.getD 5 0
  off1dakika := xs.getD 6 0
  off2saat := xs.getD 7 0
  off2dakika := xs.getD 8 0
  power1 := xs.getD 9 0
  power2 := xs.getD 10 0
  gurup := xs.getD 11 0

/-- `write_file`, on a file system that fills gaps with zeros. -/
def writeFile (file : List UInt8) (flg : List UInt8) (size : Nat) (objNum : UInt8) : List UInt8 :=
  setRecord 0 size file objNum.toNat flg

/-- `read_file` into a `zaman_t` that is zero. -/
def readZaman (file : List UInt8) (objNum : UInt8) : Zaman :=
  .ofBytes (record 0 zamanSize file objNum.toNat)

/-- `ZAMAN_FILE` after `set_zaman`. -/
def setZamanFile (file : List UInt8) (c : ZamanCommand) : List UInt8 :=
  let kk := c.record
  let file := if c.gurup = 1 then writeFile file kk.bytes zamanSize c.adres else file
  if c.gurup = 0 then writeFile file kk.bytes zamanSize (c.adres + 16) else file

/-- The times and powers of the reply to `get_zaman`. -/
structure ZamanTimes where
  on1s : UInt8
  on1d : UInt8
  on2s : UInt8
  on2d : UInt8
  off1s : UInt8
  off1d : UInt8
  off2s : UInt8
  off2d : UInt8
  pow1 : UInt8
  pow2 : UInt8
  deriving DecidableEq, Repr

/-- The reply to `get_zaman`. -/
structure ZamanReply extends ZamanTimes where
  adres : UInt8
  gurup : UInt8
  deriving DecidableEq, Repr

def getZaman (file : List UInt8) (adr grp : UInt8) : ZamanReply :=
  let kk : Zaman := {}
  let kk := if grp = 1 then readZaman file adr else kk
  let kk := if grp = 0 then readZaman file (adr + 16) else kk
  { adres := adr
    gurup := grp
    on1s := kk.on1saat
    on1d := kk.on1dakika
    on2s := kk.on2saat
    on2d := kk.on2dakika
    off1s := kk.off1saat
    off1d := kk.off1dakika
    off2s := kk.off2saat
    off2d := kk.off2dakika
    pow1 := kk.power1
    pow2 := kk.power2 }

/-- The file that `config` creates. -/
def zamanFileInit : List UInt8 :=
  (List.range 32).foldl
    (fun file i => writeFile file (Zaman.bytes {}) zamanSize (UInt8.ofNat i)) []

/-- The file after a sequence of commands.  `init_cron`, which follows each of them, only reads
it. -/
def zamanFile (file : List UInt8) (cs : List ZamanCommand) : List UInt8 :=
  cs.foldl setZamanFile file

/-! ### What the records are for -/

def Target.adres : Target → UInt8
  | .group n => n
  | .scene s => s

def Target.gurup : Target → UInt8
  | .group _ => 1
  | .scene _ => 0

/-- What `get_zaman` returns for a group or a scene. -/
def zamanOf (file : List UInt8) (t : Target) : ZamanTimes :=
  (getZaman file t.adres t.gurup).toZamanTimes

/-- The times and powers of a command. -/
def ZamanCommand.times (c : ZamanCommand) : ZamanTimes :=
  ⟨c.on1s, c.on1d, c.on2s, c.on2d, c.off1s, c.off1d, c.off2s, c.off2d, effectivePower c.pow1,
    effectivePower c.pow2⟩

/-- In the run of the commands, `get_zaman` for the target always returns what the last `set_zaman`
for it has set, and no `set_zaman` for another target changes what it returns. -/
structure ZamanMap (file : List UInt8) (cs : List ZamanCommand) (t : Target) : Prop where
  last : ∀ ps c, ps <+: cs → latest ps t = some c → zamanOf (zamanFile file ps) t = c.times
  frame : ∀ ps c, ps ++ [c] <+: cs → c.target ≠ some t →
    zamanOf (zamanFile file (ps ++ [c])) t = zamanOf (zamanFile file ps) t

/-- The other target with the same record. -/
def Target.alias : Target → Target
  | .group n => .scene (n - 16)
  | .scene s => .group (s + 16)

/-- The times and powers that the commands leave for the target. -/
def setTimesOf (file : List UInt8) (cs : List ZamanCommand) (t : Target) : ZamanTimes :=
  (latest cs t).elim (zamanOf file t) ZamanCommand.times

/-- A command for the other target with the same record finds its own times and powers there. -/
def Apart (file : List UInt8) (cs : List ZamanCommand) (t : Target) : Prop :=
  ∀ ps c, ps ++ [c] <+: cs → c.target = some t.alias → c.times = setTimesOf file ps t

/-! ### One command -/

theorem ofBytes_bytes (kk : Zaman) : Zaman.ofBytes kk.bytes = kk := rfl

theorem setZamanFile_eq (file : List UInt8) (c : ZamanCommand) :
    setZamanFile file c = (slot c.gurup c.adres).elim file fun i =>
      setRecord 0 zamanSize file i.toNat c.record.bytes := by
  unfold setZamanFile slot
  by_cases hgroup : c.gurup = 1
  · simp only [hgroup]
    rfl
  · by_cases hscene : c.gurup = 0
    · simp only [hscene]
      rfl
    · simp only [if_neg hgroup, if_neg hscene]
      rfl

/-- The records are those of `written`. -/
theorem readZaman_setZamanFile (file : List UInt8) (c : ZamanCommand) :
    readZaman (setZamanFile file c) = written (readZaman file) c := by
  rw [setZamanFile_eq, written]
  cases slot c.gurup c.adres with
  | none => rfl
  | some i =>
    funext j
    change readZaman (setRecord 0 zamanSize file i.toNat c.record.bytes) j =
      Function.update (readZaman file) i c.record j
    by_cases hij : j = i
    · have hself : record 0 zamanSize (setRecord 0 zamanSize file i.toNat c.record.bytes) i.toNat =
          c.record.bytes := record_setRecord_self 0 file _ rfl
      rw [hij, Function.update_self]
      exact (congrArg Zaman.ofBytes hself).trans (ofBytes_bytes _)
    · have hne : j.toNat ≠ i.toNat := fun h => hij (UInt8.toNat_inj.mp h)
      rw [Function.update_of_ne hij]
      exact congrArg Zaman.ofBytes (record_setRecord_of_ne 0 file hne rfl)

/-- `ZAMAN_FILE` is the timetable's file, as long as `init_cron` returns and stays inside of
`jobs`. -/
theorem run_setZaman_file {rounds : Nat} {clock : Nat → Clock} {file : List UInt8}
    {d d' : Timetable} {cs : List ZamanCommand} (hfile : d.zaman = readZaman file)
    (h : Runs.run (setZaman rounds clock) d cs = some d') :
    d'.zaman = readZaman (zamanFile file cs) := by
  induction cs generalizing file d with
  | nil =>
    cases h
    exact hfile
  | cons c cs ih =>
    obtain ⟨u, hstep, hrest⟩ := Runs.run_cons_eq_some h
    refine ih ?_ hrest
    rw [readZaman_setZamanFile, ← hfile]
    unfold setZaman at hstep
    split at hstep
    · rw [scheduled_eq] at hstep
      split at hstep
      · cases hstep
        rfl
      · cases hstep
    · rename_i hslot
      cases hstep
      rw [written, hslot]

/-! ### Targets and records -/

/-- The times and powers of a record. -/
def Zaman.shown (kk : Zaman) : ZamanTimes :=
  ⟨kk.on1saat, kk.on1dakika, kk.on2saat, kk.on2dakika, kk.off1saat, kk.off1dakika, kk.off2saat,
    kk.off2dakika, kk.power1, kk.power2⟩

theorem zamanOf_eq (file : List UInt8) (t : Target) :
    zamanOf file t = (readZaman file t.slot).shown := by
  cases t <;> rfl

theorem slot_eq_iff (t u : Target) : u.slot = t.slot ↔ u = t ∨ u = t.alias := by
  cases t with
  | group n =>
    cases u with
    | group m => simp [Target.slot, Target.alias]
    | scene s =>
      have hsub : s + 16 = n ↔ s = n - 16 := by
        constructor
        · rintro rfl
          exact (UInt8.add_sub_cancel s 16).symm
        · rintro rfl
          exact UInt8.sub_add_cancel n 16
      simpa [Target.slot, Target.alias] using hsub
  | scene s =>
    cases u with
    | group n => simp [Target.slot, Target.alias]
    | scene r => simp [Target.slot, Target.alias]

theorem alias_ne (t : Target) : t.alias ≠ t := by
  cases t <;> simp [Target.alias]

/-- A command writes the record of its target, and no other command writes any. -/
theorem slot_eq_target (c : ZamanCommand) : slot c.gurup c.adres = c.target.map Target.slot := by
  unfold slot ZamanCommand.target
  split
  · rfl
  · split <;> rfl

theorem zamanOf_setZamanFile (file : List UInt8) (c : ZamanCommand) (t : Target) :
    zamanOf (setZamanFile file c) t =
      if c.target = some t ∨ c.target = some t.alias then c.times else zamanOf file t := by
  rw [zamanOf_eq, readZaman_setZamanFile, written, slot_eq_target]
  cases htarget : c.target with
  | none => simp [zamanOf_eq]
  | some u =>
    have hiff := slot_eq_iff t u
    simp only [Option.map_some, Option.some.injEq, ← hiff]
    by_cases h : u.slot = t.slot
    · rw [if_pos h, h, Function.update_self]
      rfl
    · rw [if_neg h, Function.update_of_ne (Ne.symm h), zamanOf_eq]

/-! ### Sequences of commands -/

theorem zamanFile_concat (file : List UInt8) (ps : List ZamanCommand) (c : ZamanCommand) :
    zamanFile file (ps ++ [c]) = setZamanFile (zamanFile file ps) c := by
  rw [zamanFile, List.foldl_append]
  rfl

theorem setTimesOf_concat (file : List UInt8) (ps : List ZamanCommand) (c : ZamanCommand)
    (t : Target) : setTimesOf file (ps ++ [c]) t =
      if c.target = some t then c.times else setTimesOf file ps t := by
  rw [setTimesOf, latest_concat]
  split <;> rfl

/-- `get_zaman` returns what the commands leave for the target. -/
def Faithful (file : List UInt8) (cs : List ZamanCommand) (t : Target) : Prop :=
  ∀ ps, ps <+: cs → zamanOf (zamanFile file ps) t = setTimesOf file ps t

variable {file : List UInt8} {cs : List ZamanCommand} {t : Target}

theorem zamanMap_iff_faithful : ZamanMap file cs t ↔ Faithful file cs t := by
  constructor
  · intro h ps hps
    induction ps using List.reverseRecOn with
    | nil => rfl
    | append_singleton ps c ih =>
      rw [setTimesOf_concat]
      by_cases htarget : c.target = some t
      · rw [if_pos htarget]
        exact h.last _ c hps (by rw [latest_concat, if_pos htarget])
      · rw [if_neg htarget, h.frame ps c hps htarget]
        exact ih ((List.prefix_append ps [c]).trans hps)
  · intro h
    constructor
    · intro ps c hps hlatest
      rw [h ps hps, setTimesOf, hlatest]
      rfl
    · intro ps c hps htarget
      rw [h _ hps, h ps ((List.prefix_append ps [c]).trans hps), setTimesOf_concat, if_neg htarget]

theorem faithful_iff_apart : Faithful file cs t ↔ Apart file cs t := by
  constructor
  · intro h ps c hps htarget
    have hne : c.target ≠ some t := by
      rw [htarget]
      exact fun heq => alias_ne t (Option.some.inj heq)
    have hset := h _ hps
    rw [zamanFile_concat, zamanOf_setZamanFile, if_pos (.inr htarget), setTimesOf_concat,
      if_neg hne] at hset
    exact hset
  · intro h ps hps
    induction ps using List.reverseRecOn with
    | nil => rfl
    | append_singleton ps c ih =>
      have hprev := ih ((List.prefix_append ps [c]).trans hps)
      rw [zamanFile_concat, zamanOf_setZamanFile, setTimesOf_concat]
      by_cases htarget : c.target = some t
      · rw [if_pos (.inl htarget), if_pos htarget]
      · rw [if_neg htarget]
        by_cases halias : c.target = some t.alias
        · rw [if_pos (.inr halias)]
          exact h ps c hps halias
        · rw [if_neg (by simp [htarget, halias]), hprev]

/-- The records of a target behave as a map in the run of the commands if and only if no command for
the other target with the same record sets anything that the target does not have at that moment. -/
theorem zaman_map_iff (file : List UInt8) (cs : List ZamanCommand) (t : Target) :
    ZamanMap file cs t ↔ Apart file cs t :=
  zamanMap_iff_faithful.trans faithful_iff_apart

/-- Scene 1 at 20:05 replaces the times of group 17. -/
theorem group17_replaced :
    ¬ZamanMap zamanFileInit [{ sabah with adres := 17 }, { aksam with adres := 1 }]
      (.group 17) := by
  intro h
  have hframe := h.frame [{ sabah with adres := 17 }] { aksam with adres := 1 } (by simp)
    (by decide)
  revert hframe
  decide +kernel

end DaliController.Schedule
