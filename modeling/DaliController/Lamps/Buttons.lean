import DaliController.Http.Config
import DaliController.Lamps.Groups
import DaliController.Lib.FormData
import Mathlib.Algebra.Group.Nat.Even

/-! The wall buttons over whole runs.  `btn_callback` is registered for every event of a button and
changes its status at each of them, but acts only on a single click. -/

namespace DaliController.Lamps

open Http Schedule

/-! ### The code -/

/-- `button_event_t`, declared outside this repository.  The code only asks for single clicks. -/
inductive ButtonEvent
  | singleClick
  | other (event : Nat)
  deriving DecidableEq, Repr

structure Buttons where
  btn1Status : ButtonStatus
  btn2Status : ButtonStatus
  btn3Status : ButtonStatus
  deriving DecidableEq, Repr

def buttonsInit : Buttons := ⟨.empty, .empty, .empty⟩

/-- `btn_callback`, with the calls that it makes. -/
def btnCallback (globalConfig : ConfigT) (s : Buttons) (dd : String) (ev : ButtonEvent) :
    Buttons × List DaliCall :=
  let (s, calls1) := if dd = "1" then
      let btn := btnStat globalConfig.tus1 s.btn1Status
      ({ s with btn1Status := btn },
        if ev = .singleClick then btnAction globalConfig.tus1 btn globalConfig.pow1 else [])
    else (s, [])
  let (s, calls2) := if dd = "2" then
      let btn := btnStat globalConfig.tus2 s.btn2Status
      ({ s with btn2Status := btn },
        if ev = .singleClick then btnAction globalConfig.tus2 btn globalConfig.pow2 else [])
    else (s, [])
  let (s, calls3) := if dd = "3" then
      let btn := btnStat globalConfig.tus3 s.btn3Status
      ({ s with btn3Status := btn },
        if ev = .singleClick then btnAction globalConfig.tus3 btn globalConfig.pow3 else [])
    else (s, [])
  (s, calls1 ++ calls2 ++ calls3)

/-- The three calls of `Button_Config`. -/
inductive Button
  | btn1
  | btn2
  | btn3
  deriving DecidableEq, Repr

/-- The text that `Button_Config` registers with the callback. -/
def Button.num : Button → String
  | .btn1 => "1"
  | .btn2 => "2"
  | .btn3 => "3"

/-- The status of the buttons after their events. -/
def buttonsAfter (globalConfig : ConfigT) (es : List (Button × ButtonEvent)) : Buttons :=
  es.foldl (fun s e => (btnCallback globalConfig s e.1.num e.2).1) buttonsInit

/-- The calls for a single click after the events. -/
def clickCalls (globalConfig : ConfigT) (es : List (Button × ButtonEvent)) (b : Button) :
    List DaliCall :=
  (btnCallback globalConfig (buttonsAfter globalConfig es) b.num .singleClick).2

/-! ### What is to hold -/

def tus (globalConfig : ConfigT) : Button → UInt8
  | .btn1 => globalConfig.tus1
  | .btn2 => globalConfig.tus2
  | .btn3 => globalConfig.tus3

def pow (globalConfig : ConfigT) : Button → UInt8
  | .btn1 => globalConfig.pow1
  | .btn2 => globalConfig.pow2
  | .btn3 => globalConfig.pow3

/-- The command to switch on for a button that is set up for a group or for all lamps. -/
def onCall (globalConfig : ConfigT) (b : Button) : DaliCall :=
  if tus globalConfig b = 12 then .arcPower 255 0 (pow globalConfig b)
  else .arcPower (tus globalConfig b) 1 (pow globalConfig b)

def offCall (globalConfig : ConfigT) (b : Button) : DaliCall :=
  if tus globalConfig b = 12 then .off 255 0 else .off (tus globalConfig b) 1

/-- The single clicks of a button. -/
def clicks (b : Button) (es : List (Button × ButtonEvent)) : Nat := es.count (b, .singleClick)

/-- The other events of a button. -/
def others (b : Button) (es : List (Button × ButtonEvent)) : Nat :=
  es.countP fun e => e.1 = b ∧ e.2 ≠ .singleClick

/-- The single clicks of the button switch on and off in turn. -/
def Toggles (globalConfig : ConfigT) (es : List (Button × ButtonEvent)) (b : Button) : Prop :=
  ∀ ps qs, es = ps ++ (b, .singleClick) :: qs → clickCalls globalConfig ps b =
    if Even (clicks b ps) then [onCall globalConfig b] else [offCall globalConfig b]

/-! ### One event -/

section

variable {globalConfig : ConfigT}

def Buttons.status (s : Buttons) : Button → ButtonStatus
  | .btn1 => s.btn1Status
  | .btn2 => s.btn2Status
  | .btn3 => s.btn3Status

/-- An event changes the status of its own button, whatever it is. -/
theorem btnCallback_status (s : Buttons) (a b : Button) (ev : ButtonEvent) :
    (btnCallback globalConfig s a.num ev).1.status b =
      if a = b then btnStat (tus globalConfig b) (s.status b) else s.status b := by
  cases a <;> cases b <;> rfl

theorem btnCallback_calls (s : Buttons) (b : Button) :
    (btnCallback globalConfig s b.num .singleClick).2 =
      btnAction (tus globalConfig b) (btnStat (tus globalConfig b) (s.status b))
        (pow globalConfig b) := by
  cases b <;> simp [btnCallback, Button.num, tus, pow, Buttons.status]

/-- The button is set up for a group or for all lamps. -/
def Switches (globalConfig : ConfigT) (b : Button) : Prop :=
  tus globalConfig b < 8 ∨ tus globalConfig b = 12

instance (b : Button) : Decidable (Switches globalConfig b) :=
  inferInstanceAs (Decidable (_ ∨ _))

variable {b : Button}

/-- The settings that are no scene, and not without a function. -/
theorem ne_of_switches : ∀ cfg : UInt8, cfg < 8 ∨ cfg = 12 →
    cfg ≠ 13 ∧ ¬(7 < cfg ∧ cfg < 12) ∧ ¬(cfg < 8 ∧ cfg = 12) := by
  decide +kernel

theorem Switches.btnStat (h : Switches globalConfig b) (btn : ButtonStatus) :
    Lamps.btnStat (tus globalConfig b) btn = if btn = .on then .off else .on := by
  obtain ⟨hnone, hscene, -⟩ := ne_of_switches _ h
  have hset : tus globalConfig b < 8 ∨ tus globalConfig b = 12 := h
  simp [Lamps.btnStat, hnone, hscene, hset]

theorem Switches.btnAction (h : Switches globalConfig b) {btn : ButtonStatus}
    (hbtn : btn = .on ∨ btn = .off) :
    Lamps.btnAction (tus globalConfig b) btn (pow globalConfig b) =
      if btn = .on then [onCall globalConfig b] else [offCall globalConfig b] := by
  obtain ⟨-, hscene, hboth⟩ := ne_of_switches _ h
  unfold Lamps.btnAction onCall offCall
  rw [if_neg hscene]
  rcases h with hgroup | hall
  · have hne : tus globalConfig b ≠ 12 := fun h12 => hboth ⟨hgroup, h12⟩
    rcases hbtn with rfl | rfl <;> simp [hgroup, hne]
  · have hge : ¬tus globalConfig b < 8 := fun hgroup => hboth ⟨hgroup, hall⟩
    rcases hbtn with rfl | rfl <;> simp [hall]

/-! ### Runs -/

theorem clicks_concat (es : List (Button × ButtonEvent)) (a : Button) (ev : ButtonEvent) :
    clicks b (es ++ [(a, ev)]) + others b (es ++ [(a, ev)]) =
      clicks b es + others b es + if a = b then 1 else 0 := by
  unfold clicks others
  rw [List.count_append, List.countP_append, List.count_singleton, List.countP_singleton]
  by_cases ha : a = b <;> by_cases hev : ev = .singleClick <;> simp [ha, hev] <;> omega

theorem btnFlip_eq_on (btn : ButtonStatus) :
    (if btn = .on then ButtonStatus.off else .on) = .on ↔ ¬btn = .on := by
  by_cases hbtn : btn = .on <;> simp [hbtn]

/-- The status follows the number of all events of the button. -/
theorem buttonsAfter_status (h : Switches globalConfig b) (es : List (Button × ButtonEvent)) :
    (buttonsAfter globalConfig es).status b = .on ↔ ¬Even (clicks b es + others b es) := by
  induction es using List.reverseRecOn with
  | nil => cases b <;> simp [buttonsAfter, buttonsInit, Buttons.status, clicks, others]
  | append_singleton es e ih =>
    obtain ⟨a, ev⟩ := e
    rw [buttonsAfter, List.foldl_concat, btnCallback_status, clicks_concat]
    by_cases ha : a = b
    · rw [if_pos ha, if_pos ha, h.btnStat, btnFlip_eq_on, Nat.even_add_one]
      exact not_congr ih
    · rw [if_neg ha, if_neg ha, Nat.add_zero]
      exact ih

/-- A click switches on exactly after an even number of events of the button. -/
theorem clickCalls_eq (h : Switches globalConfig b) (es : List (Button × ButtonEvent)) :
    clickCalls globalConfig es b = if Even (clicks b es + others b es)
      then [onCall globalConfig b] else [offCall globalConfig b] := by
  have hbtn : Lamps.btnStat (tus globalConfig b) ((buttonsAfter globalConfig es).status b) = .on ∨
      Lamps.btnStat (tus globalConfig b) ((buttonsAfter globalConfig es).status b) = .off := by
    rw [h.btnStat]
    split
    · exact .inr rfl
    · exact .inl rfl
  have hon : Lamps.btnStat (tus globalConfig b) ((buttonsAfter globalConfig es).status b) = .on ↔
      Even (clicks b es + others b es) := by
    rw [h.btnStat, btnFlip_eq_on, buttonsAfter_status h, not_not]
  rw [clickCalls, btnCallback_calls, h.btnAction hbtn]
  simp only [hon]

theorem onCall_ne_offCall (globalConfig : ConfigT) (b : Button) :
    [onCall globalConfig b] ≠ [offCall globalConfig b] := by
  unfold onCall offCall
  split <;> simp

/-- A button that is set up for a group or for all lamps switches on and off in turn with its single
clicks if and only if an even number of other events precedes each of them. -/
theorem toggles_iff (h : Switches globalConfig b) (es : List (Button × ButtonEvent)) :
    Toggles globalConfig es b ↔
      ∀ ps qs, es = ps ++ (b, .singleClick) :: qs → Even (others b ps) := by
  refine forall_congr' fun ps => forall_congr' fun qs => imp_congr_right fun _ => ?_
  have hne := onCall_ne_offCall globalConfig b
  rw [clickCalls_eq h]
  by_cases hclicks : Even (clicks b ps) <;> by_cases hothers : Even (others b ps) <;>
    simp [Nat.even_add, hclicks, hothers, hne, hne.symm]

end

/-- The first button switches group 3. -/
def grupConfig : ConfigT := { defaultConfig.glob with tus1 := 2 }

/-- Two clicks, each of them pressed and released. -/
def twoClicks : List (Button × ButtonEvent) :=
  [(.btn1, .other 0), (.btn1, .other 1), (.btn1, .singleClick), (.btn1, .other 0),
    (.btn1, .other 1), (.btn1, .singleClick)]

theorem toggles_twoClicks : Toggles grupConfig twoClicks .btn1 := by
  have hinits : ∀ ps ∈ twoClicks.inits,
      (twoClicks.drop ps.length).head? = some (.btn1, .singleClick) → Even (others .btn1 ps) := by
    decide +kernel
  refine (toggles_iff (by decide) twoClicks).mpr fun ps qs heq => ?_
  refine hinits ps ((List.mem_inits ps twoClicks).mpr ⟨_, heq.symm⟩) ?_
  rw [heq, List.drop_left]
  rfl

/-- After a long press, which ends with a third event, the first click switches off. -/
theorem longPress_off : ¬Toggles grupConfig
    [(.btn1, .other 0), (.btn1, .other 5), (.btn1, .other 1), (.btn1, .singleClick)] .btn1 := by
  intro h
  have hclick := h [(.btn1, .other 0), (.btn1, .other 5), (.btn1, .other 1)] [] rfl
  revert hclick
  decide +kernel

end DaliController.Lamps
