import DaliController.Schedule.NextTime

/-! What a cron expression says.  A field is a list of ranges with or without a step, and
`cron_parse_expr` sets the bits of the values that are in one of them. -/

namespace DaliController.Schedule

/-! ### Expressions -/

inductive FieldRange
  | all
  | one (n : Nat)
  | span (first last : Nat)
  deriving DecidableEq, Repr

/-- A range, or every so many values of it. -/
structure FieldItem where
  range : FieldRange
  step : Option Nat := none
  deriving DecidableEq, Repr

structure Field where
  items : List FieldItem
  ne_nil : items ≠ []

structure CronFields where
  second : Field
  minute : Field
  hour : Field
  dayOfMonth : Field
  month : Field
  dayOfWeek : Field

def number (n : Nat) : List Char := Nat.toDigits 10 n

def FieldRange.text : FieldRange → List Char
  | .all => ['*']
  | .one n => number n
  | .span first last => number first ++ '-' :: number last

def FieldItem.text (i : FieldItem) : List Char :=
  match i.step with
  | none => i.range.text
  | some k => i.range.text ++ '/' :: number k

def Field.text (f : Field) : List Char := [','].intercalate (f.items.map FieldItem.text)

def CronFields.text (e : CronFields) : List Char :=
  [' '].intercalate [e.second.text, e.minute.text, e.hour.text, e.dayOfMonth.text, e.month.text,
    e.dayOfWeek.text]

/-! ### Their meaning -/

/-- The first and the last value of a range, in a field with the values from `min` up to `max`. -/
def FieldRange.bounds (min max : Nat) : FieldRange → Nat × Nat
  | .all => (min, max - 1)
  | .one n => (n, n)
  | .span first last => (first, last)

def FieldRange.Valid (min max : Nat) (r : FieldRange) : Prop :=
  min ≤ (r.bounds min max).1 ∧ (r.bounds min max).1 ≤ (r.bounds min max).2 ∧
    (r.bounds min max).2 < max

/-- With a step, a single value is the first one of the field's values from there on. -/
def FieldItem.last (min max : Nat) (i : FieldItem) : Nat :=
  match i.step, i.range with
  | some _, .one _ => max - 1
  | _, r => (r.bounds min max).2

def FieldItem.Valid (min max : Nat) (i : FieldItem) : Prop :=
  i.range.Valid min max ∧ ∀ k ∈ i.step, 0 < k ∧ k ≤ 2147483647

def FieldItem.Contains (min max : Nat) (i : FieldItem) (n : Nat) : Prop :=
  (i.range.bounds min max).1 ≤ n ∧ n ≤ i.last min max ∧
    (n - (i.range.bounds min max).1) % i.step.getD 1 = 0

def Field.Valid (min max : Nat) (f : Field) : Prop := ∀ i ∈ f.items, i.Valid min max

def Field.Contains (min max : Nat) (f : Field) (n : Nat) : Prop :=
  ∃ i ∈ f.items, i.Contains min max n

structure CronFields.Valid (e : CronFields) : Prop where
  second : e.second.Valid 0 60
  minute : e.minute.Valid 0 60
  hour : e.hour.Valid 0 24
  dayOfMonth : e.dayOfMonth.Valid 1 32
  month : e.month.Valid 1 13
  dayOfWeek : e.dayOfWeek.Valid 0 8

/-- The times of the calendar that the expression is for.  Months count from 1 on, and Sunday is 0
and 7. -/
structure CronFields.Sets (e : CronFields) (tm : Tm) : Prop where
  second : e.second.Contains 0 60 tm.sec
  minute : e.minute.Contains 0 60 tm.min
  hour : e.hour.Contains 0 24 tm.hour
  dayOfMonth : e.dayOfMonth.Contains 1 32 tm.mday
  month : e.month.Contains 1 13 (tm.mon + 1)
  dayOfWeek : e.dayOfWeek.Contains 0 8 tm.wday ∨ tm.wday = 0 ∧ e.dayOfWeek.Contains 0 8 7

/-! ### Numbers -/

theorem isDigit_of_mem_number {n : Nat} {c : Char} (hc : c ∈ number n) : c.isDigit = true :=
  Nat.isDigit_of_mem_toDigits (by decide) (by decide) hc

theorem isDigit_bounds {c : Char} (hc : c.isDigit = true) : '0' ≤ c ∧ c ≤ '9' := by
  simpa [Char.isDigit, Char.le_def, UInt32.le_iff_toNat_le] using hc

theorem digitOf_digit {c : Char} (hc : c.isDigit = true) :
    digitOf c = c.toNat - '0'.toNat ∧ digitOf c < 10 := by
  have hbounds := isDigit_bounds hc
  have hdigit : digitOf c = c.toNat - '0'.toNat := if_pos hbounds
  refine ⟨hdigit, ?_⟩
  have hle := hbounds.2
  rw [Char.le_def, UInt32.le_iff_toNat_le] at hle
  have h9 : ('9' : Char).val.toNat = 57 := rfl
  have h0 : ('0' : Char).toNat = 48 := rfl
  have hc' : c.toNat = c.val.toNat := rfl
  omega

theorem strtolDigits_eq {cs : List Char} (hcs : ∀ c ∈ cs, c.isDigit = true) (l : Nat) :
    strtolDigits 10 l cs = (Nat.ofDigitChars 10 cs l, []) := by
  induction cs generalizing l with
  | nil => rfl
  | cons c cs ih =>
    obtain ⟨hdigit, hlt⟩ := digitOf_digit (hcs c List.mem_cons_self)
    rw [strtolDigits, if_pos hlt, ih (fun d hd => hcs d (List.mem_cons_of_mem c hd)),
      Nat.ofDigitChars_cons, hdigit, Nat.mul_comm]

/-- A number other than zero does not start with a zero. -/
theorem number_cons {n : Nat} (hn : 0 < n) :
    ∃ c cs, number n = c :: cs ∧ c.isDigit = true ∧ c ≠ '0' := by
  have hdigit : ∀ d < 10, 0 < d → d.digitChar ≠ '0' := by decide
  induction n using Nat.strong_induction_on with
  | _ n ih =>
  by_cases hlt : n < 10
  · refine ⟨n.digitChar, [], Nat.toDigits_of_lt_base hlt, ?_, ?_⟩
    · exact isDigit_of_mem_number (n := n) (by simp [number, Nat.toDigits_of_lt_base hlt])
    · exact hdigit n hlt hn
  · obtain ⟨c, cs, hcons, hc⟩ := ih (n / 10) (by omega) (by omega)
    refine ⟨c, cs ++ [(n % 10).digitChar], ?_, hc⟩
    rw [number, Nat.toDigits_of_base_le (by decide) (by omega)]
    rw [number] at hcons
    rw [hcons, List.cons_append]

theorem strtolPrefix_number (n : Nat) : strtolPrefix (number n) = some (n, []) := by
  rcases Nat.eq_zero_or_pos n with rfl | hn
  · rfl
  · obtain ⟨c, cs, hcons, hdigit, hne⟩ := number_cons hn
    have hvalue := strtolDigits_eq (fun c hc => isDigit_of_mem_number (n := n) hc) 0
    rw [number, Nat.ofDigitChars_ten_toDigits] at hvalue
    rw [number] at hcons
    rw [number, hcons] at *
    have hlt := (digitOf_digit hdigit).2
    unfold strtolPrefix
    split
    · rename_i heq
      exact absurd (List.cons.inj heq).1 hne
    · rename_i heq
      exact absurd (List.cons.inj heq).1 hne
    · rename_i heq
      obtain ⟨rfl, rfl⟩ := List.cons.inj heq
      rw [if_pos hlt, hvalue]
    · rename_i heq
      cases heq

/-- `parse_uint` takes a number as far as an `int` goes. -/
theorem parseOr_number (n : Nat) (error : String) :
    parseOr (number n) error = if n ≤ 2147483647 then .ok n else .error error := by
  obtain ⟨c, cs, hcons, hdigit⟩ : ∃ c cs, number n = c :: cs ∧ c.isDigit = true := by
    obtain ⟨c, cs, hcons⟩ := List.exists_cons_of_ne_nil (l := number n) Nat.toDigits_ne_nil
    exact ⟨c, cs, hcons, isDigit_of_mem_number (n := n) (hcons ▸ List.mem_cons_self)⟩
  have hbounds := isDigit_bounds hdigit
  have hspace : ¬IsSpace c := by
    rintro (rfl | ⟨-, hle⟩)
    · exact absurd hbounds.1 (by decide)
    · exact absurd (Char.le_trans hbounds.1 hle) (by decide)
  have hdrop : (number n).dropWhile (IsSpace ·) = number n := by
    rw [hcons, List.dropWhile_cons, if_neg (by simpa using hspace)]
  have hstrtol : strtol (number n) = ((n : Int), []) := by
    unfold strtol
    rw [hdrop]
    have hnumber := strtolPrefix_number n
    rw [hcons] at hnumber ⊢
    split
    rename_i heq
    split at heq
    · rename_i hminus
      obtain ⟨rfl, -⟩ := List.cons.inj hminus
      exact absurd hdigit (by decide)
    · rename_i hplus
      obtain ⟨rfl, -⟩ := List.cons.inj hplus
      exact absurd hdigit (by decide)
    · obtain ⟨rfl, rfl⟩ := Prod.mk.inj heq
      rw [hnumber]
      rfl
  unfold parseOr parseUint
  rw [hstrtol]
  by_cases hn : n ≤ 2147483647
  · rw [if_pos hn]
    simp [show ¬(2147483647 : Int) < n by omega, show ¬(n : Int) < 0 by omega]
  · rw [if_neg hn]
    simp [show (2147483647 : Int) < n by omega]

/-! ### Items -/

theorem checkRange_eq_ok {min max : Nat} {res res' : Nat × Nat} :
    checkRange min max res = .ok res' ↔
      (min ≤ res.1 ∧ res.1 ≤ res.2 ∧ res.2 < max) ∧ res = res' := by
  unfold checkRange
  split_ifs with h1 h2 h3
  · simp only [false_iff, not_and]
    omega
  · simp only [false_iff, not_and]
    omega
  · simp only [false_iff, not_and]
    omega
  · simp only [Except.ok.injEq, iff_and_self]
    omega

/-- The characters of an item. -/
def ItemChar (c : Char) : Prop := c.isDigit = true ∨ c = '*' ∨ c = '-' ∨ c = '/'

theorem number_itemChar {n : Nat} : ∀ c ∈ number n, ItemChar c :=
  fun _ hc => .inl (isDigit_of_mem_number hc)

theorem not_mem_number {n : Nat} {c : Char} (hc : c.isDigit = false) : c ∉ number n :=
  fun h => by rw [isDigit_of_mem_number h] at hc; cases hc

theorem hasChar_eq_true {str : List Char} {ch : Char} : hasChar str ch = true ↔ ch ∈ str := by
  simp [hasChar]

theorem splitLoop_append {del : Char} {w : List Char} (hw : ∀ c ∈ w, c ≠ del ∧ ¬IsSpace c)
    (str buf : List Char) : splitLoop del (w ++ str) buf = splitLoop del str (buf ++ w) := by
  induction w generalizing buf with
  | nil => rw [List.nil_append, List.append_nil]
  | cons c w ih =>
    obtain ⟨hdel, hspace⟩ := hw c List.mem_cons_self
    rw [List.cons_append, splitLoop, if_neg hdel, if_neg hspace,
      ih fun d hd => hw d (List.mem_cons_of_mem _ hd), List.append_assoc, List.singleton_append]

/-- A word in front of a delimiter is the first field. -/
theorem splitLoop_word {del : Char} {w : List Char} (hw : ∀ c ∈ w, c ≠ del ∧ ¬IsSpace c)
    (hne : w ≠ []) (str : List Char) :
    splitLoop del (w ++ del :: str) [] = w :: splitLoop del str [] := by
  rw [splitLoop_append hw, List.nil_append, splitLoop, if_pos rfl, if_neg hne]

theorem splitStr_pair (del : Char) {first second : List Char}
    (hfirst : first ≠ [] ∧ ∀ c ∈ first, c ≠ del ∧ ¬IsSpace c)
    (hsecond : second ≠ [] ∧ ∀ c ∈ second, c ≠ del ∧ ¬IsSpace c)
    (hlen : (first ++ del :: second).length < 256) :
    splitStr (first ++ del :: second) del = [first, second] := by
  rw [splitStr, if_neg (by omega), splitLoop_word hfirst.2 hfirst.1]
  have hend := splitLoop_append hsecond.2 [] []
  rw [List.append_nil, List.nil_append, splitLoop, if_neg hsecond.1] at hend
  rw [hend]

theorem ItemChar.not_space {c : Char} (h : ItemChar c) : ¬IsSpace c := by
  rintro (rfl | ⟨-, hle⟩)
  · exact absurd h (by unfold ItemChar; decide)
  · rcases h with h | rfl | rfl | rfl
    · exact absurd (Char.le_trans (isDigit_bounds h).1 hle) (by decide)
    all_goals exact absurd hle (by decide)

theorem number_word (n : Nat) {del : Char} (hdel : del.isDigit = false) :
    number n ≠ [] ∧ ∀ c ∈ number n, c ≠ del ∧ ¬IsSpace c :=
  ⟨Nat.toDigits_ne_nil, fun c hc =>
    ⟨fun h => not_mem_number hdel (h ▸ hc), (number_itemChar c hc).not_space⟩⟩

theorem FieldRange.dash_mem_text {r : FieldRange} :
    '-' ∈ r.text ↔ ∃ first last, r = .span first last := by
  cases r with
  | all => simp [FieldRange.text]
  | one n => simp [FieldRange.text, not_mem_number (show ('-').isDigit = false from rfl)]
  | span first last => simp [FieldRange.text]

theorem bind_eq_ok {ε α β : Type} {x : Except ε α} {f : α → Except ε β} {b : β} :
    (x >>= f) = .ok b ↔ ∃ a, x = .ok a ∧ f a = .ok b := by
  cases x with
  | error e => simp [bind, Except.bind]
  | ok a => simp [bind, Except.bind]

theorem parseOr_number_eq_ok {n m : Nat} {error : String} :
    parseOr (number n) error = .ok m ↔ n ≤ 2147483647 ∧ n = m := by
  rw [parseOr_number]
  split_ifs with h <;> simp [h]

theorem getRange_text {min max : Nat} (hmax : max ≤ 256) {r : FieldRange}
    (hlen : r.text.length < 256) {res : Nat × Nat} :
    getRange r.text min max = .ok res ↔ r.Valid min max ∧ r.bounds min max = res := by
  cases r with
  | all =>
    simp only [getRange, FieldRange.text, if_true, checkRange_eq_ok]
    rfl
  | one n =>
    have hstar : number n ≠ ['*'] := fun h =>
      not_mem_number (n := n) (c := '*') rfl (h ▸ List.mem_singleton_self _)
    have hdash : hasChar (number n) '-' = false := by
      rw [← Bool.not_eq_true, hasChar_eq_true]
      exact not_mem_number rfl
    simp only [getRange, FieldRange.text, if_neg hstar, hdash, Bool.not_false, if_true,
      bind_eq_ok, parseOr_number_eq_ok, checkRange_eq_ok, FieldRange.Valid, FieldRange.bounds]
    grind
  | span first last =>
    have hstar : number first ++ '-' :: number last ≠ ['*'] := by
      intro h
      have hmem : '-' ∈ ['*'] := h ▸ List.mem_append_right _ List.mem_cons_self
      exact absurd hmem (by decide)
    have hdash : hasChar (number first ++ '-' :: number last) '-' = true :=
      hasChar_eq_true.mpr (List.mem_append_right _ List.mem_cons_self)
    have hsplit := splitStr_pair '-' (number_word first rfl) (number_word last rfl) hlen
    simp only [getRange, FieldRange.text, if_neg hstar, hdash, Bool.not_true, Bool.false_eq_true,
      if_false, hsplit, bind_eq_ok, parseOr_number_eq_ok, checkRange_eq_ok, FieldRange.Valid,
      FieldRange.bounds]
    grind

theorem FieldRange.text_word {r : FieldRange} :
    r.text ≠ [] ∧ ∀ c ∈ r.text, ItemChar c ∧ c ≠ '/' := by
  have hnumber : ∀ n, ∀ c ∈ number n, ItemChar c ∧ c ≠ '/' := fun n c hc =>
    ⟨number_itemChar c hc, fun h => not_mem_number (n := n) (c := '/') rfl (h ▸ hc)⟩
  cases r with
  | all => exact ⟨by decide, List.forall_mem_singleton.mpr ⟨.inr (.inl rfl), by decide⟩⟩
  | one n => exact ⟨Nat.toDigits_ne_nil, hnumber n⟩
  | span first last =>
    refine ⟨by simp [FieldRange.text], fun c hc => ?_⟩
    rcases List.mem_append.mp hc with hc | hc
    · exact hnumber first c hc
    · rcases List.mem_cons.mp hc with rfl | hc
      · exact ⟨.inr (.inr (.inl rfl)), by decide⟩
      · exact hnumber last c hc

theorem FieldItem.text_word {i : FieldItem} : i.text ≠ [] ∧ ∀ c ∈ i.text, ItemChar c := by
  obtain ⟨hne, hword⟩ := FieldRange.text_word (r := i.range)
  unfold FieldItem.text
  split
  · exact ⟨hne, fun c hc => (hword c hc).1⟩
  · refine ⟨by simp, fun c hc => ?_⟩
    rcases List.mem_append.mp hc with hc | hc
    · exact (hword c hc).1
    · rcases List.mem_cons.mp hc with rfl | hc
      · exact .inr (.inr (.inr rfl))
      · exact number_itemChar c hc

/-- An item is accepted if it is valid, and stands for the bits to set. -/
theorem getIncrement_text (min : Nat) {max : Nat} (hmax : max ≤ 256) {i : FieldItem}
    (hlen : i.text.length < 256) (res : Nat × Nat × Nat) :
    getIncrement i.text min max = .ok res ↔ i.Valid min max ∧
      ((i.range.bounds min max).1, i.last min max, i.step.getD 1) = res := by
  obtain ⟨r, step⟩ := i
  obtain ⟨hne, hword⟩ := FieldRange.text_word (r := r)
  cases step with
  | none =>
    have hslash : hasChar r.text '/' = false := by
      rw [← Bool.not_eq_true, hasChar_eq_true]
      exact fun h => (hword _ h).2 rfl
    simp only [getIncrement, FieldItem.text, hslash, Bool.not_false, if_true, bind_eq_ok,
      getRange_text hmax hlen, FieldItem.Valid, FieldItem.last, Option.getD_none]
    constructor
    · rintro ⟨-, ⟨hvalid, rfl⟩, hres⟩
      exact ⟨⟨hvalid, by simp⟩, Except.ok.inj hres⟩
    · rintro ⟨⟨hvalid, -⟩, rfl⟩
      exact ⟨_, ⟨hvalid, rfl⟩, rfl⟩
  | some k =>
    have hslash : hasChar (r.text ++ '/' :: number k) '/' = true :=
      hasChar_eq_true.mpr (List.mem_append_right _ List.mem_cons_self)
    have hrange : r.text.length < 256 := by
      simp only [FieldItem.text, List.length_append] at hlen
      omega
    have hsplit := splitStr_pair '/'
      ⟨hne, fun c hc => ⟨(hword c hc).2, (hword c hc).1.not_space⟩⟩
      (number_word k rfl) hlen
    have hlast : (if hasChar r.text '-' = true then (r.bounds min max).2 else max - 1) =
        FieldItem.last min max ⟨r, some k⟩ := by
      have hdash := hasChar_eq_true.trans (FieldRange.dash_mem_text (r := r))
      cases r with
      | span first last => exact if_pos (hdash.mpr ⟨first, last, rfl⟩)
      | all => exact ite_self _
      | one n => exact if_neg fun h => by simpa using hdash.mp h
    simp only [getIncrement, FieldItem.text, hslash, Bool.not_true, Bool.false_eq_true, if_false,
      hsplit, bind_eq_ok, getRange_text hmax hrange, parseOr_number_eq_ok, FieldItem.Valid,
      Option.getD_some]
    constructor
    · rintro ⟨_, ⟨hvalid, rfl⟩, _, ⟨hk, rfl⟩, hres⟩
      rw [hlast] at hres
      split_ifs at hres with hzero
      exact ⟨⟨hvalid, by simp; omega⟩, Except.ok.inj hres⟩
    · rintro ⟨⟨hvalid, hk⟩, rfl⟩
      obtain ⟨hpos, hle⟩ := hk k rfl
      refine ⟨_, ⟨hvalid, rfl⟩, _, ⟨hle, rfl⟩, ?_⟩
      rw [hlast, if_neg (by omega)]
      rfl

/-! ### Bits -/

/-- The bit `k` of a byte is set. -/
theorem or_bit_ne_zero (x : UInt8) {k m : Nat} (hk : k < 8) (hm : m < 8) :
    (x ||| 1 <<< UInt8.ofNat k) &&& 1 <<< UInt8.ofNat m ≠ 0 ↔
      k = m ∨ x &&& 1 <<< UInt8.ofNat m ≠ 0 := by
  have hbits : ∀ k < 8, ∀ m < 8,
      (1 <<< UInt8.ofNat k &&& 1 <<< UInt8.ofNat m : UInt8) ≠ 0 ↔ k = m := by
    decide
  have hdistrib (y z w : UInt8) : (y ||| z) &&& w = y &&& w ||| z &&& w :=
    UInt8.toBitVec_inj.mp BitVec.and_or_distrib_right
  rw [hdistrib, ne_eq, UInt8.or_eq_zero_iff, not_and_or, or_comm]
  exact or_congr_left (hbits k hk m hm)

/-- The bit `k` of a byte is cleared. -/
theorem and_not_bit_ne_zero (x : UInt8) {k m : Nat} (hk : k < 8) (hm : m < 8) :
    (x &&& ~~~(1 <<< UInt8.ofNat k)) &&& 1 <<< UInt8.ofNat m ≠ 0 ↔
      k ≠ m ∧ x &&& 1 <<< UInt8.ofNat m ≠ 0 := by
  have hbits : ∀ k < 8, ∀ m < 8, (~~~(1 <<< UInt8.ofNat k) &&& 1 <<< UInt8.ofNat m) =
      (if k = m then 0 else 1 <<< UInt8.ofNat m : UInt8) := by
    decide
  rw [UInt8.and_assoc, hbits k hk m hm]
  split_ifs with h <;> simp [h]

/-- What happens to one byte of the bits. -/
theorem cronGetBit_modify {bits : List UInt8} {i n : Nat} (hi : i / 8 < bits.length)
    (f : UInt8 → UInt8) : cronGetBit (bits.modify (i / 8) f) n = true ↔
      if i / 8 = n / 8 then f (bits.getD (n / 8) 0) &&& 1 <<< UInt8.ofNat (n % 8) ≠ 0
      else cronGetBit bits n = true := by
  simp only [cronGetBit, decide_eq_true_eq, List.getD_eq_getElem?_getD, List.getElem?_modify]
  split_ifs with h
  · rw [← h, List.getElem?_eq_getElem hi]
    simp
  · simp

theorem cronGetBit_setBit {bits : List UInt8} {i : Nat} (hi : i / 8 < bits.length) (n : Nat) :
    cronGetBit (cronSetBit bits i) n = true ↔ i = n ∨ cronGetBit bits n = true := by
  rw [cronSetBit, cronGetBit_modify hi]
  split_ifs with h
  · rw [or_bit_ne_zero _ (Nat.mod_lt _ (by decide)) (Nat.mod_lt _ (by decide)), cronGetBit,
      decide_eq_true_eq, show i = n ↔ i % 8 = n % 8 by omega]
  · rw [show (i = n) = False by simp; omega, false_or]

theorem cronGetBit_delBit {bits : List UInt8} {i : Nat} (hi : i / 8 < bits.length) (n : Nat) :
    cronGetBit (cronDelBit bits i) n = true ↔ i ≠ n ∧ cronGetBit bits n = true := by
  rw [cronDelBit, cronGetBit_modify hi]
  split_ifs with h
  · rw [and_not_bit_ne_zero _ (Nat.mod_lt _ (by decide)) (Nat.mod_lt _ (by decide)), cronGetBit,
      decide_eq_true_eq, show i ≠ n ↔ i % 8 ≠ n % 8 by omega]
  · rw [show (i ≠ n) = True by simp; omega, true_and]

theorem length_setBit (bits : List UInt8) (i : Nat) : (cronSetBit bits i).length = bits.length :=
  List.length_modify _ _ _

theorem cronGetBit_foldl {bits : List UInt8} {is : List Nat} (his : ∀ i ∈ is, i / 8 < bits.length)
    (n : Nat) : cronGetBit (is.foldl cronSetBit bits) n = true ↔
      n ∈ is ∨ cronGetBit bits n = true := by
  induction is generalizing bits with
  | nil => simp
  | cons i is ih =>
    rw [List.foldl_cons, ih (fun j hj => by
      rw [length_setBit]
      exact his j (List.mem_cons_of_mem _ hj)), cronGetBit_setBit (his i List.mem_cons_self),
      List.mem_cons]
    tauto

theorem length_foldl_setBit (is : List Nat) (bits : List UInt8) :
    (is.foldl cronSetBit bits).length = bits.length := by
  induction is generalizing bits with
  | nil => rfl
  | cons i is ih => rw [List.foldl_cons, ih, length_setBit]

theorem cronGetBit_setBits {target : List UInt8} {first last delta : Nat}
    (hlast : last < 8 * target.length) (n : Nat) :
    cronGetBit (setBits target first last delta) n = true ↔
      (first ≤ n ∧ n ≤ last ∧ (n - first) % delta = 0) ∨ cronGetBit target n = true := by
  rw [setBits, cronGetBit_foldl]
  · simp only [List.mem_filter, List.mem_range, decide_eq_true_eq]
    have : n < last + 1 ∧ first ≤ n ∧ (n - first) % delta = 0 ↔
        first ≤ n ∧ n ≤ last ∧ (n - first) % delta = 0 := by omega
    rw [this]
  · intro i hi
    rw [List.mem_filter, List.mem_range] at hi
    omega

/-! ### Fields -/

theorem intercalate_cons_cons {del : Char} {w w' : List Char} {ws : List (List Char)} :
    [del].intercalate (w :: w' :: ws) = w ++ del :: [del].intercalate (w' :: ws) := by
  simp [List.intercalate]

theorem length_le_intercalate (del : Char) {w : List Char} {ws : List (List Char)} (hw : w ∈ ws) :
    w.length ≤ ([del].intercalate ws).length := by
  induction ws with
  | nil => cases hw
  | cons v ws ih =>
    cases ws with
    | nil =>
      rw [List.intercalate_singleton, List.mem_singleton.mp hw]
    | cons v' ws =>
      rw [intercalate_cons_cons, List.length_append, List.length_cons]
      rcases List.mem_cons.mp hw with rfl | hw
      · omega
      · have := ih hw
        omega

theorem mem_intercalate {del c : Char} {ws : List (List Char)} (hc : c ∈ [del].intercalate ws) :
    c = del ∨ ∃ w ∈ ws, c ∈ w := by
  induction ws with
  | nil => cases hc
  | cons v ws ih =>
    cases ws with
    | nil =>
      rw [List.intercalate_singleton] at hc
      exact .inr ⟨v, List.mem_singleton_self v, hc⟩
    | cons v' ws =>
      rw [intercalate_cons_cons, List.mem_append, List.mem_cons] at hc
      rcases hc with hc | rfl | hc
      · exact .inr ⟨v, List.mem_cons_self, hc⟩
      · exact .inl rfl
      · rcases ih hc with hdel | ⟨w, hw, hcw⟩
        · exact .inl hdel
        · exact .inr ⟨w, List.mem_cons_of_mem _ hw, hcw⟩

/-- Splitting is the inverse of joining. -/
theorem splitStr_intercalate {del : Char} {ws : List (List Char)}
    (hws : ∀ w ∈ ws, w ≠ [] ∧ ∀ c ∈ w, c ≠ del ∧ ¬IsSpace c)
    (hlen : ([del].intercalate ws).length < 256) : splitStr ([del].intercalate ws) del = ws := by
  rw [splitStr, if_neg (by omega)]
  clear hlen
  induction ws with
  | nil => rfl
  | cons w ws ih =>
    obtain ⟨hne, hword⟩ := hws w List.mem_cons_self
    cases ws with
    | nil =>
      have hend := splitLoop_append hword [] []
      rw [List.append_nil, List.nil_append, splitLoop, if_neg hne] at hend
      rw [List.intercalate_singleton, hend]
    | cons w' ws =>
      rw [intercalate_cons_cons, splitLoop_word hword hne,
        ih fun v hv => hws v (List.mem_cons_of_mem w hv)]

theorem FieldItem.Valid.last_lt {min max : Nat} {i : FieldItem} (h : i.Valid min max) :
    i.last min max < max := by
  obtain ⟨hlow, hle, hhigh⟩ := h.1
  unfold FieldItem.last
  split
  · omega
  · exact hhigh

/-- The loop over the items accepts valid ones, and then adds their values. -/
theorem setFields_text {min max : Nat} (hmax : max ≤ 256) {items : List FieldItem}
    (hlen : ∀ i ∈ items, i.text.length < 256) (target : List UInt8)
    (hbits : max ≤ 8 * target.length) :
    ((setFields min max (items.map FieldItem.text) target).2 = none ↔
      ∀ i ∈ items, i.Valid min max) ∧
    ((∀ i ∈ items, i.Valid min max) → ∀ n,
      cronGetBit (setFields min max (items.map FieldItem.text) target).1 n = true ↔
        (∃ i ∈ items, i.Contains min max n) ∨ cronGetBit target n = true) := by
  induction items generalizing target with
  | nil => simp [setFields]
  | cons i items ih =>
    have hi := getIncrement_text min hmax (hlen i List.mem_cons_self)
    rw [List.map_cons, setFields]
    cases hinc : getIncrement i.text min max with
    | error error =>
      have hinvalid : ¬i.Valid min max := fun hvalid => by
        have := (hi _).mpr ⟨hvalid, rfl⟩
        rw [hinc] at this
        cases this
      simp [hinvalid]
    | ok res =>
      obtain ⟨hvalid, rfl⟩ := (hi _).mp hinc
      have hlast := hvalid.last_lt
      obtain ⟨hnone, hset⟩ := ih (fun j hj => hlen j (List.mem_cons_of_mem i hj))
        (setBits target (i.range.bounds min max).1 (i.last min max) (i.step.getD 1))
        (by rw [setBits, length_foldl_setBit]; exact hbits)
      refine ⟨by simpa [hvalid] using hnone, fun hall n => ?_⟩
      rw [hset (fun j hj => hall j (List.mem_cons_of_mem i hj)), cronGetBit_setBits (by omega)]
      simp only [List.mem_cons, exists_eq_or_imp]
      rw [or_assoc]
      exact or_left_comm

/-- The characters of a field. -/
def FieldChar (c : Char) : Prop := ItemChar c ∨ c = ','

theorem Field.text_word {f : Field} : f.text ≠ [] ∧ ∀ c ∈ f.text, FieldChar c := by
  constructor
  · obtain ⟨i, items, hitems⟩ := List.exists_cons_of_ne_nil f.ne_nil
    have hi := (FieldItem.text_word (i := i)).1
    have hle := length_le_intercalate ',' (List.mem_map_of_mem (f := FieldItem.text)
      (hitems ▸ List.mem_cons_self : i ∈ f.items))
    intro h
    rw [← Field.text, h] at hle
    exact hi (List.eq_nil_of_length_eq_zero (Nat.le_zero.mp hle))
  · intro c hc
    rcases mem_intercalate hc with rfl | ⟨w, hw, hcw⟩
    · exact .inr rfl
    · obtain ⟨i, -, rfl⟩ := List.mem_map.mp hw
      exact .inl (FieldItem.text_word.2 c hcw)

/-- `set_number_hits` accepts a field of valid items, and then adds its values. -/
theorem setNumberHits_text (min : Nat) {max : Nat} (hmax : max ≤ 256) {f : Field}
    (hlen : f.text.length < 256) (target : List UInt8) (hbits : max ≤ 8 * target.length) :
    ((setNumberHits f.text target min max).2 = none ↔ f.Valid min max) ∧
    (f.Valid min max → ∀ n, cronGetBit (setNumberHits f.text target min max).1 n = true ↔
      f.Contains min max n ∨ cronGetBit target n = true) := by
  have hsplit : splitStr f.text ',' = f.items.map FieldItem.text := by
    refine splitStr_intercalate (fun w hw => ?_) hlen
    obtain ⟨i, -, rfl⟩ := List.mem_map.mp hw
    refine ⟨FieldItem.text_word.1, fun c hc => ?_⟩
    have hitem := FieldItem.text_word.2 c hc
    refine ⟨?_, hitem.not_space⟩
    rintro rfl
    exact absurd hitem (by unfold ItemChar; decide)
  obtain ⟨i, items, hitems⟩ := List.exists_cons_of_ne_nil f.ne_nil
  have hfields : setNumberHits f.text target min max =
      setFields min max (f.items.map FieldItem.text) target := by
    rw [setNumberHits, hsplit, hitems]
    rfl
  rw [hfields]
  refine setFields_text hmax (fun j hj => ?_) target hbits
  exact (length_le_intercalate _ (List.mem_map_of_mem hj)).trans_lt hlen

/-! ### Names -/

theorem strReplace_self {r : Char} {rep w orig : List Char} (hr : r ∉ orig) :
    strReplace (r :: rep) w 0 orig = orig := by
  induction orig with
  | nil => rfl
  | cons c orig ih =>
    obtain ⟨hc, horig⟩ := not_or.mp (List.mem_cons.not.mp hr)
    rw [strReplace, ih horig]
    simp [hc]

/-- A text without letters stays as it is. -/
theorem replaceOrdinals_self {value : List Char} {names : List String} (i : Nat)
    (hnames : ∀ name ∈ names, ∃ r rep, name.toList = r :: rep ∧ r ∉ value) :
    replaceOrdinals i value names = value := by
  induction names generalizing i with
  | nil => rfl
  | cons name names ih =>
    obtain ⟨r, rep, hname, hr⟩ := hnames name List.mem_cons_self
    rw [replaceOrdinals, hname, strReplace_self hr,
      ih (i + 1) fun n hn => hnames n (List.mem_cons_of_mem name hn)]

theorem FieldChar.not_letter {c : Char} (h : FieldChar c) : c.val.toNat < 65 := by
  rcases h with (h | rfl | rfl | rfl) | rfl
  · have hle := UInt32.le_iff_toNat_le.mp (isDigit_bounds h).2
    exact hle.trans_lt (by decide)
  all_goals decide

theorem FieldChar.toUpper {c : Char} (h : FieldChar c) : c.toUpper = c := by
  unfold Char.toUpper
  rw [dif_neg]
  rintro ⟨hle, -⟩
  have ha : (97 : Nat) ≤ c.val.toNat := UInt32.le_iff_toNat_le.mp hle
  have := h.not_letter
  omega

theorem Field.toUpper_text {f : Field} : toUpper f.text = f.text := by
  unfold DaliController.Schedule.toUpper
  rw [List.map_congr_left fun c hc => (Field.text_word.2 c hc).toUpper, List.map_id']

theorem Field.replaceOrdinals_text {f : Field} {names : List String}
    (hnames : ∀ name ∈ names, ∃ r rep, name.toList = r :: rep ∧ 'A' ≤ r) :
    replaceOrdinals 0 (DaliController.Schedule.toUpper f.text) names = f.text := by
  rw [Field.toUpper_text]
  refine replaceOrdinals_self 0 fun name hname => ?_
  obtain ⟨r, rep, htext, hr⟩ := hnames name hname
  refine ⟨r, rep, htext, fun hmem => ?_⟩
  have hA : (65 : Nat) ≤ r.val.toNat := UInt32.le_iff_toNat_le.mp hr
  have := (Field.text_word.2 r hmem).not_letter
  omega

/-! ### The expression -/

theorem splitStr_text {e : CronFields} (hlen : e.text.length < 256) :
    splitStr e.text ' ' = [e.second.text, e.minute.text, e.hour.text, e.dayOfMonth.text,
      e.month.text, e.dayOfWeek.text] := by
  have hword (f : Field) : f.text ≠ [] ∧ ∀ c ∈ f.text, c ≠ ' ' ∧ ¬IsSpace c := by
    refine ⟨Field.text_word.1, fun c hc => ?_⟩
    have hspace : ¬IsSpace c := by
      rcases Field.text_word.2 c hc with h | rfl
      · exact h.not_space
      · decide
    exact ⟨fun h => hspace (.inl h), hspace⟩
  refine splitStr_intercalate ?_ hlen
  simp only [List.mem_cons, List.not_mem_nil, or_false, forall_eq_or_imp, forall_eq]
  exact ⟨hword _, hword _, hword _, hword _, hword _, hword _⟩

/-- The loop that moves the months to the front. -/
def frontMonths (targ : List UInt8) (k : Nat) : List UInt8 :=
  (List.range k).foldl (fun targ i =>
    if cronGetBit targ (i + 1) then cronDelBit (cronSetBit targ i) (i + 1) else targ) targ

theorem frontMonths_succ (targ : List UInt8) (k : Nat) :
    frontMonths targ (k + 1) = if cronGetBit (frontMonths targ k) (k + 1) then
      cronDelBit (cronSetBit (frontMonths targ k) k) (k + 1) else frontMonths targ k := by
  rw [frontMonths, List.range_succ, List.foldl_append]
  rfl

theorem length_delBit (bits : List UInt8) (i : Nat) : (cronDelBit bits i).length = bits.length :=
  List.length_modify _ _ _

theorem length_frontMonths (targ : List UInt8) (k : Nat) :
    (frontMonths targ k).length = targ.length := by
  induction k with
  | zero => rfl
  | succ k ih =>
    rw [frontMonths_succ]
    split_ifs
    · rw [length_delBit, length_setBit, ih]
    · exact ih

/-- The months below `k` have moved, and the place `k` is empty. -/
theorem cronGetBit_frontMonths {targ : List UInt8} (hzero : cronGetBit targ 0 = false) {k : Nat}
    (hk : k < 8 * targ.length) (n : Nat) : cronGetBit (frontMonths targ k) n = true ↔
      n ≠ k ∧ cronGetBit targ (if n < k then n + 1 else n) = true := by
  induction k generalizing n with
  | zero =>
    rw [show frontMonths targ 0 = targ from rfl, if_neg (Nat.not_lt_zero n)]
    refine ⟨fun h => ⟨?_, h⟩, fun h => h.2⟩
    rintro rfl
    rw [hzero] at h
    cases h
  | succ k ih =>
    have ih' := ih (by omega)
    have hlen := length_frontMonths targ k
    rw [frontMonths_succ]
    by_cases hnext : cronGetBit targ (k + 1) = true
    · have hbit : cronGetBit (frontMonths targ k) (k + 1) = true := by
        rw [ih', if_neg (by omega)]
        exact ⟨by omega, hnext⟩
      rw [if_pos hbit, cronGetBit_delBit (by rw [length_setBit]; omega),
        cronGetBit_setBit (by omega), ih']
      rcases lt_trichotomy n k with hn | rfl | hn
      · rw [if_pos hn, if_pos (by omega)]
        grind
      · rw [if_neg (by omega), if_pos (by omega)]
        grind
      · rw [if_neg (by omega)]
        grind
    · have hbit : ¬cronGetBit (frontMonths targ k) (k + 1) = true := by
        rw [ih', if_neg (by omega)]
        exact fun h => hnext h.2
      rw [if_neg hbit, ih']
      grind

theorem cronGetBit_zero (k n : Nat) : ¬cronGetBit (List.replicate k 0) n = true := by
  simp only [cronGetBit, decide_eq_true_eq, not_not, List.getD_eq_getElem?_getD,
    List.getElem?_replicate]
  split_ifs <;> simp

theorem Field.Contains.bounds {min max : Nat} {f : Field} {n : Nat} (hf : f.Valid min max)
    (h : f.Contains min max n) : min ≤ n ∧ n < max := by
  obtain ⟨i, hi, hlow, hhigh, -⟩ := h
  exact ⟨(hf i hi).1.1.trans hlow, hhigh.trans_lt (hf i hi).last_lt⟩

theorem length_setFields (min max : Nat) (fields : List (List Char)) (target : List UInt8) :
    (setFields min max fields target).1.length = target.length := by
  induction fields generalizing target with
  | nil => rfl
  | cons field fields ih =>
    rw [setFields]
    split
    · rw [ih, setBits, length_foldl_setBit]
    · rfl

theorem length_setNumberHits (value : List Char) (target : List UInt8) (min max : Nat) :
    (setNumberHits value target min max).1.length = target.length := by
  unfold setNumberHits
  split
  · rfl
  · exact length_setFields _ _ _ _

/-- A field of an expression that was zero. -/
theorem setNumberHits_zero (min : Nat) {max : Nat} (hmax : max ≤ 256) {f : Field}
    (hlen : f.text.length < 256) (target : List UInt8) (hbits : max ≤ 8 * target.length)
    (hzero : ∀ n, ¬cronGetBit target n = true) :
    ((setNumberHits f.text target min max).2 = none ↔ f.Valid min max) ∧
    (f.Valid min max → ∀ n, cronGetBit (setNumberHits f.text target min max).1 n = true ↔
      f.Contains min max n) := by
  obtain ⟨hnone, hset⟩ := setNumberHits_text min hmax hlen target hbits
  refine ⟨hnone, fun hvalid n => ?_⟩
  rw [hset hvalid n, or_iff_left (hzero n)]

theorem setMonths_text {f : Field} (hlen : f.text.length < 256) :
    ((setMonths f.text cronExprZero.months).2 = none ↔ f.Valid 1 13) ∧
    (f.Valid 1 13 → ∀ n, cronGetBit (setMonths f.text cronExprZero.months).1 n = true ↔
      f.Contains 1 13 (n + 1)) := by
  obtain ⟨hnone, hset⟩ := setNumberHits_zero 1 (show 13 ≤ 256 by decide) hlen
    cronExprZero.months (by decide) (cronGetBit_zero 2)
  have hlength := length_setNumberHits f.text cronExprZero.months 1 13
  have hnames : replaceOrdinals 0 (toUpper f.text) monthsArr = f.text :=
    Field.replaceOrdinals_text (by simp [monthsArr])
  have hmonths : setMonths f.text cronExprZero.months =
      (frontMonths (setNumberHits f.text cronExprZero.months 1 13).1 12,
        (setNumberHits f.text cronExprZero.months 1 13).2) := by
    rw [setMonths, hnames]
    rfl
  rw [hmonths]
  refine ⟨hnone, fun hvalid n => ?_⟩
  have hbounds (m) := Field.Contains.bounds (n := m) hvalid
  have hzero : cronGetBit (setNumberHits f.text cronExprZero.months 1 13).1 0 = false := by
    rw [← Bool.not_eq_true, hset hvalid]
    exact fun h => absurd (hbounds 0 h).1 (by decide)
  rw [cronGetBit_frontMonths hzero (by rw [hlength]; decide), hset hvalid]
  split_ifs with hn
  · exact and_iff_right (by omega)
  · refine ⟨fun h => ?_, fun h => ?_⟩
    · have := hbounds n h.2
      omega
    · have := hbounds (n + 1) h
      omega

theorem anyDay_text {f : Field} : anyDay f.text = f.text := by
  refine if_neg fun h => ?_
  have hmem : FieldChar '?' := Field.text_word.2 '?' (h ▸ List.mem_singleton_self '?')
  revert hmem
  unfold FieldChar ItemChar
  decide

/-- The days of the week, with Sunday at 0 alone. -/
def sundayFirst (daysOfWeek : List UInt8) : List UInt8 :=
  if cronGetBit daysOfWeek 7 then cronDelBit (cronSetBit daysOfWeek 0) 7 else daysOfWeek

theorem cronGetBit_sundayFirst {bits : List UInt8} (hlen : 0 < bits.length) (n : Nat) :
    cronGetBit (sundayFirst bits) n = true ↔
      n ≠ 7 ∧ (cronGetBit bits n = true ∨ n = 0 ∧ cronGetBit bits 7 = true) := by
  unfold sundayFirst
  split_ifs with h
  · rw [cronGetBit_delBit (by rw [length_setBit]; omega), cronGetBit_setBit (by omega)]
    grind
  · grind

/-- The bits of an expression. -/
structure CronFields.Bits (e : CronFields) (expr : CronExpr) : Prop where
  second : ∀ n, cronGetBit expr.seconds n = true ↔ e.second.Contains 0 60 n
  minute : ∀ n, cronGetBit expr.minutes n = true ↔ e.minute.Contains 0 60 n
  hour : ∀ n, cronGetBit expr.hours n = true ↔ e.hour.Contains 0 24 n
  dayOfMonth : ∀ n, cronGetBit expr.daysOfMonth n = true ↔ e.dayOfMonth.Contains 1 32 n
  month : ∀ n, cronGetBit expr.months n = true ↔ e.month.Contains 1 13 (n + 1)
  dayOfWeek : ∀ n, cronGetBit expr.daysOfWeek n = true ↔
    n ≠ 7 ∧ (e.dayOfWeek.Contains 0 8 n ∨ n = 0 ∧ e.dayOfWeek.Contains 0 8 7)

theorem setDays_text {f : Field} (hlen : f.text.length < 256) :
    ((setDays (replaceOrdinals 0 (toUpper f.text) daysArr) cronExprZero.daysOfWeek 8).2 = none ↔
      f.Valid 0 8) ∧
    (f.Valid 0 8 → ∀ n, cronGetBit (sundayFirst
        (setDays (replaceOrdinals 0 (toUpper f.text) daysArr) cronExprZero.daysOfWeek 8).1) n =
          true ↔ n ≠ 7 ∧ (f.Contains 0 8 n ∨ n = 0 ∧ f.Contains 0 8 7)) := by
  obtain ⟨hnone, hset⟩ := setNumberHits_zero 0 (show 8 ≤ 256 by decide) hlen
    cronExprZero.daysOfWeek (by decide) (cronGetBit_zero 1)
  have hnames : replaceOrdinals 0 (toUpper f.text) daysArr = f.text :=
    Field.replaceOrdinals_text (by simp [daysArr])
  have hdays : setDays (replaceOrdinals 0 (toUpper f.text) daysArr) cronExprZero.daysOfWeek 8 =
      setNumberHits f.text cronExprZero.daysOfWeek 0 8 := by
    rw [hnames, setDays, anyDay_text]
  rw [hdays]
  refine ⟨hnone, fun hvalid n => ?_⟩
  rw [cronGetBit_sundayFirst (by rw [length_setNumberHits]; decide), hset hvalid, hset hvalid]

theorem setDaysOfMonth_text {f : Field} (hlen : f.text.length < 256) :
    ((setDaysOfMonth f.text cronExprZero.daysOfMonth).2 = none ↔ f.Valid 1 32) ∧
    (f.Valid 1 32 → ∀ n, cronGetBit (setDaysOfMonth f.text cronExprZero.daysOfMonth).1 n = true ↔
      f.Contains 1 32 n) := by
  rw [setDaysOfMonth, anyDay_text]
  exact setNumberHits_zero 1 (by decide) hlen _ (by decide) (cronGetBit_zero 4)

/-- The first error ends `parseDays`, and without one it has filled three fields. -/
theorem parseDays_eq (dom month dow : List Char) (seconds minutes hours : List UInt8) :
    let target := { cronExprZero with seconds, minutes, hours }
    let days := setDays (replaceOrdinals 0 (toUpper dow) daysArr) cronExprZero.daysOfWeek 8
    let daysOfMonth := setDaysOfMonth dom cronExprZero.daysOfMonth
    let months := setMonths month cronExprZero.months
    ((parseDays dom month dow target).2 = none ↔
      days.2 = none ∧ daysOfMonth.2 = none ∧ months.2 = none) ∧
    (days.2 = none → daysOfMonth.2 = none → (parseDays dom month dow target).1 =
      ⟨seconds, minutes, hours, sundayFirst days.1, daysOfMonth.1, months.1⟩) := by
  simp only [parseDays, sundayFirst]
  generalize setDays (replaceOrdinals 0 (toUpper dow) daysArr) cronExprZero.daysOfWeek 8 = days
  obtain ⟨days, error⟩ := days
  cases error with
  | some error => simp
  | none =>
    cases hsunday : cronGetBit days 7 <;>
    · simp only [Option.isSome_none, Bool.false_eq_true, if_false, if_true]
      generalize setDaysOfMonth dom cronExprZero.daysOfMonth = daysOfMonth
      obtain ⟨daysOfMonth, error⟩ := daysOfMonth
      cases error <;> simp

/-- The first error ends `cron_parse_expr`, and without one it has filled all fields. -/
theorem cronParseExpr_eq {expression sec min hour dom month dow : List Char}
    (hsplit : splitStr expression ' ' = [sec, min, hour, dom, month, dow]) :
    let seconds := setNumberHits sec cronExprZero.seconds 0 60
    let minutes := setNumberHits min cronExprZero.minutes 0 60
    let hours := setNumberHits hour cronExprZero.hours 0 24
    let days := setDays (replaceOrdinals 0 (toUpper dow) daysArr) cronExprZero.daysOfWeek 8
    let daysOfMonth := setDaysOfMonth dom cronExprZero.daysOfMonth
    let months := setMonths month cronExprZero.months
    let result := cronParseExpr expression cronExprZero
    (result.2 = none ↔ seconds.2 = none ∧ minutes.2 = none ∧ hours.2 = none ∧
      days.2 = none ∧ daysOfMonth.2 = none ∧ months.2 = none) ∧
    (result.2 = none → result.1 =
      ⟨seconds.1, minutes.1, hours.1, sundayFirst days.1, daysOfMonth.1, months.1⟩) := by
  simp only [cronParseExpr, hsplit]
  generalize setNumberHits sec cronExprZero.seconds 0 60 = seconds
  generalize setNumberHits min cronExprZero.minutes 0 60 = minutes
  generalize setNumberHits hour cronExprZero.hours 0 24 = hours
  obtain ⟨seconds, error⟩ := seconds
  obtain ⟨minutes, error'⟩ := minutes
  obtain ⟨hours, error''⟩ := hours
  obtain ⟨hdays, hfilled⟩ := parseDays_eq dom month dow seconds minutes hours
  cases error with
  | some error => simp
  | none =>
    cases error' with
    | some error => simp
    | none =>
      cases error'' with
      | some error => simp
      | none =>
        simp only [Option.isSome_none, Bool.false_eq_true, if_false, true_and]
        exact ⟨hdays, fun h => hfilled (hdays.mp h).1 (hdays.mp h).2.1⟩

theorem bits_of_fields {e : CronFields} {seconds minutes hours daysOfWeek daysOfMonth months :
      List UInt8}
    (hsecond : ∀ n, cronGetBit seconds n = true ↔ e.second.Contains 0 60 n)
    (hminute : ∀ n, cronGetBit minutes n = true ↔ e.minute.Contains 0 60 n)
    (hhour : ∀ n, cronGetBit hours n = true ↔ e.hour.Contains 0 24 n)
    (hdayOfMonth : ∀ n, cronGetBit daysOfMonth n = true ↔ e.dayOfMonth.Contains 1 32 n)
    (hmonth : ∀ n, cronGetBit months n = true ↔ e.month.Contains 1 13 (n + 1))
    (hdayOfWeek : ∀ n, cronGetBit daysOfWeek n = true ↔
      n ≠ 7 ∧ (e.dayOfWeek.Contains 0 8 n ∨ n = 0 ∧ e.dayOfWeek.Contains 0 8 7)) :
    e.Bits ⟨seconds, minutes, hours, daysOfWeek, daysOfMonth, months⟩ :=
  ⟨hsecond, hminute, hhour, hdayOfMonth, hmonth, hdayOfWeek⟩

/-- For every expression that is a list of ranges in each field: `cron_parse_expr` accepts it if
and only if its ranges are valid, and then sets the bits of the values that are in one of them. -/
theorem cronParseExpr_text (e : CronFields) (hlen : e.text.length < 256) :
    ((cronParseExpr e.text cronExprZero).2 = none ↔ e.Valid) ∧
      (e.Valid → e.Bits (cronParseExpr e.text cronExprZero).1) := by
  have hle {f : Field} (hf : f.text ∈ [e.second.text, e.minute.text, e.hour.text,
      e.dayOfMonth.text, e.month.text, e.dayOfWeek.text]) : f.text.length < 256 :=
    (length_le_intercalate _ hf).trans_lt hlen
  obtain ⟨hsec, hsecbits⟩ := setNumberHits_zero 0 (show 60 ≤ 256 by decide)
    (hle (f := e.second) (by simp)) cronExprZero.seconds (by decide) (cronGetBit_zero 8)
  obtain ⟨hmin, hminbits⟩ := setNumberHits_zero 0 (show 60 ≤ 256 by decide)
    (hle (f := e.minute) (by simp)) cronExprZero.minutes (by decide) (cronGetBit_zero 8)
  obtain ⟨hhour, hhourbits⟩ := setNumberHits_zero 0 (show 24 ≤ 256 by decide)
    (hle (f := e.hour) (by simp)) cronExprZero.hours (by decide) (cronGetBit_zero 3)
  obtain ⟨hdow, hdowbits⟩ := setDays_text (hle (f := e.dayOfWeek) (by simp))
  obtain ⟨hdom, hdombits⟩ := setDaysOfMonth_text (hle (f := e.dayOfMonth) (by simp))
  obtain ⟨hmonth, hmonthbits⟩ := setMonths_text (hle (f := e.month) (by simp))
  obtain ⟨hnone, hfilled⟩ := cronParseExpr_eq (splitStr_text hlen)
  have hvalid : (cronParseExpr e.text cronExprZero).2 = none ↔ e.Valid := by
    rw [hnone, hsec, hmin, hhour, hdow, hdom, hmonth]
    exact ⟨fun ⟨h1, h2, h3, h4, h5, h6⟩ => ⟨h1, h2, h3, h5, h6, h4⟩,
      fun h => ⟨h.second, h.minute, h.hour, h.dayOfWeek, h.dayOfMonth, h.month⟩⟩
  refine ⟨hvalid, fun h => ?_⟩
  rw [hfilled (hvalid.mpr h)]
  exact bits_of_fields (hsecbits h.second) (hminbits h.minute) (hhourbits h.hour)
    (hdombits h.dayOfMonth) (hmonthbits h.month) (hdowbits h.dayOfWeek)

/-- The bits of an expression are matched by the times that it is for. -/
theorem CronFields.Bits.matches_iff {e : CronFields} {expr : CronExpr} (h : e.Bits expr) (t : Int) :
    expr.Matches (tmOf t) ↔ e.Sets (tmOf t) := by
  have hwday : (tmOf t).wday ≠ 7 := by
    simp only [tmOf, Calendar.weekdayOf]
    omega
  constructor
  · intro hm
    exact ⟨(h.second _).mp hm.second, (h.minute _).mp hm.minute, (h.hour _).mp hm.hour,
      (h.dayOfMonth _).mp hm.dayOfMonth, (h.month _).mp hm.month,
      ((h.dayOfWeek _).mp hm.dayOfWeek).2⟩
  · intro hs
    exact ⟨(h.second _).mpr hs.second, (h.minute _).mpr hs.minute, (h.hour _).mpr hs.hour,
      (h.dayOfMonth _).mpr hs.dayOfMonth, (h.dayOfWeek _).mpr ⟨hwday, hs.dayOfWeek⟩,
      (h.month _).mpr hs.month⟩

/-- `split_str` takes no long text. -/
theorem cronParseExpr_long {expression : List Char} (hlen : ¬expression.length < 256) :
    (cronParseExpr expression cronExprZero).2 ≠ none := by
  rw [cronParseExpr, splitStr, if_pos (by omega)]
  exact Option.some_ne_none _

/-- The parser accepts exactly the short expressions whose ranges are valid, and what it accepts is
matched by exactly the times that the expression is for. -/
theorem cronParseExpr_fields (e : CronFields) :
    ((cronParseExpr e.text cronExprZero).2 = none ↔ e.text.length < 256 ∧ e.Valid) ∧
      ((cronParseExpr e.text cronExprZero).2 = none → ∀ t : Int,
        (cronParseExpr e.text cronExprZero).1.Matches (tmOf t) ↔ e.Sets (tmOf t)) := by
  by_cases hlen : e.text.length < 256
  · obtain ⟨hnone, hbits⟩ := cronParseExpr_text e hlen
    refine ⟨by rw [hnone, and_iff_right hlen], fun h t => ?_⟩
    exact (hbits (hnone.mp h)).matches_iff t
  · have hlong := cronParseExpr_long hlen
    exact ⟨⟨fun h => absurd h hlong, fun h => absurd h.1 hlen⟩, fun h => absurd h hlong⟩

end DaliController.Schedule
