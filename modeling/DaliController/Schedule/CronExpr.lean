import Mathlib.Data.List.Basic

/-! The parser of cron expressions.  An expression has six fields, and each of them is a list of
ranges that set bits. -/

namespace DaliController.Schedule

/-! ### Strings -/

/-- `isspace`. -/
def IsSpace (c : Char) : Prop := c = ' ' ∨ '\t' ≤ c ∧ c ≤ '\r'

instance : DecidablePred IsSpace := fun c =>
  inferInstanceAs (Decidable (c = ' ' ∨ '\t' ≤ c ∧ c ≤ '\r'))

/-- The second loop of `split_str`, with what is in `buf`. -/
def splitLoop (del : Char) : List Char → List Char → List (List Char)
  | [], buf => if buf = [] then [] else [buf]
  | c :: str, buf =>
    if c = del then if buf = [] then splitLoop del str [] else buf :: splitLoop del str []
    else if IsSpace c then splitLoop del str buf
    else splitLoop del str (buf ++ [c])

/-- `split_str`, with the empty list for a null pointer. -/
def splitStr (str : List Char) (del : Char) : List (List Char) :=
  if 256 ≤ str.length then [] else splitLoop del str []

/-- `str_replace`, with as many characters still to skip. -/
def strReplace (rep w : List Char) : Nat → List Char → List Char
  | _, [] => []
  | skip + 1, _ :: orig => strReplace rep w skip orig
  | 0, c :: orig =>
    if rep.isPrefixOf (c :: orig) then w ++ strReplace rep w (rep.length - 1) orig
    else c :: strReplace rep w 0 orig

def toUpper (str : List Char) : List Char := str.map Char.toUpper

/-- `replace_ordinals`, from the number `i` on. -/
def replaceOrdinals (i : Nat) (value : List Char) : List String → List Char
  | [] => value
  | name :: arr => replaceOrdinals (i + 1) (strReplace name.toList (toString i).toList 0 value) arr

def daysArr : List String := ["SUN", "MON", "TUE", "WED", "THU", "FRI", "SAT"]

def monthsArr : List String :=
  ["FOO", "JAN", "FEB", "MAR", "APR", "MAY", "JUN", "JUL", "AUG", "SEP", "OCT", "NOV", "DEC"]

/-! ### Numbers -/

/-- The value of a digit or letter. -/
def digitOf (c : Char) : Nat :=
  if '0' ≤ c ∧ c ≤ '9' then c.toNat - '0'.toNat
  else if 'a' ≤ c ∧ c ≤ 'z' then c.toNat - 'a'.toNat + 10
  else if 'A' ≤ c ∧ c ≤ 'Z' then c.toNat - 'A'.toNat + 10
  else 36

/-- The digits at the start of a string, after those with the value `l`, and what follows. -/
def strtolDigits (base l : Nat) : List Char → Nat × List Char
  | [] => (l, [])
  | c :: str => if digitOf c < base then strtolDigits base (l * base + digitOf c) str
    else (l, c :: str)

/-- `strtol` with base 0, behind the sign. -/
def strtolPrefix : List Char → Option (Nat × List Char)
  | '0' :: x :: c :: str =>
    if (x = 'x' ∨ x = 'X') ∧ digitOf c < 16 then some (strtolDigits 16 0 (c :: str))
    else some (strtolDigits 8 0 (x :: c :: str))
  | '0' :: str => some (strtolDigits 8 0 str)
  | c :: str => if digitOf c < 10 then some (strtolDigits 10 0 (c :: str)) else none
  | [] => none

/-- `strtol` with base 0: the number, without its limits, and what follows it. -/
def strtol (str : List Char) : Int × List Char :=
  let (neg, digits) : Bool × List Char := match str.dropWhile (IsSpace ·) with
    | '-' :: s => (true, s)
    | '+' :: s => (false, s)
    | s => (false, s)
  match strtolPrefix digits with
  | some (l, rest) => (if neg then -(l : Int) else l, rest)
  | none => (0, str)

/-- `parse_uint`, without a result when it reports an error.  A `long` is as wide as an `int`. -/
def parseUint (str : List Char) : Option Nat :=
  let (l, endptr) := strtol str
  if endptr ≠ [] ∨ l < 0 ∨ 2147483647 < l then none else some l.toNat

/-! ### Ranges -/

def hasChar (str : List Char) (ch : Char) : Bool := str.contains ch

/-- The checks at the end of `get_range`. -/
def checkRange (min max : Nat) (res : Nat × Nat) : Except String (Nat × Nat) :=
  if max ≤ res.1 ∨ max ≤ res.2 then .error "Specified range exceeds maximum"
  else if res.1 < min ∨ res.2 < min then .error "Specified range is less than minimum"
  else if res.2 < res.1 then .error "Specified range start exceeds range end"
  else .ok res

def parseOr (str : List Char) (error : String) : Except String Nat :=
  match parseUint str with
  | some val => .ok val
  | none => .error error

def getRange (field : List Char) (min max : Nat) : Except String (Nat × Nat) := do
  if field = ['*'] then checkRange min max (min, max - 1)
  else if !hasChar field '-' then
    let val ← parseOr field "Unsigned integer parse error 1"
    checkRange min max (val, val)
  else
    match splitStr field '-' with
    | [first, last] =>
      let first ← parseOr first "Unsigned integer parse error 2"
      let last ← parseOr last "Unsigned integer parse error 3"
      checkRange min max (first, last)
    | _ => .error "Specified range requires two fields"

/-- `get_range`, and the distance of the bits to set. -/
def getIncrement (field : List Char) (min max : Nat) : Except String (Nat × Nat × Nat) := do
  if !hasChar field '/' then
    let range ← getRange field min max
    return (range.1, range.2, 1)
  else
    match splitStr field '/' with
    | [first, second] =>
      let range ← getRange first min max
      let last := if hasChar first '-' then range.2 else max - 1
      let delta ← parseOr second "Unsigned integer parse error 4"
      if delta = 0 then .error "Incrementer may not be zero"
      else return (range.1, last, delta)
    | _ => .error "Incrementer must have two fields"

/-! ### Bits -/

def cronSetBit (rbyte : List UInt8) (idx : Nat) : List UInt8 :=
  rbyte.modify (idx / 8) (· ||| 1 <<< UInt8.ofNat (idx % 8))

def cronDelBit (rbyte : List UInt8) (idx : Nat) : List UInt8 :=
  rbyte.modify (idx / 8) (· &&& ~~~(1 <<< UInt8.ofNat (idx % 8)))

def cronGetBit (rbyte : List UInt8) (idx : Nat) : Bool :=
  rbyte.getD (idx / 8) 0 &&& 1 <<< UInt8.ofNat (idx % 8) ≠ 0

/-- The bits from `first` to `last`, `delta` apart. -/
def setBits (target : List UInt8) (first last delta : Nat) : List UInt8 :=
  ((List.range (last + 1)).filter fun i => first ≤ i ∧ (i - first) % delta = 0).foldl cronSetBit
    target

/-- The loop of `set_number_hits`.  On an error the bits that are set stay. -/
def setFields (min max : Nat) : List (List Char) → List UInt8 → List UInt8 × Option String
  | [], target => (target, none)
  | field :: fields, target =>
    match getIncrement field min max with
    | .ok (first, last, delta) => setFields min max fields (setBits target first last delta)
    | .error error => (target, some error)

def setNumberHits (value : List Char) (target : List UInt8) (min max : Nat) :
    List UInt8 × Option String :=
  match splitStr value ',' with
  | [] => (target, some "Comma split error")
  | fields => setFields min max fields target

def setMonths (value : List Char) (targ : List UInt8) : List UInt8 × Option String :=
  let (targ, error) := setNumberHits (replaceOrdinals 0 (toUpper value) monthsArr) targ 1 13
  -- the months move to the front
  let targ := (List.range 12).foldl (fun targ i =>
    if cronGetBit targ (i + 1) then cronDelBit (cronSetBit targ i) (i + 1) else targ) targ
  (targ, error)

/-- A question mark stands for all days. -/
def anyDay (field : List Char) : List Char := if field = ['?'] then ['*'] else field

def setDays (field : List Char) (targ : List UInt8) (max : Nat) : List UInt8 × Option String :=
  setNumberHits (anyDay field) targ 0 max

def setDaysOfMonth (field : List Char) (targ : List UInt8) : List UInt8 × Option String :=
  setNumberHits (anyDay field) targ 1 32

/-! ### The expression -/

/-- `cron_expr`. -/
structure CronExpr where
  seconds : List UInt8
  minutes : List UInt8
  hours : List UInt8
  daysOfWeek : List UInt8
  daysOfMonth : List UInt8
  months : List UInt8
  deriving DecidableEq, Repr

/-- An expression that is zero. -/
def cronExprZero : CronExpr where
  seconds := List.replicate 8 0
  minutes := List.replicate 8 0
  hours := List.replicate 3 0
  daysOfWeek := List.replicate 1 0
  daysOfMonth := List.replicate 4 0
  months := List.replicate 2 0

/-- The fields behind the hours, in the order in which they are parsed. -/
def parseDays (dom month dow : List Char) (target : CronExpr) : CronExpr × Option String :=
  let (daysOfWeek, error) :=
    setDays (replaceOrdinals 0 (toUpper dow) daysArr) target.daysOfWeek 8
  let target := { target with daysOfWeek }
  if error.isSome then (target, error) else
  -- Sunday is 0 or 7
  let target := if cronGetBit target.daysOfWeek 7 then
    { target with daysOfWeek := cronDelBit (cronSetBit target.daysOfWeek 0) 7 } else target
  let (daysOfMonth, error) := setDaysOfMonth dom target.daysOfMonth
  let target := { target with daysOfMonth }
  if error.isSome then (target, error) else
  let (months, error) := setMonths month target.months
  ({ target with months }, error)

/-- `cron_parse_expr`: the expression, which is partly filled if there is an error. -/
def cronParseExpr (expression : List Char) (target : CronExpr) : CronExpr × Option String :=
  match splitStr expression ' ' with
  | [sec, min, hour, dom, month, dow] =>
    let (seconds, error) := setNumberHits sec target.seconds 0 60
    let target := { target with seconds }
    if error.isSome then (target, error) else
    let (minutes, error) := setNumberHits min target.minutes 0 60
    let target := { target with minutes }
    if error.isSome then (target, error) else
    let (hours, error) := setNumberHits hour target.hours 0 24
    let target := { target with hours }
    if error.isSome then (target, error) else
    parseDays dom month dow target
  | _ => (target, some "Invalid number of fields, expression must consist of 6 fields")

end DaliController.Schedule
