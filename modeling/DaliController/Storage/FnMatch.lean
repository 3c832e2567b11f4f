import DaliController.Lib.Glob
import Mathlib.Data.List.TakeWhile
import Mathlib.Tactic.SplitIfs

/-! `Storage::fnmatch` compares a path with a pattern, and `Storage::list` shows the entries of a
directory that match.  The pattern is read from the left.  A star tries the rest of the pattern at
every place of the string that it can reach. -/

namespace DaliController.Storage

open Glob

/-! ### The code

Strings are the bytes in front of their NUL. -/

/-- The flags `FNM_NOESCAPE` to `FNM_PREFIX_DIRS`. -/
structure Flags where
  noescape : Bool
  pathname : Bool
  period : Bool
  leadingDir : Bool
  casefold : Bool
  prefixDirs : Bool
  deriving DecidableEq, Repr

def tolower (c : UInt8) : UInt8 := if 0x41 ≤ c ∧ c ≤ 0x5A then c + 0x20 else c

def Flags.fold (flags : Flags) (c : UInt8) : UInt8 := if flags.casefold then tolower c else c

/-- The byte after a backslash, unless backslashes stand for themselves. -/
def unescape (flags : Flags) (c : UInt8) (pattern : List UInt8) : Option (UInt8 × List UInt8) :=
  if c = 0x5C ∧ flags.noescape = false then
    match pattern with
    | [] => none
    | c :: pattern => some (c, pattern)
  else some (c, pattern)

theorem unescape_length {flags : Flags} {c d : UInt8} {pattern rest : List UInt8}
    (h : unescape flags c pattern = some (d, rest)) : rest.length ≤ pattern.length := by
  unfold unescape at h
  split at h
  · split at h
    · cases h
    · cases h
      exact Nat.le_succ _
  · cases h
    exact Nat.le_refl _

/-- A round of the loop of `rangematch` that does not end it: whether the byte `c`, or the range
that starts with it, covers the byte `test`, and the pattern behind it. -/
def rangeRound (flags : Flags) (test c : UInt8) (pattern : List UInt8) :
    Option (Bool × List UInt8) := do
  let (c, pattern) ← unescape flags c pattern
  match pattern with
  | 0x2D :: c2 :: rest =>
    if c2 = 0x5D then return (flags.fold c == test, pattern)
    let (c2, rest) ← unescape flags c2 rest
    return (decide (flags.fold c ≤ test ∧ test ≤ flags.fold c2), rest)
  | _ => return (flags.fold c == test, pattern)

theorem rangeRound_length {flags : Flags} {test c : UInt8} {ok : Bool}
    {pattern rest : List UInt8} (h : rangeRound flags test c pattern = some (ok, rest)) :
    rest.length ≤ pattern.length := by
  obtain ⟨⟨c', pattern'⟩, hc, h⟩ := Option.bind_eq_some_iff.mp h
  have hle := unescape_length hc
  dsimp only at h
  split at h
  · rename_i c2 rest'
    by_cases hclose : c2 = 0x5D
    · rw [if_pos hclose] at h
      cases h
      exact hle
    · rw [if_neg hclose] at h
      obtain ⟨⟨c2', rest2⟩, hc2, h⟩ := Option.bind_eq_some_iff.mp h
      have hle2 := unescape_length hc2
      simp only [List.length_cons] at hle
      cases h
      dsimp only
      omega
  · cases h
    exact hle

/-- The loop of `rangematch`, up to the closing bracket. -/
def rangeLoop (flags : Flags) (test : UInt8) (ok : Bool) :
    List UInt8 → Option (Bool × List UInt8)
  | [] => none
  | c :: pattern =>
    if c = 0x5D then some (ok, pattern)
    else
      match _h : rangeRound flags test c pattern with
      | none => none
      | some (hit, pattern) => rangeLoop flags test (ok || hit) pattern
termination_by pattern => pattern.length
decreasing_by exact Nat.lt_succ_of_le (rangeRound_length _h)

/-- `rangematch`: the pattern behind the bracket, if the bracket accepts the byte. -/
def rangematch (flags : Flags) (pattern : List UInt8) (test : UInt8) : Option (List UInt8) :=
  let negate := pattern.head? = some 0x21 ∨ pattern.head? = some 0x5E
  let pattern := if negate then pattern.tail else pattern
  (rangeLoop flags (flags.fold test) false pattern).bind fun (ok, pattern) =>
    if ok = decide negate then none else some pattern

theorem rangeLoop_length {flags : Flags} {test : UInt8} {ok ok' : Bool}
    {pattern rest : List UInt8} (h : rangeLoop flags test ok pattern = some (ok', rest)) :
    rest.length ≤ pattern.length := by
  fun_induction rangeLoop flags test ok pattern with
  | case1 => cases h
  | case2 =>
    cases h
    exact Nat.le_succ _
  | case3 => cases h
  | case4 ok c pattern _ hit pattern' hround ih =>
    exact (ih h).trans ((rangeRound_length hround).trans (Nat.le_succ _))

theorem rangematch_length {flags : Flags} {test : UInt8} {pattern rest : List UInt8}
    (h : rangematch flags pattern test = some rest) : rest.length ≤ pattern.length := by
  obtain ⟨⟨ok, rest'⟩, hloop, h⟩ := Option.bind_eq_some_iff.mp h
  obtain rfl : rest' = rest := Option.some.inj (Option.ite_none_left_eq_some.mp h).2
  have hle := rangeLoop_length hloop
  split at hle
  · rw [List.length_tail] at hle
    omega
  · exact hle

/-- A period that has to be matched by a period: at the start of the string, or of a name in it.
`before` are the bytes between `stringstart` and `string`, the last one first. -/
def leadingPeriod (flags : Flags) (before string : List UInt8) : Bool :=
  flags.period && decide (string.head? = some 0x2E ∧
    (before = [] ∨ flags.pathname = true ∧ before.head? = some 0x2F))

/-- The loop of `fnmatch`: whether it returns 0. -/
def fnmatchFrom (flags : Flags) (before : List UInt8) (pattern string : List UInt8) : Bool :=
  match pattern with
  | [] => flags.leadingDir && string.head? == some 0x2F || string.isEmpty
  | c :: pattern =>
    if c = 0x3F then
      match string with
      | [] => false
      | s :: rest =>
        if s = 0x2F ∧ flags.pathname = true then false
        else if leadingPeriod flags before (s :: rest) then false
        else fnmatchFrom flags (s :: before) pattern rest
    else if c = 0x2A then
      let after := pattern.dropWhile (· = 0x2A)
      if leadingPeriod flags before string then false
      else if after = [] then
        if flags.pathname then flags.leadingDir || decide (0x2F ∉ string) else true
      else if after.head? = some 0x2F ∧ flags.pathname = true then
        if 0x2F ∈ string then
          fnmatchFrom flags ((string.takeWhile (· ≠ 0x2F)).reverse ++ before) after
            (string.dropWhile (· ≠ 0x2F))
        else false
      else
        (starts (fun test => !(test == 0x2F && flags.pathname)) string).any fun string =>
          fnmatchFrom { flags with period := false } [] after string
    else if c = 0x5B then
      match string with
      | [] => false
      | s :: rest =>
        if s = 0x2F ∧ flags.pathname = true then false
        else
          match _h : rangematch flags pattern s with
          | none => false
          | some pattern => fnmatchFrom flags (s :: before) pattern rest
    else if c = 0x5C then
      -- The byte that is escaped is skipped, and not compared.
      fnmatchFrom flags before (if flags.noescape then pattern else pattern.tail) string
    else
      match string with
      | [] => flags.prefixDirs && decide (c = 0x2F ∧ before ≠ [] ∨ before = [0x2F])
      | s :: rest =>
        if c = s ∨ flags.casefold = true ∧ tolower c = tolower s then
          fnmatchFrom flags (s :: before) pattern rest
        else false
termination_by pattern.length
decreasing_by
  · exact Nat.lt_succ_self _
  · exact Nat.lt_succ_of_le (List.dropWhile_sublist _).length_le
  · exact Nat.lt_succ_of_le (List.dropWhile_sublist _).length_le
  · exact Nat.lt_succ_of_le (rangematch_length _h)
  · apply Nat.lt_succ_of_le
    split
    · exact Nat.le_refl _
    · rw [List.length_tail]
      exact Nat.sub_le _ _
  · exact Nat.lt_succ_self _

/-- `fnmatch`, which returns 0 for a match and `FNM_NOMATCH` otherwise. -/
def fnmatch (pattern string : List UInt8) (flags : Flags) : Nat :=
  if fnmatchFrom flags [] pattern string then 0 else 1

/-- `FNM_PERIOD`, as in `list`. -/
def fnmPeriod : Flags := ⟨false, false, true, false, false, false⟩

/-! ### Patterns and what they stand for -/

/-- What stands in a bracket. -/
inductive Atom
  | char (c : UInt8)
  | range (lo hi : UInt8)
  deriving DecidableEq, Repr

inductive Item
  | lit (c : UInt8)
  | any
  | star
  | set (negate : Bool) (atoms : List Atom)
  deriving DecidableEq, Repr

def Atom.text : Atom → List UInt8
  | .char c => [c]
  | .range lo hi => [lo, 0x2D, hi]

def Item.text : Item → List UInt8
  | .lit c => [c]
  | .any => [0x3F]
  | .star => [0x2A]
  | .set negate atoms =>
    0x5B :: (if negate then [0x21] else []) ++ atoms.flatMap Atom.text ++ [0x5D]

def patternText (items : List Item) : List UInt8 := items.flatMap Item.text

/-- No backslash, no closing bracket, and no hyphen but that of a range. -/
def Atom.Valid : Atom → Prop
  | .char c => c ≠ 0x5C ∧ c ≠ 0x5D ∧ c ≠ 0x2D
  | .range lo hi => (lo ≠ 0x5C ∧ lo ≠ 0x5D ∧ lo ≠ 0x2D) ∧ hi ≠ 0x5C ∧ hi ≠ 0x5D

/-- A bracket does not look like a negated one, and nothing is escaped. -/
def Item.Valid : Item → Prop
  | .lit c => c ≠ 0x3F ∧ c ≠ 0x2A ∧ c ≠ 0x5B ∧ c ≠ 0x5C
  | .any => True
  | .star => True
  | .set negate atoms => (∀ a ∈ atoms, a.Valid) ∧
      (negate = false → ∀ c ∈ (atoms.flatMap Atom.text).head?, c ≠ 0x21 ∧ c ≠ 0x5E)

def Atom.accepts (flags : Flags) (test : UInt8) : Atom → Bool
  | .char c => flags.fold c == test
  | .range lo hi => decide (flags.fold lo ≤ test ∧ test ≤ flags.fold hi)

/-- Everything but the slash between names, if the flag asks for it. -/
def Flags.inName (flags : Flags) (s : UInt8) : Bool := !(s == 0x2F && flags.pathname)

def Item.piece (flags : Flags) : Item → Piece UInt8
  | .lit c => .one fun s => decide (c = s ∨ flags.casefold = true ∧ tolower c = tolower s)
  | .any => .one flags.inName
  | .star => .run flags.inName
  | .set negate atoms => .one fun s =>
    flags.inName s && (atoms.any (Atom.accepts flags (flags.fold s)) != negate)

/-- What may follow a match. -/
def Flags.tail (flags : Flags) : Language UInt8 :=
  {w | w = [] ∨ flags.leadingDir = true ∧ w.head? = some 0x2F}

/-- The strings that a pattern stands for. -/
def accepted (flags : Flags) (items : List Item) : Language UInt8 :=
  Glob.language (items.map (Item.piece flags)) * flags.tail

/-- A piece that a period at the start of the string must not match. -/
def Item.Wild (i : Item) : Prop := i = .any ∨ i = .star

theorem accepted_nil (flags : Flags) : accepted flags [] = flags.tail := one_mul _

theorem accepted_cons (flags : Flags) (i : Item) (items : List Item) :
    accepted flags (i :: items) = (i.piece flags).language * accepted flags items := by
  rw [accepted, List.map_cons, Glob.language, List.map_cons, List.prod_cons, mul_assoc]
  rfl

/-! ### Brackets -/

section Bracket

variable {flags : Flags} {test : UInt8}

theorem unescape_of_ne {c : UInt8} (hc : c ≠ 0x5C) (pattern : List UInt8) :
    unescape flags c pattern = some (c, pattern) :=
  if_neg fun h => hc h.1

theorem rangeLoop_close (ok : Bool) (pattern : List UInt8) :
    rangeLoop flags test ok (0x5D :: pattern) = some (ok, pattern) := by
  rw [rangeLoop]
  rfl

theorem rangeLoop_round {c : UInt8} {pattern rest : List UInt8} {hit : Bool} (hc : c ≠ 0x5D)
    (h : rangeRound flags test c pattern = some (hit, rest)) (ok : Bool) :
    rangeLoop flags test ok (c :: pattern) = rangeLoop flags test (ok || hit) rest := by
  rw [rangeLoop, if_neg hc]
  split
  · rename_i hnone
    rw [hnone] at h
    cases h
  · rename_i hsome
    rw [hsome] at h
    cases h
    rfl

theorem rangeRound_char {c d : UInt8} (hc : c ≠ 0x5C) (hd : d ≠ 0x2D) (pattern : List UInt8) :
    rangeRound flags test c (d :: pattern) = some (flags.fold c == test, d :: pattern) := by
  simp [rangeRound, unescape_of_ne hc, hd]

theorem rangeRound_range {lo hi : UInt8} (hlo : lo ≠ 0x5C) (hhi : hi ≠ 0x5C ∧ hi ≠ 0x5D)
    (pattern : List UInt8) : rangeRound flags test lo (0x2D :: hi :: pattern) =
      some (decide (flags.fold lo ≤ test ∧ test ≤ flags.fold hi), pattern) := by
  simp [rangeRound, unescape_of_ne hlo, unescape_of_ne hhi.1, hhi.2]

/-- The bytes of a bracket never start with a hyphen, and they end with the closing bracket. -/
theorem atoms_head {atoms : List Atom} (h : ∀ a ∈ atoms, a.Valid) (pattern : List UInt8) :
    ∃ d rest, atoms.flatMap Atom.text ++ 0x5D :: pattern = d :: rest ∧ d ≠ 0x2D := by
  cases atoms with
  | nil => exact ⟨0x5D, pattern, rfl, by decide⟩
  | cons a atoms =>
    have ha : a.Valid := h a List.mem_cons_self
    cases a with
    | char c => exact ⟨c, _, rfl, ha.2.2⟩
    | range lo hi => exact ⟨lo, _, rfl, ha.1.2.2⟩

variable (flags test) in
theorem rangeLoop_atoms {atoms : List Atom} (h : ∀ a ∈ atoms, a.Valid) (ok : Bool)
    (pattern : List UInt8) :
    rangeLoop flags test ok (atoms.flatMap Atom.text ++ 0x5D :: pattern) =
      some (ok || atoms.any (Atom.accepts flags test), pattern) := by
  induction atoms generalizing ok with
  | nil => simp [rangeLoop_close]
  | cons a atoms ih =>
    obtain ⟨ha, hatoms⟩ := List.forall_mem_cons.mp h
    obtain ⟨d, rest, hhead, hd⟩ := atoms_head hatoms pattern
    rw [List.flatMap_cons, List.append_assoc, List.any_cons, ← Bool.or_assoc, ← ih hatoms]
    cases a with
    | char c =>
      show rangeLoop flags test ok (c :: (atoms.flatMap Atom.text ++ 0x5D :: pattern)) = _
      rw [hhead]
      exact rangeLoop_round ha.2.1 (rangeRound_char ha.1 hd rest) ok
    | range lo hi => exact rangeLoop_round ha.1.2.1 (rangeRound_range ha.1.1 ha.2 _) ok

variable (flags) in
theorem rangematch_set {negate : Bool} {atoms : List Atom} (h : (Item.set negate atoms).Valid)
    (s : UInt8) (pattern : List UInt8) :
    rangematch flags ((if negate then [0x21] else []) ++
        (atoms.flatMap Atom.text ++ 0x5D :: pattern)) s =
      if (atoms.any (Atom.accepts flags (flags.fold s)) != negate) = true then some pattern
      else none := by
  have hloop := rangeLoop_atoms flags (flags.fold s) h.1 false pattern
  rw [Bool.false_or] at hloop
  cases negate with
  | true =>
    simp only [rangematch, if_true, List.singleton_append, List.head?_cons, true_or, List.tail_cons,
      hloop, Option.bind_some, decide_true]
    cases atoms.any (Atom.accepts flags (flags.fold s)) <;> rfl
  | false =>
    have hplain : ¬((atoms.flatMap Atom.text ++ 0x5D :: pattern).head? = some 0x21 ∨
        (atoms.flatMap Atom.text ++ 0x5D :: pattern).head? = some 0x5E) := by
      have hfirst := h.2 rfl
      cases htext : atoms.flatMap Atom.text with
      | nil => simp
      | cons c cs =>
        rw [htext] at hfirst
        obtain ⟨hnot, hcaret⟩ := hfirst c rfl
        simp [hnot, hcaret]
    simp only [rangematch, Bool.false_eq_true, if_false, List.nil_append, if_neg hplain, hloop,
      Option.bind_some, decide_eq_false hplain]
    cases atoms.any (Atom.accepts flags (flags.fold s)) <;> rfl

end Bracket

/-! ### The matcher -/

section Matcher

variable {flags : Flags} {before : List UInt8} {items : List Item}

theorem inName_iff {s : UInt8} :
    flags.inName s = true ↔ ¬(s = 0x2F ∧ flags.pathname = true) := by
  cases hpath : flags.pathname <;> simp [Flags.inName, hpath]

/-- Without stars in front, the text of a pattern that is not empty starts with another byte. -/
theorem patternText_head {i : Item} (hi : i.Valid) (hstar : i ≠ .star) (items : List Item) :
    ∃ c rest, patternText (i :: items) = c :: rest ∧ c ≠ 0x2A ∧ (c = 0x2F ↔ i = .lit 0x2F) := by
  cases i with
  | lit c => exact ⟨c, _, rfl, hi.2.1, by simp⟩
  | any => exact ⟨0x3F, _, rfl, by decide, by simp⟩
  | star => exact absurd rfl hstar
  | set negate atoms =>
    refine ⟨0x5B, (if negate then [0x21] else []) ++ (atoms.flatMap Atom.text ++
      0x5D :: patternText items), ?_, by decide, by simp⟩
    simp [patternText, Item.text]

theorem nil_not_mem_accepted {i : Item} (hstar : i ≠ .star) (items : List Item) :
    [] ∉ accepted flags (i :: items) := by
  rw [accepted_cons]
  cases i with
  | star => exact absurd rfl hstar
  | lit c => exact nil_not_mem_one_mul
  | any => exact nil_not_mem_one_mul
  | set negate atoms => exact nil_not_mem_one_mul

theorem nil_mem_tail : [] ∈ flags.tail := Or.inl rfl

theorem cons_mem_tail {s : UInt8} {string : List UInt8} :
    s :: string ∈ flags.tail ↔ flags.leadingDir = true ∧ s = 0x2F := by
  show (s :: string = [] ∨ flags.leadingDir = true ∧ some s = some 0x2F) ↔ _
  simp

/-- A star at the end of the pattern. -/
theorem mem_accepted_star (string : List UInt8) : string ∈ accepted flags [.star] ↔
    (if flags.pathname then flags.leadingDir || decide (0x2F ∉ string) else true) = true := by
  rw [accepted_cons, accepted_nil]
  show string ∈ (Piece.run flags.inName).language * flags.tail ↔ _
  by_cases hpath : flags.pathname = true
  · rw [if_pos hpath]
    induction string with
    | nil => simpa using mem_run_mul_of_mem nil_mem_tail
    | cons s string ih =>
      rw [cons_mem_run_mul, cons_mem_tail, ih]
      by_cases hs : s = 0x2F
      · simp [Flags.inName, hs, hpath]
      · have hne : ¬0x2F = s := Ne.symm hs
        simp [Flags.inName, hs, hne]
  · rw [if_neg hpath]
    refine iff_of_true
      (mem_run_mul.mpr ⟨string, [], (List.append_nil _).symm, ?_, nil_mem_tail⟩) rfl
    intro s _
    simp [Flags.inName, hpath]

theorem fnmatchFrom_nil (string : List UInt8) :
    fnmatchFrom flags before [] string = true ↔ string ∈ accepted flags [] := by
  rw [fnmatchFrom, accepted_nil]
  cases string with
  | nil => simp [nil_mem_tail]
  | cons s string => simp [cons_mem_tail]

/-- An item that stands for one byte: the matcher goes on behind it. -/
theorem fnmatchFrom_one {i : Item} (hi : i.Valid) {p : UInt8 → Bool} (hp : i.piece flags = .one p)
    (hdirs : flags.prefixDirs = false) (string : List UInt8) :
    fnmatchFrom flags before (patternText (i :: items)) string = true ↔
      ∃ s rest, string = s :: rest ∧ p s = true ∧
        ¬(i = .any ∧ leadingPeriod flags before string = true) ∧
        fnmatchFrom flags (s :: before) (patternText items) rest = true := by
  cases i with
  | star => cases hp
  | lit c =>
    obtain ⟨h1, h2, h3, h4⟩ := hi
    cases hp
    show fnmatchFrom flags before (c :: patternText items) string = true ↔ _
    cases string with
    | nil => simp [fnmatchFrom, h1, h2, h3, h4, hdirs]
    | cons s rest => simp [fnmatchFrom, h1, h2, h3, h4]
  | any =>
    cases hp
    show fnmatchFrom flags before (0x3F :: patternText items) string = true ↔ _
    cases string with
    | nil => simp [fnmatchFrom]
    | cons s rest => simp [fnmatchFrom, Flags.inName]
  | set negate atoms =>
    cases hp
    have htext : patternText (.set negate atoms :: items) =
        0x5B :: ((if negate then [0x21] else []) ++
          (atoms.flatMap Atom.text ++ 0x5D :: patternText items)) := by
      simp [patternText, Item.text]
    rw [htext]
    cases string with
    | nil => simp [fnmatchFrom]
    | cons s rest =>
      have hbracket := rangematch_set flags hi s (patternText items)
      rw [fnmatchFrom, if_neg (by decide), if_neg (by decide), if_pos rfl]
      by_cases hs : s = 0x2F ∧ flags.pathname = true
      · simp [hs, Flags.inName]
      have hname : flags.inName s = true := inName_iff.mpr hs
      rw [if_neg hs]
      by_cases hset : (atoms.any (Atom.accepts flags (flags.fold s)) != negate) = true
      · rw [if_pos hset] at hbracket
        generalize rangematch flags _ s = found at hbracket
        subst hbracket
        simp [hname, bne_iff_ne.mp hset]
      · rw [if_neg hset] at hbracket
        have hsame : atoms.any (Atom.accepts flags (flags.fold s)) = negate := by simpa using hset
        generalize rangematch flags _ s = found at hbracket
        subst hbracket
        simp [hsame]

theorem fnmatchFrom_cons_star (pattern string : List UInt8) :
    fnmatchFrom flags before (0x2A :: pattern) string =
      if leadingPeriod flags before string then false
      else if pattern.dropWhile (· = 0x2A) = [] then
        if flags.pathname then flags.leadingDir || decide (0x2F ∉ string) else true
      else if (pattern.dropWhile (· = 0x2A)).head? = some 0x2F ∧ flags.pathname = true then
        if 0x2F ∈ string then
          fnmatchFrom flags ((string.takeWhile (· ≠ 0x2F)).reverse ++ before)
            (pattern.dropWhile (· = 0x2A)) (string.dropWhile (· ≠ 0x2F))
        else false
      else
        (starts flags.inName string).any fun string =>
          fnmatchFrom { flags with period := false } [] (pattern.dropWhile (· = 0x2A)) string := by
  rw [fnmatchFrom.eq_def]
  dsimp only
  rw [if_neg (by decide), if_pos rfl]
  rfl

/-- A star tries the rest of the pattern at the places it can reach, unless a period at the start
of the string forbids it. -/
theorem fnmatchFrom_star {i : Item} (hi : i.Valid) (hstar : i ≠ .star) (string : List UInt8) :
    fnmatchFrom flags before (patternText (.star :: i :: items)) string = true ↔
      leadingPeriod flags before string = false ∧
        if i = .lit 0x2F ∧ flags.pathname = true then
          0x2F ∈ string ∧ fnmatchFrom flags ((string.takeWhile (· ≠ 0x2F)).reverse ++ before)
            (patternText (i :: items)) (string.dropWhile (· ≠ 0x2F)) = true
        else
          ∃ v ∈ starts flags.inName string, fnmatchFrom { flags with period := false } []
            (patternText (i :: items)) v = true := by
  obtain ⟨c, rest, htext, hc, hslash⟩ := patternText_head hi hstar items
  have hafter : (patternText (i :: items)).dropWhile (· = 0x2A) = patternText (i :: items) := by
    rw [htext, List.dropWhile_cons_of_neg (by simpa using hc)]
  have hhead : (patternText (i :: items)).head? = some 0x2F ↔ i = .lit 0x2F := by
    rw [htext, List.head?_cons, Option.some.injEq, hslash]
  have hne : patternText (i :: items) ≠ [] := by
    rw [htext]
    exact List.cons_ne_nil c rest
  show fnmatchFrom flags before (0x2A :: patternText (i :: items)) string = true ↔ _
  rw [fnmatchFrom_cons_star, hafter, if_neg hne]
  simp only [hhead]
  cases leadingPeriod flags before string with
  | true => simp
  | false =>
    simp only [Bool.false_eq_true, if_false, true_and]
    split_ifs with hpath hmem
    · simp [hmem]
    · simp [hmem]
    · rw [List.any_eq_true]

theorem fnmatchFrom_star_star (string : List UInt8) :
    fnmatchFrom flags before (patternText (.star :: .star :: items)) string =
      fnmatchFrom flags before (patternText (.star :: items)) string := by
  show fnmatchFrom flags before (0x2A :: 0x2A :: patternText items) string =
    fnmatchFrom flags before (0x2A :: patternText items) string
  rw [fnmatchFrom_cons_star, fnmatchFrom_cons_star, List.dropWhile_cons_of_pos (by simp)]

theorem accepted_star_star :
    accepted flags (.star :: .star :: items) = accepted flags (.star :: items) := by
  rw [accepted_cons, accepted_cons]
  exact run_mul_run

theorem eq_slash {s : UInt8} (h : 0x2F = s ∨ tolower 0x2F = tolower s) : s = 0x2F := by
  revert h
  obtain ⟨⟨s⟩⟩ := s
  revert s
  decide +kernel

/-- The slash that a star cannot pass is the next one. -/
theorem mem_accepted_star_slash (hpath : flags.pathname = true) (string : List UInt8) :
    string ∈ accepted flags (.star :: .lit 0x2F :: items) ↔
      0x2F ∈ string ∧ string.dropWhile (· ≠ 0x2F) ∈ accepted flags (.lit 0x2F :: items) := by
  have hname : flags.inName = fun s => decide (s ≠ 0x2F) := by
    funext s
    rw [Bool.eq_iff_iff]
    simp [Flags.inName, hpath]
  have hslash : ∀ v ∈ accepted flags (.lit 0x2F :: items),
      ∃ s ∈ v.head?, flags.inName s = false := by
    intro v hv
    rw [accepted_cons] at hv
    obtain ⟨s, rest, rfl, hs, -⟩ := mem_one_mul.mp hv
    refine ⟨s, rfl, ?_⟩
    have heq : s = 0x2F := eq_slash ((of_decide_eq_true hs).imp_right And.right)
    simp [Flags.inName, hpath, heq]
  rw [accepted_cons]
  refine (mem_run_mul_iff_dropWhile hslash).trans ?_
  rw [hname]
  refine (and_iff_right_of_imp fun h => ?_).symm
  obtain ⟨s, hs, -⟩ := hslash _ h
  by_contra hnot
  rw [List.dropWhile_eq_nil_iff.mpr] at hs
  · cases hs
  · intro x hx
    refine decide_eq_true fun heq => hnot (heq ▸ hx)

theorem leadingPeriod_cons (hdot : flags.period = true → flags.pathname = false) (s : UInt8)
    (string : List UInt8) : leadingPeriod flags (s :: before) string = false := by
  cases hperiod : flags.period with
  | false => simp [leadingPeriod, hperiod]
  | true => simp [leadingPeriod, hdot hperiod]

/-- The matcher accepts the strings that the rest of the pattern stands for, except that a leading
period has to be matched by a period. -/
theorem fnmatchFrom_iff (hdirs : flags.prefixDirs = false)
    (hdot : flags.period = true → flags.pathname = false) (hvalid : ∀ i ∈ items, i.Valid)
    (string : List UInt8) :
    fnmatchFrom flags before (patternText items) string = true ↔
      string ∈ accepted flags items ∧
        ¬(leadingPeriod flags before string = true ∧ ∃ i ∈ items.head?, i.Wild) := by
  induction items generalizing flags before string with
  | nil =>
    refine (fnmatchFrom_nil string).trans (and_iff_left ?_).symm
    rintro ⟨-, i, hi, -⟩
    cases hi
  | cons i items ih =>
    obtain ⟨hi, hitems⟩ := List.forall_mem_cons.mp hvalid
    have hhead : (∃ j ∈ (i :: items).head?, j.Wild) ↔ i.Wild := by simp
    rw [hhead]
    have hone {p : UInt8 → Bool} (hp : i.piece flags = .one p) (hstar : i ≠ .star) :
        fnmatchFrom flags before (patternText (i :: items)) string = true ↔
          string ∈ accepted flags (i :: items) ∧
            ¬(leadingPeriod flags before string = true ∧ i.Wild) := by
      have hwild : i.Wild ↔ i = .any := or_iff_left hstar
      rw [fnmatchFrom_one hi hp hdirs, accepted_cons, hp, mem_one_mul, hwild]
      simp only [ih hdirs hdot hitems, leadingPeriod_cons hdot, Bool.false_eq_true, false_and,
        not_false_eq_true, and_true]
      constructor
      · rintro ⟨s, rest, rfl, hs, hperiod, hrest⟩
        exact ⟨⟨s, rest, rfl, hs, hrest⟩, fun h => hperiod ⟨h.2, h.1⟩⟩
      · rintro ⟨⟨s, rest, rfl, hs, hrest⟩, hperiod⟩
        exact ⟨s, rest, rfl, hs, fun h => hperiod ⟨h.2, h.1⟩, hrest⟩
    cases i with
    | lit c => exact hone rfl (by simp)
    | any => exact hone rfl (by simp)
    | set negate atoms => exact hone rfl (by simp)
    | star =>
      have hwild : Item.star.Wild := .inr rfl
      have hperiod : (leadingPeriod flags before string = true ∧ Item.star.Wild) ↔
          leadingPeriod flags before string = true := and_iff_left hwild
      rw [hperiod, Bool.not_eq_true]
      cases items with
      | nil =>
        rw [mem_accepted_star]
        show fnmatchFrom flags before (0x2A :: []) string = true ↔ _
        rw [fnmatchFrom_cons_star]
        cases leadingPeriod flags before string <;> simp
      | cons j items =>
        by_cases hj : j = .star
        · subst hj
          rw [fnmatchFrom_star_star, accepted_star_star, ih hdirs hdot hitems]
          simp [hwild]
        · obtain ⟨hjvalid, -⟩ := List.forall_mem_cons.mp hitems
          rw [fnmatchFrom_star hjvalid hj, and_comm]
          apply and_congr_left'
          split_ifs with hslash
          · obtain ⟨rfl, hpath⟩ := hslash
            have hnot : flags.period = false := by
              by_contra h
              rw [hdot (Bool.not_eq_false _ ▸ h)] at hpath
              cases hpath
            rw [mem_accepted_star_slash hpath, ih hdirs hdot hitems]
            simp [leadingPeriod, hnot]
          · rw [accepted_cons]
            refine Iff.trans ?_ (mem_run_mul_iff_starts (nil_not_mem_accepted hj items)).symm
            refine exists_congr fun v => and_congr_right fun _ => ?_
            have hdirs' : { flags with period := false }.prefixDirs = false := hdirs
            have hdot' : { flags with period := false }.period = true →
                { flags with period := false }.pathname = false := by
              intro h
              cases h
            rw [ih hdirs' hdot' hitems]
            refine and_iff_left fun h => ?_
            cases h.1

end Matcher

/-- `fnmatch` finds exactly the strings that the pattern stands for.  With `FNM_PERIOD`, a period at
the start of the string is not matched by a question mark or by a star. -/
theorem fnmatch_eq_zero_iff {flags : Flags} (hdirs : flags.prefixDirs = false)
    (hdot : flags.period = true → flags.pathname = false) {items : List Item}
    (hvalid : ∀ i ∈ items, i.Valid) (string : List UInt8) :
    fnmatch (patternText items) string flags = 0 ↔
      string ∈ accepted flags items ∧
        ¬(flags.period = true ∧ string.head? = some 0x2E ∧ ∃ i ∈ items.head?, i.Wild) := by
  have hmatch : fnmatch (patternText items) string flags = 0 ↔
      fnmatchFrom flags [] (patternText items) string = true := by
    unfold fnmatch
    split_ifs with h <;> simp [h]
  have hleading : leadingPeriod flags [] string = true ↔
      flags.period = true ∧ string.head? = some 0x2E := by
    simp [leadingPeriod]
  rw [hmatch, fnmatchFrom_iff hdirs hdot hvalid, hleading, and_assoc]

/-- The pattern `*.*` of `config`, on the path of an entry. -/
theorem fnmatch_eq_zero_iff_config :
    fnmatch (patternText [.star, .lit 0x2E, .star]) [0x2F, 0x7A, 0x2E, 0x62] fnmPeriod = 0 := by
  have hdot : (Item.lit 0x2E).Valid := ⟨by decide, by decide, by decide, by decide⟩
  have hvalid : ∀ i ∈ [Item.star, .lit 0x2E, .star], i.Valid := List.forall_mem_cons.mpr
    ⟨trivial, List.forall_mem_cons.mpr ⟨hdot, List.forall_mem_singleton.mpr trivial⟩⟩
  have hdirs : fnmPeriod.prefixDirs = false := rfl
  have hname : fnmPeriod.period = true → fnmPeriod.pathname = false := fun _ => rfl
  have hany (s : UInt8) : fnmPeriod.inName s = true := by simp [Flags.inName, fnmPeriod]
  have haccepted : [0x2F, 0x7A, 0x2E, 0x62] ∈ accepted fnmPeriod [.star, .lit 0x2E, .star] := by
    rw [accepted_cons, accepted_cons, accepted_cons, accepted_nil]
    refine mem_run_mul.mpr ⟨[0x2F, 0x7A], _, rfl, fun s _ => hany s, ?_⟩
    refine mem_one_mul.mpr ⟨0x2E, _, rfl, by decide, ?_⟩
    exact mem_run_mul.mpr ⟨[0x62], [], rfl, fun s _ => hany s, .inl rfl⟩
  refine (fnmatch_eq_zero_iff hdirs hname hvalid _).mpr ⟨haccepted, ?_⟩
  rintro ⟨-, hhead, -⟩
  exact absurd hhead (by decide)

end DaliController.Storage
