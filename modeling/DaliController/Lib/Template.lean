import Mathlib.Algebra.Order.Group.Int
import Mathlib.Algebra.Ring.Int.Defs
import Mathlib.Data.List.Basic

/-! Texts with placeholders.  A placeholder is a name between two marks, and a text ends with a stop
element.  The element behind the closing mark is copied whatever it is, so a stop there does not end
the text. -/

namespace Template

variable {α : Type*}

inductive Piece (α : Type*)
  | lit (a : α)
  /-- A placeholder, and the element behind its closing mark. -/
  | hole (name : List α) (next : α)
  deriving DecidableEq, Repr

/-- A text up to its stop element.  A placeholder that is still open there is `unclosed`. -/
structure Parsed (α : Type*) where
  pieces : List (Piece α)
  unclosed : Option (List α)
  deriving DecidableEq, Repr

def Parsed.cons (p : Piece α) (T : Parsed α) : Parsed α := ⟨p :: T.pieces, T.unclosed⟩

/-- What a scanner has seen of a placeholder. -/
inductive Mode (α : Type*)
  | copy
  | name (xs : List α)
  | next (xs : List α)
  deriving DecidableEq, Repr

section Parse

variable [DecidableEq α] (mark stop : α)

/-- The text at the start of a buffer, and what stands behind it.  There is none when the buffer
ends before the text does. -/
def parse : Mode α → List α → Option (Parsed α × List α)
  | _, [] => none
  | .copy, a :: as =>
    if a = stop then some (⟨[], none⟩, as)
    else if a = mark then parse (.name []) as
    else (parse .copy as).map fun (T, rest) => (T.cons (.lit a), rest)
  | .name xs, a :: as =>
    if a = stop then some (⟨[], some xs⟩, as)
    else if a = mark then parse (.next xs) as
    else parse (.name (xs ++ [a])) as
  | .next xs, a :: as => (parse .copy as).map fun (T, rest) => (T.cons (.hole xs a), rest)

end Parse

/-! ### Source and rendered text -/

def Piece.source (mark : α) : Piece α → List α
  | .lit a => [a]
  | .hole xs a => mark :: xs ++ [mark, a]

def Parsed.source (mark : α) (T : Parsed α) : List α :=
  T.pieces.flatMap (Piece.source mark) ++ T.unclosed.elim [] (mark :: ·)

/-- The part of the source that a scanner in this mode has read. -/
def Mode.source (mark : α) : Mode α → List α
  | .copy => []
  | .name xs => mark :: xs
  | .next xs => mark :: xs ++ [mark]

def Piece.render (value : List α → List α) : Piece α → List α
  | .lit a => [a]
  | .hole xs a => value xs ++ [a]

/-- The text with the placeholders filled in.  An unclosed one is dropped. -/
def Parsed.render (value : List α → List α) (T : Parsed α) : List α :=
  T.pieces.flatMap (Piece.render value)

def Piece.growth (value : List α → List α) : Piece α → Int
  | .lit _ => 0
  | .hole xs _ => (value xs).length - xs.length - 2

/-- By how much filling in the placeholders lengthens the text. -/
def Parsed.growth (value : List α → List α) (T : Parsed α) : Int :=
  (T.pieces.map (Piece.growth value)).sum

/-- The names of the closed placeholders. -/
def Parsed.holes (T : Parsed α) : List (List α) :=
  T.pieces.filterMap fun
    | .lit _ => none
    | .hole xs _ => some xs

section

variable {mark : α} {value : List α → List α}

theorem Piece.length_render (mark : α) (value : List α → List α) (p : Piece α) :
    ((p.render value).length : Int) = (p.source mark).length + p.growth value := by
  cases p with
  | lit a => simp [render, source, growth]
  | hole xs a =>
    simp only [render, source, growth, List.cons_append, List.length_append, List.length_cons,
      List.length_nil]
    omega

theorem Parsed.growth_cons (p : Piece α) (T : Parsed α) :
    (T.cons p).growth value = p.growth value + T.growth value := rfl

theorem Parsed.holes_cons_lit (a : α) (T : Parsed α) : (T.cons (.lit a)).holes = T.holes := rfl

theorem Parsed.holes_cons_hole (xs : List α) (a : α) (T : Parsed α) :
    (T.cons (.hole xs a)).holes = xs :: T.holes := rfl

theorem Parsed.render_cons (p : Piece α) (T : Parsed α) :
    (T.cons p).render value = p.render value ++ T.render value := rfl

theorem Parsed.source_cons (p : Piece α) (T : Parsed α) :
    (T.cons p).source mark = p.source mark ++ T.source mark := by
  simp only [cons, source, List.flatMap_cons, List.append_assoc]

/-- Values of at most `k` elements lengthen the text by at most `k` for each placeholder. -/
theorem Parsed.growth_le {T : Parsed α} {k : Nat} (h : ∀ xs ∈ T.holes, (value xs).length ≤ k) :
    T.growth value ≤ k * T.holes.length := by
  obtain ⟨ps, u⟩ := T
  induction ps with
  | nil => exact Int.le_of_eq (by simp [growth, holes])
  | cons p ps ih =>
    have hT : (⟨p :: ps, u⟩ : Parsed α) = Parsed.cons p ⟨ps, u⟩ := rfl
    rw [hT] at h ⊢
    cases p with
    | lit a =>
      rw [holes_cons_lit] at h ⊢
      rw [growth_cons, Piece.growth, Int.zero_add]
      exact ih h
    | hole xs a =>
      rw [holes_cons_hole] at h ⊢
      obtain ⟨hxs, hrest⟩ := List.forall_mem_cons.mp h
      have hgrow := ih hrest
      rw [growth_cons, Piece.growth, List.length_cons, Int.natCast_succ, Int.mul_add]
      omega

theorem Parsed.length_render (mark : α) (value : List α → List α) (T : Parsed α) :
    ((T.render value).length : Int) + (T.unclosed.elim [] (mark :: ·)).length =
      (T.source mark).length + T.growth value := by
  obtain ⟨ps, u⟩ := T
  induction ps with
  | nil => simp [render, source, growth]
  | cons p ps ih =>
    have hp := p.length_render mark value
    have hT : (⟨p :: ps, u⟩ : Parsed α) = Parsed.cons p ⟨ps, u⟩ := rfl
    rw [hT, render_cons, source_cons, growth_cons, List.length_append, List.length_append]
    simp only [Parsed.cons] at ih ⊢
    omega

end

/-! ### Parsing -/

section

variable [DecidableEq α] {mark stop : α}

theorem source_of_parse {m : Mode α} {xs : List α} {T : Parsed α} {rest : List α}
    (h : parse mark stop m xs = some (T, rest)) :
    m.source mark ++ xs = T.source mark ++ stop :: rest := by
  induction xs generalizing m T with
  | nil => cases m <;> cases h
  | cons a as ih =>
    cases m with
    | copy =>
      rw [parse] at h
      split at h
      · rename_i ha
        obtain ⟨rfl, rfl⟩ := Prod.mk.inj (Option.some.inj h)
        rw [ha]
        rfl
      · split at h
        · rename_i ha
          rw [← ih h, ha]
          rfl
        · obtain ⟨⟨T', rest'⟩, hT', hTT'⟩ := Option.map_eq_some_iff.mp h
          obtain ⟨rfl, rfl⟩ := Prod.mk.inj hTT'
          rw [Parsed.source_cons, List.append_assoc, ← ih hT']
          rfl
    | name ns =>
      rw [parse] at h
      split at h
      · rename_i ha
        obtain ⟨rfl, rfl⟩ := Prod.mk.inj (Option.some.inj h)
        rw [ha]
        rfl
      · split at h
        · rename_i ha
          rw [← ih h, ha]
          simp [Mode.source]
        · rw [← ih h]
          simp [Mode.source]
    | next ns =>
      rw [parse] at h
      obtain ⟨⟨T', rest'⟩, hT', hTT'⟩ := Option.map_eq_some_iff.mp h
      obtain ⟨rfl, rfl⟩ := Prod.mk.inj hTT'
      rw [Parsed.source_cons, List.append_assoc, ← ih hT']
      simp [Mode.source, Piece.source]

/-- A text that ends inside a buffer does not depend on what follows the buffer. -/
theorem parse_append {m : Mode α} {xs : List α} {T : Parsed α} {rest : List α}
    (h : parse mark stop m xs = some (T, rest)) (ys : List α) :
    parse mark stop m (xs ++ ys) = some (T, rest ++ ys) := by
  induction xs generalizing m T with
  | nil => cases m <;> cases h
  | cons a as ih =>
    cases m with
    | copy =>
      rw [parse] at h
      rw [List.cons_append, parse]
      split at h
      · rename_i ha
        obtain ⟨rfl, rfl⟩ := Prod.mk.inj (Option.some.inj h)
        rw [if_pos ha]
      · rename_i hstop
        rw [if_neg hstop]
        split at h
        · rename_i hmark
          rw [if_pos hmark, ih h]
        · rename_i hmark
          obtain ⟨⟨T', rest'⟩, hT', hTT'⟩ := Option.map_eq_some_iff.mp h
          obtain ⟨rfl, rfl⟩ := Prod.mk.inj hTT'
          rw [if_neg hmark, ih hT']
          rfl
    | name ns =>
      rw [parse] at h
      rw [List.cons_append, parse]
      split at h
      · rename_i ha
        obtain ⟨rfl, rfl⟩ := Prod.mk.inj (Option.some.inj h)
        rw [if_pos ha]
      · rename_i hstop
        rw [if_neg hstop]
        split at h
        · rename_i hmark
          rw [if_pos hmark, ih h]
        · rename_i hmark
          rw [if_neg hmark, ih h]
    | next ns =>
      rw [parse] at h
      rw [List.cons_append, parse]
      obtain ⟨⟨T', rest'⟩, hT', hTT'⟩ := Option.map_eq_some_iff.mp h
      obtain ⟨rfl, rfl⟩ := Prod.mk.inj hTT'
      rw [ih hT']
      rfl

/-- Without a stop element the text does not end. -/
theorem parse_eq_none {m : Mode α} {xs : List α} (h : stop ∉ xs) : parse mark stop m xs = none := by
  induction xs generalizing m with
  | nil => cases m <;> rfl
  | cons a as ih =>
    have ha : a ≠ stop := (List.ne_of_not_mem_cons h).symm
    have has : stop ∉ as := List.not_mem_of_not_mem_cons h
    cases m <;> simp [parse, ha, ih has]

theorem parse_append_eq_none {m : Mode α} {xs ys : List α} (hxs : parse mark stop m xs = none)
    (hys : stop ∉ ys) : parse mark stop m (xs ++ ys) = none := by
  induction xs generalizing m with
  | nil => exact parse_eq_none hys
  | cons a as ih =>
    cases m with
    | copy =>
      rw [parse] at hxs
      rw [List.cons_append, parse]
      split at hxs
      · cases hxs
      · rename_i hstop
        rw [if_neg hstop]
        split at hxs
        · rename_i hmark
          rw [if_pos hmark, ih hxs]
        · rename_i hmark
          rw [if_neg hmark, ih (Option.map_eq_none_iff.mp hxs)]
          rfl
    | name ns =>
      rw [parse] at hxs
      rw [List.cons_append, parse]
      split at hxs
      · cases hxs
      · rename_i hstop
        rw [if_neg hstop]
        split at hxs
        · rename_i hmark
          rw [if_pos hmark, ih hxs]
        · rename_i hmark
          rw [if_neg hmark, ih hxs]
    | next ns =>
      rw [parse] at hxs
      rw [List.cons_append, parse, ih (Option.map_eq_none_iff.mp hxs)]
      rfl

/-- A piece whose elements are not taken for marks or for the stop. -/
def Piece.Proper (mark stop : α) : Piece α → Prop
  | .lit a => a ≠ stop ∧ a ≠ mark
  | .hole xs _ => stop ∉ xs ∧ mark ∉ xs

instance (mark stop : α) : DecidablePred (Piece.Proper mark stop)
  | .lit a => inferInstanceAs (Decidable (a ≠ stop ∧ a ≠ mark))
  | .hole xs _ => inferInstanceAs (Decidable (stop ∉ xs ∧ mark ∉ xs))

theorem parse_name {xs ys : List α} (hstop : stop ∉ xs) (hmark : mark ∉ xs) (hne : mark ≠ stop)
    (ns : List α) :
    parse mark stop (.name ns) (xs ++ mark :: ys) = parse mark stop (.next (ns ++ xs)) ys := by
  induction xs generalizing ns with
  | nil => rw [List.nil_append, parse, if_neg hne, if_pos rfl, List.append_nil]
  | cons x xs ih =>
    have hx : x ≠ stop := (List.ne_of_not_mem_cons hstop).symm
    have hx' : x ≠ mark := (List.ne_of_not_mem_cons hmark).symm
    rw [List.cons_append, parse, if_neg hx, if_neg hx',
      ih (List.not_mem_of_not_mem_cons hstop) (List.not_mem_of_not_mem_cons hmark),
      List.append_assoc]
    rfl

/-- Parsing a source text gives its pieces back. -/
theorem parse_source {ps : List (Piece α)} (hps : ∀ p ∈ ps, p.Proper mark stop) (hne : mark ≠ stop)
    (rest : List α) : parse mark stop .copy (ps.flatMap (Piece.source mark) ++ stop :: rest) =
      some (⟨ps, none⟩, rest) := by
  induction ps with
  | nil => exact if_pos rfl
  | cons p ps ih =>
    obtain ⟨hp, hps⟩ := List.forall_mem_cons.mp hps
    have ih := ih hps
    rw [List.flatMap_cons, List.append_assoc]
    cases p with
    | lit a =>
      rw [Piece.source, List.cons_append, List.nil_append, parse, if_neg hp.1, if_neg hp.2, ih]
      rfl
    | hole xs a =>
      have hsource : (Piece.hole xs a).source mark ++
          (ps.flatMap (Piece.source mark) ++ stop :: rest) =
            mark :: (xs ++ mark :: (a :: (ps.flatMap (Piece.source mark) ++ stop :: rest))) := by
        simp [Piece.source]
      rw [hsource, parse, if_neg hne, if_pos rfl, parse_name hp.1 hp.2 hne, parse, ih]
      rfl

end

/-! ### Texts as they are meant

Marks only stand around the names of placeholders.  A scanner that copies what is behind a closing
mark reads such a text as it is meant if a character stands behind every placeholder; else it loses
track of the marks, and ends inside a placeholder or behind the text. -/

inductive Token (α : Type*)
  | chr (a : α)
  | par (name : List α)
  deriving DecidableEq, Repr

/-- A character that is no mark or stop, or a placeholder with a name of such characters. -/
def Token.Proper (mark stop : α) : Token α → Prop
  | .chr a => a ≠ stop ∧ a ≠ mark
  | .par name => name ≠ [] ∧ stop ∉ name ∧ mark ∉ name

def Token.source (mark : α) : Token α → List α
  | .chr a => [a]
  | .par name => mark :: name ++ [mark]

/-- What is meant by the text: each placeholder is replaced by its value. -/
def Token.expand (value : List α → List α) : Token α → List α
  | .chr a => [a]
  | .par name => value name

/-- A character stands behind every placeholder. -/
def Followed : List (Token α) → Bool
  | [] => true
  | .chr _ :: ts => Followed ts
  | .par _ :: .chr _ :: ts => Followed ts
  | .par _ :: [] => false
  | .par _ :: .par _ :: _ => false

/-- The names of the placeholders. -/
def names (ts : List (Token α)) : List (List α) :=
  ts.filterMap fun
    | .chr _ => none
    | .par name => some name

/-- The pieces that a scanner reads when a character stands behind every placeholder. -/
def piecesOf : List (Token α) → List (Piece α)
  | [] => []
  | .chr a :: ts => .lit a :: piecesOf ts
  | .par name :: .chr a :: ts => .hole name a :: piecesOf ts
  | .par _ :: ts => piecesOf ts

section Tokens

variable {mark stop : α}

theorem source_piecesOf {ts : List (Token α)} (h : Followed ts = true) :
    (piecesOf ts).flatMap (Piece.source mark) = ts.flatMap (Token.source mark) := by
  fun_induction Followed ts with
  | case1 => rfl
  | case2 a ts ih =>
    rw [piecesOf, List.flatMap_cons, ih h]
    rfl
  | case3 name a ts ih =>
    rw [piecesOf, List.flatMap_cons, ih h]
    simp [Token.source, Piece.source]
  | case4 name => cases h
  | case5 name name' ts => cases h

theorem render_piecesOf {value : List α → List α} {ts : List (Token α)} (h : Followed ts = true) :
    (piecesOf ts).flatMap (Piece.render value) = ts.flatMap (Token.expand value) := by
  fun_induction Followed ts with
  | case1 => rfl
  | case2 a ts ih =>
    rw [piecesOf, List.flatMap_cons, ih h]
    rfl
  | case3 name a ts ih =>
    rw [piecesOf, List.flatMap_cons, ih h]
    simp [Token.expand, Piece.render]
  | case4 name => cases h
  | case5 name name' ts => cases h

theorem holes_piecesOf {ts : List (Token α)} (h : Followed ts = true) :
    (⟨piecesOf ts, none⟩ : Parsed α).holes = names ts := by
  fun_induction Followed ts with
  | case1 => rfl
  | case2 a ts ih => exact ih h
  | case3 name a ts ih => exact congrArg (name :: ·) (ih h)
  | case4 name => cases h
  | case5 name name' ts => cases h

theorem proper_piecesOf {ts : List (Token α)} (hts : ∀ t ∈ ts, t.Proper mark stop)
    (h : Followed ts = true) : ∀ p ∈ piecesOf ts, p.Proper mark stop := by
  fun_induction Followed ts with
  | case1 => exact nofun
  | case2 a ts ih =>
    obtain ⟨ha, hts⟩ := List.forall_mem_cons.mp hts
    exact List.forall_mem_cons.mpr ⟨ha, ih hts h⟩
  | case3 name a ts ih =>
    obtain ⟨hname, hts⟩ := List.forall_mem_cons.mp hts
    obtain ⟨-, hts⟩ := List.forall_mem_cons.mp hts
    exact List.forall_mem_cons.mpr ⟨hname.2, ih hts h⟩
  | case4 name => cases h
  | case5 name name' ts => cases h

variable [DecidableEq α]

theorem parse_followed {ts : List (Token α)} (hts : ∀ t ∈ ts, t.Proper mark stop)
    (h : Followed ts = true) (hne : mark ≠ stop) (rest : List α) :
    parse mark stop .copy (ts.flatMap (Token.source mark) ++ stop :: rest) =
      some (⟨piecesOf ts, none⟩, rest) := by
  rw [← source_piecesOf h]
  exact parse_source (proper_piecesOf hts h) hne rest

/-- Characters in front of a mark are copied. -/
theorem parse_copy_name {xs ys : List α} (hstop : stop ∉ xs) (hmark : mark ∉ xs) :
    parse mark stop .copy (xs ++ ys) =
      (parse mark stop .copy ys).map fun (T, rest) =>
        (⟨xs.map .lit ++ T.pieces, T.unclosed⟩, rest) := by
  induction xs with
  | nil => simp
  | cons x xs ih =>
    have hx : x ≠ stop := (List.ne_of_not_mem_cons hstop).symm
    have hx' : x ≠ mark := (List.ne_of_not_mem_cons hmark).symm
    rw [List.cons_append, parse, if_neg hx, if_neg hx',
      ih (List.not_mem_of_not_mem_cons hstop) (List.not_mem_of_not_mem_cons hmark), Option.map_map]
    rfl

/-- A scanner that takes a closing mark for an opening one is inside a placeholder at the end. -/
theorem parse_shifted {ts : List (Token α)} (hts : ∀ t ∈ ts, t.Proper mark stop)
    (hne : mark ≠ stop) (rest xs : List α) :
    ∃ T, parse mark stop (.name xs) (ts.flatMap (Token.source mark) ++ stop :: rest) =
      some (T, rest) ∧ T.unclosed ≠ none := by
  induction ts generalizing xs with
  | nil => exact ⟨_, if_pos rfl, nofun⟩
  | cons t ts ih =>
    obtain ⟨ht, hrest⟩ := List.forall_mem_cons.mp hts
    cases t with
    | chr a =>
      obtain ⟨T, hT, hopen⟩ := ih hrest (xs ++ [a])
      refine ⟨T, ?_, hopen⟩
      rw [List.flatMap_cons, Token.source, List.singleton_append, List.cons_append, parse,
        if_neg ht.1, if_neg ht.2, hT]
    | par name =>
      obtain ⟨T, hT, hopen⟩ := ih hrest []
      obtain ⟨hname, hstop, hmark⟩ := ht
      cases name with
      | nil => exact absurd rfl hname
      | cons n ns =>
        have hsource : (Token.par (n :: ns) :: ts).flatMap (Token.source mark) ++ stop :: rest =
            mark :: n :: (ns ++ mark :: (ts.flatMap (Token.source mark) ++ stop :: rest)) := by
          simp [Token.source]
        rw [hsource, parse, if_neg hne, if_pos rfl, parse,
          parse_copy_name (List.not_mem_of_not_mem_cons hstop) (List.not_mem_of_not_mem_cons hmark),
          parse, if_neg hne, if_pos rfl, hT]
        exact ⟨_, rfl, hopen⟩

/-- When no character stands behind a placeholder, the text does not end, or the scanner is inside
a placeholder at its end. -/
theorem unclosed_of_not_followed {ts : List (Token α)} (hts : ∀ t ∈ ts, t.Proper mark stop)
    (h : Followed ts = false) (hne : mark ≠ stop) {T : Parsed α} {rest : List α}
    (hparse : parse mark stop .copy (ts.flatMap (Token.source mark) ++ [stop]) = some (T, rest)) :
    T.unclosed ≠ none := by
  fun_induction Followed ts generalizing T rest with
  | case1 => cases h
  | case2 a ts ih =>
    obtain ⟨ha, hts⟩ := List.forall_mem_cons.mp hts
    rw [List.flatMap_cons, Token.source, List.singleton_append, List.cons_append, parse,
      if_neg ha.1, if_neg ha.2] at hparse
    obtain ⟨⟨T', rest'⟩, hT', heq⟩ := Option.map_eq_some_iff.mp hparse
    obtain ⟨rfl, rfl⟩ := Prod.mk.inj heq
    have hopen := ih hts h hT'
    exact hopen
  | case3 name a ts ih =>
    obtain ⟨⟨-, hstop, hmark⟩, hts⟩ := List.forall_mem_cons.mp hts
    obtain ⟨-, hts⟩ := List.forall_mem_cons.mp hts
    have hsource : (Token.par name :: Token.chr a :: ts).flatMap (Token.source mark) ++ [stop] =
        mark :: (name ++ mark :: a :: (ts.flatMap (Token.source mark) ++ [stop])) := by
      simp [Token.source]
    rw [hsource, parse, if_neg hne, if_pos rfl, parse_name hstop hmark hne, parse] at hparse
    obtain ⟨⟨T', rest'⟩, hT', heq⟩ := Option.map_eq_some_iff.mp hparse
    obtain ⟨rfl, rfl⟩ := Prod.mk.inj heq
    have hopen := ih hts h hT'
    exact hopen
  | case4 name =>
    obtain ⟨⟨-, hstop, hmark⟩, -⟩ := List.forall_mem_cons.mp hts
    have hsource : [Token.par name].flatMap (Token.source mark) ++ [stop] =
        mark :: (name ++ mark :: [stop]) := by
      simp [Token.source]
    rw [hsource, parse, if_neg hne, if_pos rfl, parse_name hstop hmark hne] at hparse
    cases hparse
  | case5 name name' ts =>
    obtain ⟨⟨-, hstop, hmark⟩, hts⟩ := List.forall_mem_cons.mp hts
    obtain ⟨⟨-, hstop', hmark'⟩, hts⟩ := List.forall_mem_cons.mp hts
    have hsource : (Token.par name :: Token.par name' :: ts).flatMap (Token.source mark) ++ [stop] =
        mark :: (name ++ mark :: mark :: (name' ++ mark ::
          (ts.flatMap (Token.source mark) ++ [stop]))) := by
      simp [Token.source]
    obtain ⟨S, hS, hopen⟩ := parse_shifted hts hne [] []
    rw [hsource, parse, if_neg hne, if_pos rfl, parse_name hstop hmark hne, parse,
      parse_copy_name hstop' hmark', parse, if_neg hne, if_pos rfl, hS] at hparse
    cases hparse
    exact hopen

end Tokens

/-! ### Reading the values back -/

/-- Values that satisfy `S` are told apart by the element that follows them. -/
def Delimits (S : List α → Prop) (a : α) : Prop :=
  ∀ u u' r r', S u → S u' → u ++ a :: r = u' ++ a :: r' → u = u'

theorem delimits_of_not_mem {S : List α → Prop} {a : α} (h : ∀ u, S u → a ∉ u) : Delimits S a := by
  intro u u' r r' hu hu' heq
  have hlen {u u' r r' : List α} (hu' : a ∉ u') (heq : u ++ a :: r = u' ++ a :: r') :
      u'.length ≤ u.length := by
    by_contra hlt
    have hat := congrArg (·[u.length]?) heq
    simp only [List.getElem?_append_right (Nat.le_refl u.length), Nat.sub_self,
      List.getElem?_cons_zero, List.getElem?_append_left (Nat.lt_of_not_le hlt)] at hat
    exact hu' (List.mem_of_getElem? hat.symm)
  exact (List.append_inj heq (Nat.le_antisymm (hlen (h u hu) heq.symm) (hlen (h u' hu') heq))).1

/-- A text that was filled in with values that are told apart determines them. -/
theorem value_eq_of_render_eq {S : α → List α → Prop} {v v' : List α → List α}
    {ps : List (Piece α)} (hS : ∀ xs a, .hole xs a ∈ ps → Delimits (S a) a)
    (hv : ∀ xs a, .hole xs a ∈ ps → S a (v xs)) (hv' : ∀ xs a, .hole xs a ∈ ps → S a (v' xs))
    (h : ps.flatMap (Piece.render v) = ps.flatMap (Piece.render v')) :
    ∀ xs a, .hole xs a ∈ ps → v xs = v' xs := by
  induction ps with
  | nil => exact nofun
  | cons p ps ih =>
    have htail := ih (fun xs a hmem => hS xs a (List.mem_cons_of_mem _ hmem))
      (fun xs a hmem => hv xs a (List.mem_cons_of_mem _ hmem))
      (fun xs a hmem => hv' xs a (List.mem_cons_of_mem _ hmem))
    rw [List.flatMap_cons, List.flatMap_cons] at h
    cases p with
    | lit b =>
      have htail := htail (List.cons.inj h).2
      intro xs a hmem
      cases hmem with
      | tail _ hmem => exact htail xs a hmem
    | hole ys b =>
      rw [Piece.render, Piece.render, List.append_assoc, List.append_assoc] at h
      have hvalue : v ys = v' ys :=
        hS ys b List.mem_cons_self _ _ _ _ (hv ys b List.mem_cons_self)
          (hv' ys b List.mem_cons_self) h
      rw [hvalue] at h
      have htail := htail (List.cons.inj (List.append_cancel_left h)).2
      intro xs a hmem
      cases hmem with
      | head => exact hvalue
      | tail _ hmem => exact htail xs a hmem

end Template
