import Mathlib.Data.List.Basic

/-! Manchester code on a two-level line.  A bit is two half-bits, the second at the level of the bit
and the first at the other level, so the middle of every bit is an edge.  A wave is its list of
half-bit levels, `edges` is what an edge detector sees of it, and `decode` counts half-bits from the
intervals between edges and samples the line at even counts. -/

namespace Manchester

/-- The half-bit levels of one bit. -/
def halves (b : Bool) : List Bool := [!b, b]

/-- The half-bit levels of a bit string. -/
def wave (bits : List Bool) : List Bool := bits.flatMap halves

@[simp] theorem wave_nil : wave [] = [] := rfl

@[simp] theorem wave_cons (b : Bool) (bs : List Bool) : wave (b :: bs) = halves b ++ wave bs := rfl

theorem wave_append (as bs : List Bool) : wave (as ++ bs) = wave as ++ wave bs := by
  simp [wave]

/-- The edges of a wave on a line at `level` since `k` half-bits: the level after each edge, with
the number of half-bits since the edge before it. -/
def edges : Bool → Nat → List Bool → List (Bool × Nat)
  | _, _, [] => []
  | level, k, h :: hs => if h = level then edges level (k + 1) hs else (h, k) :: edges h 1 hs

/-- The edges of one bit on a line that has been at `level` for one half-bit. -/
def bitEdges (level b : Bool) : List (Bool × Nat) :=
  if b = level then [(!b, 1), (b, 1)] else [(b, 2)]

/-- A bit leaves the line at its own level for one half-bit. -/
theorem edges_halves (level b : Bool) (hs : List Bool) :
    edges level 1 (halves b ++ hs) = bitEdges level b ++ edges b 1 hs := by
  cases level <;> cases b <;> simp [edges, halves, bitEdges]

/-- The edge into a high stop condition, which is there exactly when the line was low. -/
theorem edges_stop (level : Bool) (k : Nat) :
    edges level k [true] = if level then [] else [(true, k)] := by
  cases level <;> simp [edges]

/-- The bits in `bits`, with the half-bits counted so far: an edge adds its interval, and an even
count is the middle of a bit. -/
def decode (count : Nat) (bits : List Bool) : List (Bool × Nat) → Nat × List Bool
  | [] => (count, bits)
  | (level, k) :: es =>
    decode (count + k) (if (count + k) % 2 = 0 then bits ++ [level] else bits) es

theorem decode_append (count : Nat) (bits : List Bool) (es fs : List (Bool × Nat)) :
    decode count bits (es ++ fs) = decode (decode count bits es).1 (decode count bits es).2 fs := by
  induction es generalizing count bits with
  | nil => rfl
  | cons e es ih => obtain ⟨level, k⟩ := e; simp only [List.cons_append, decode, ih]

/-- From an even count, the edges of one bit add two half-bits and that bit. -/
theorem decode_bitEdges (level b : Bool) {count : Nat} (bits : List Bool) (hc : count % 2 = 0) :
    decode count bits (bitEdges level b) = (count + 2, bits ++ [b]) := by
  by_cases h : b = level
  · simp only [bitEdges, h, ite_true, decode, show (count + 1) % 2 = 1 by omega,
      show (count + 1 + 1) % 2 = 0 by omega]
    simp
  · simp only [bitEdges, h, ite_false, decode, show (count + 2) % 2 = 0 by omega, ite_true]

/-- The line level that a bit string leaves behind. -/
def lastLevel (level : Bool) (bits : List Bool) : Bool := bits.getLastD level

theorem lastLevel_cons (level b : Bool) (bs : List Bool) :
    lastLevel level (b :: bs) = lastLevel b bs := by
  cases bs <;> simp [lastLevel, List.getLastD]

/-- Decoding the edges of a bit string and a high stop condition gives back the bit string.  The
count is twice its length, or one more when the last bit leaves the line low. -/
theorem decode_edges (level : Bool) (bs : List Bool) {count : Nat} (bits : List Bool)
    (hc : count % 2 = 0) :
    decode count bits (edges level 1 (wave bs ++ [true])) =
      (count + 2 * bs.length + (if lastLevel level bs then 0 else 1), bits ++ bs) := by
  induction bs generalizing level count bits with
  | nil =>
    rw [wave_nil, List.nil_append, edges_stop]
    cases level
    · simp [decode, lastLevel, show (count + 1) % 2 = 1 by omega]
    · simp [decode, lastLevel]
  | cons b bs ih =>
    rw [wave_cons, List.append_assoc, edges_halves, decode_append, decode_bitEdges level b bits hc,
      ih b (bits ++ [b]) (by omega), lastLevel_cons]
    simp only [List.length_cons, List.append_assoc, List.singleton_append, Prod.mk.injEq, and_true]
    omega

/-- Between edges of a bit string there is one half-bit or two. -/
theorem interval_edges {level : Bool} {bs : List Bool} {e : Bool × Nat}
    (he : e ∈ edges level 1 (wave bs ++ [true])) : e.2 = 1 ∨ e.2 = 2 := by
  induction bs generalizing level with
  | nil =>
    rw [wave_nil, List.nil_append, edges_stop] at he
    cases level <;> simp_all
  | cons b bs ih =>
    rw [wave_cons, List.append_assoc, edges_halves, List.mem_append] at he
    rcases he with he | he
    · unfold bitEdges at he
      split at he <;> simp at he
      · rcases he with rfl | rfl <;> simp
      · simp [he]
    · exact ih he

end Manchester
