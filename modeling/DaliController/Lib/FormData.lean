import Mathlib.Algebra.Ring.Nat
import Mathlib.Data.List.Basic

/-! Form data as a browser sends it: `application/x-www-form-urlencoded`.  A space becomes `+`,
letters, digits and four marks stay, and every other byte becomes `%` and two hexadecimal digits. -/

namespace FormData

/-- A statement about all bytes can be decided. -/
instance (priority := low) decidableForallByte (P : UInt8 → Prop) [DecidablePred P] :
    Decidable (∀ b, P b) :=
  decidable_of_iff (∀ d : Fin 256, P ⟨⟨d⟩⟩) ⟨fun h b => h b.toBitVec.toFin, fun h _ => h _⟩

/-- The bytes that stay as they are. -/
def Plain (b : UInt8) : Prop :=
  0x30 ≤ b ∧ b ≤ 0x39 ∨ 0x41 ≤ b ∧ b ≤ 0x5A ∨ 0x61 ≤ b ∧ b ≤ 0x7A ∨
    b = 0x2A ∨ b = 0x2D ∨ b = 0x2E ∨ b = 0x5F

instance : DecidablePred Plain := fun b =>
  inferInstanceAs (Decidable (0x30 ≤ b ∧ b ≤ 0x39 ∨ 0x41 ≤ b ∧ b ≤ 0x5A ∨ 0x61 ≤ b ∧ b ≤ 0x7A ∨
    b = 0x2A ∨ b = 0x2D ∨ b = 0x2E ∨ b = 0x5F))

def hexDigit (d : UInt8) : UInt8 := if d < 10 then 0x30 + d else 0x41 + (d - 10)

def encodeByte (b : UInt8) : List UInt8 :=
  if b = 0x20 then [0x2B]
  else if Plain b then [b]
  else [0x25, hexDigit (b / 16), hexDigit (b % 16)]

def encode (xs : List UInt8) : List UInt8 := xs.flatMap encodeByte

/-- One control of a form in the body of the request. -/
def pair (field : List UInt8 × List UInt8) : List UInt8 := field.1 ++ 0x3D :: encode field.2

/-- The body of the request. -/
def body (fields : List (List UInt8 × List UInt8)) : List UInt8 :=
  [0x26].intercalate (fields.map pair)

/-! ### Encoding -/

theorem encode_cons (b : UInt8) (xs : List UInt8) : encode (b :: xs) = encodeByte b ++ encode xs :=
  rfl

/-- The bytes that an encoded text consists of. -/
theorem plain_of_mem_encodeByte {a b : UInt8} (h : b ∈ encodeByte a) :
    Plain b ∨ b = 0x2B ∨ b = 0x25 := by
  have hall : ∀ a, (encodeByte a).all fun b => Plain b ∨ b = 0x2B ∨ b = 0x25 := by decide +kernel
  exact of_decide_eq_true (List.all_eq_true.mp (hall a) b h)

theorem plain_of_mem_encode {xs : List UInt8} {b : UInt8} (h : b ∈ encode xs) :
    Plain b ∨ b = 0x2B ∨ b = 0x25 := by
  obtain ⟨a, -, ha⟩ := List.mem_flatMap.mp h
  exact plain_of_mem_encodeByte ha

theorem length_encode (xs : List UInt8) : xs.length ≤ (encode xs).length := by
  induction xs with
  | nil => exact Nat.le_refl 0
  | cons b xs ih =>
    have hpos : 0 < (encodeByte b).length := by
      unfold encodeByte
      split
      · exact Nat.one_pos
      · split
        · exact Nat.one_pos
        · exact Nat.succ_pos 2
    rw [encode_cons, List.length_append, List.length_cons]
    omega

theorem encode_of_plain {xs : List UInt8} (h : ∀ b ∈ xs, Plain b) : encode xs = xs := by
  induction xs with
  | nil => rfl
  | cons b xs ih =>
    have hb : Plain b := h b List.mem_cons_self
    have hspace : b ≠ 0x20 := by
      rintro rfl
      exact absurd hb (by decide)
    rw [encode_cons, encodeByte, if_neg hspace, if_pos hb,
      ih fun a ha => h a (List.mem_cons_of_mem _ ha)]
    rfl

/-- A text is sent as it is exactly if its bytes are plain. -/
theorem encode_eq_self {xs : List UInt8} : encode xs = xs ↔ ∀ b ∈ xs, Plain b := by
  refine ⟨fun h => ?_, encode_of_plain⟩
  induction xs with
  | nil => exact List.forall_mem_nil _
  | cons b xs ih =>
    rw [encode_cons, encodeByte] at h
    split at h
    · rename_i hspace
      rw [hspace] at h
      cases h
    · split at h
      · rename_i hb
        exact List.forall_mem_cons.mpr ⟨hb, ih (List.cons.inj h).2⟩
      · -- The encoded text is longer.
        have hlen := congrArg List.length h
        have hle := length_encode xs
        simp only [List.cons_append, List.nil_append, List.length_cons] at hlen
        omega

theorem ne_of_mem_encode {xs : List UInt8} {a b : UInt8} (h : b ∈ encode xs)
    (ha : ¬(Plain a ∨ a = 0x2B ∨ a = 0x25)) : b ≠ a := by
  rintro rfl
  exact ha (plain_of_mem_encode h)

/-! ### The body of a request -/

/-- The names of the controls have no delimiter in them. -/
def NamesOk (fields : List (List UInt8 × List UInt8)) : Prop :=
  ∀ f ∈ fields, 0x26 ∉ f.1 ∧ 0x3D ∉ f.1

theorem delimiter_not_mem_encode (xs : List UInt8) : 0x26 ∉ encode xs :=
  fun h => ne_of_mem_encode h (by decide) rfl

theorem not_mem_pair {f : List UInt8 × List UInt8} (h : 0x26 ∉ f.1) : 0x26 ∉ pair f := by
  unfold pair
  rw [List.mem_append, List.mem_cons, not_or, not_or]
  exact ⟨h, by decide, delimiter_not_mem_encode f.2⟩

/-- The nonempty pieces between the delimiters are the controls. -/
theorem splitOn_body {fields : List (List UInt8 × List UInt8)} (h : NamesOk fields) :
    ((body fields).splitOn 0x26).filter (!·.isEmpty) = fields.map pair := by
  cases fields with
  | nil => rfl
  | cons f fields =>
    have hno : ∀ l ∈ (f :: fields).map pair, 0x26 ∉ l := by
      intro l hl
      obtain ⟨g, hg, rfl⟩ := List.mem_map.mp hl
      exact not_mem_pair (h g hg).1
    rw [body, List.splitOn_intercalate _ hno (by simp)]
    refine List.filter_eq_self.mpr fun l hl => ?_
    obtain ⟨g, -, rfl⟩ := List.mem_map.mp hl
    simp [pair]

theorem ne_of_mem_name {name : List UInt8} (h : 0x3D ∉ name) :
    ∀ b ∈ name, decide (b ≠ 0x3D) = true :=
  fun _ hb => decide_eq_true fun heq => h (heq ▸ hb)

theorem takeWhile_pair {f : List UInt8 × List UInt8} (h : 0x3D ∉ f.1) :
    (pair f).takeWhile (· ≠ 0x3D) = f.1 := by
  rw [pair, List.takeWhile_append_of_pos (ne_of_mem_name h),
    List.takeWhile_cons_of_neg (by decide), List.append_nil]

theorem dropWhile_pair {f : List UInt8 × List UInt8} (h : 0x3D ∉ f.1) :
    (pair f).dropWhile (· ≠ 0x3D) = 0x3D :: encode f.2 := by
  rw [pair, List.dropWhile_append_of_pos (ne_of_mem_name h),
    List.dropWhile_cons_of_neg (by decide)]

theorem length_pair (f : List UInt8 × List UInt8) :
    (pair f).length = f.1.length + (encode f.2).length + 1 := by
  rw [pair, List.length_append, List.length_cons, Nat.add_assoc]

theorem body_cons_cons (f g : List UInt8 × List UInt8) (fields : List (List UInt8 × List UInt8)) :
    body (f :: g :: fields) = pair f ++ 0x26 :: body (g :: fields) := by
  simp [body]

/-- A body is not longer than its controls with a delimiter behind each. -/
theorem length_body_le (fields : List (List UInt8 × List UInt8)) :
    (body fields).length ≤ (fields.map fun f => (pair f).length + 1).sum := by
  induction fields with
  | nil => exact Nat.le_refl 0
  | cons f fields ih =>
    cases fields with
    | nil => simp [body]
    | cons g fields =>
      rw [body_cons_cons, List.length_append, List.length_cons, List.map_cons, List.sum_cons]
      omega

/-- A byte that browsers encode is in the body only if it is in a name. -/
theorem not_mem_body {fields : List (List UInt8 × List UInt8)} {a : UInt8}
    (ha : ¬(Plain a ∨ a = 0x2B ∨ a = 0x25)) (hmarks : a ≠ 0x26 ∧ a ≠ 0x3D)
    (hnames : ∀ f ∈ fields, a ∉ f.1) : a ∉ body fields := by
  have hpair {f : List UInt8 × List UInt8} (hf : a ∉ f.1) : a ∉ pair f := by
    unfold pair
    rw [List.mem_append, List.mem_cons, not_or, not_or]
    exact ⟨hf, hmarks.2, fun hmem => ne_of_mem_encode hmem ha rfl⟩
  induction fields with
  | nil => exact List.not_mem_nil
  | cons f fields ih =>
    obtain ⟨hf, hfields⟩ := List.forall_mem_cons.mp hnames
    cases fields with
    | nil =>
      rw [body, List.map_singleton, List.intercalate_singleton]
      exact hpair hf
    | cons g fields =>
      rw [body_cons_cons, List.mem_append, List.mem_cons, not_or, not_or]
      exact ⟨hpair hf, hmarks.1, ih hfields⟩

end FormData
