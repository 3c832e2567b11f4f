import Mathlib.Data.List.Basic

/-! Reassembly of a text from blocks of `B` elements.  A buffer that was cleared and into which some
blocks of a text were copied holds the text where a block arrived, and is clear elsewhere. -/

namespace Blocks

variable {α : Type*}

/-- The buffer after copying `xs` to position `pos`. -/
def splice (buf : List α) (pos : Nat) (xs : List α) : List α :=
  buf.take pos ++ xs ++ buf.drop (pos + xs.length)

/-- Block `j` of a text. -/
def block (B : Nat) (text : List α) (j : Nat) : List α := (text.drop (j * B)).take B

theorem length_block (B : Nat) (text : List α) (j : Nat) :
    (block B text j).length = min B (text.length - j * B) := by
  rw [block, List.length_take, List.length_drop]

theorem getElem?_block {B : Nat} (text : List α) (j : Nat) {i : Nat} (hi : i < B) :
    (block B text j)[i]? = text[j * B + i]? := by
  rw [block, List.getElem?_take_of_lt hi, List.getElem?_drop]

theorem length_splice {buf xs : List α} {pos : Nat} (h : pos + xs.length ≤ buf.length) :
    (splice buf pos xs).length = buf.length := by
  simp only [splice, List.length_append, List.length_take, List.length_drop]
  omega

theorem getElem?_splice_of_lt {buf xs : List α} {pos p : Nat} (h : pos + xs.length ≤ buf.length)
    (hp : p < pos) : (splice buf pos xs)[p]? = buf[p]? := by
  rw [splice, List.append_assoc, List.getElem?_append_left (by rw [List.length_take]; omega),
    List.getElem?_take_of_lt hp]

theorem getElem?_splice_of_mem {buf xs : List α} {pos i : Nat} (h : pos + xs.length ≤ buf.length)
    (hi : i < xs.length) : (splice buf pos xs)[pos + i]? = xs[i]? := by
  have htake : (buf.take pos).length = pos := by
    rw [List.length_take]
    omega
  rw [splice, List.append_assoc, List.getElem?_append_right (by omega), htake,
    Nat.add_sub_cancel_left, List.getElem?_append_left hi]

theorem getElem?_splice_of_le {buf xs : List α} {pos p : Nat} (h : pos + xs.length ≤ buf.length)
    (hp : pos + xs.length ≤ p) : (splice buf pos xs)[p]? = buf[p]? := by
  have hlen : (buf.take pos ++ xs).length = pos + xs.length := by
    rw [List.length_append, List.length_take]
    omega
  rw [splice, List.getElem?_append_right (by omega), hlen, List.getElem?_drop]
  congr 1
  omega

/-- The buffer holds the blocks of `text` that are `done`, and `z` elsewhere. -/
structure Filled (B : Nat) (z : α) (text : List α) (size : Nat) (done : Nat → Prop)
    (buf : List α) : Prop where
  size_eq : buf.length = size
  filled : ∀ p < text.length, done (p / B) → buf[p]? = text[p]?
  clear : ∀ p < size, ¬(p < text.length ∧ done (p / B)) → buf[p]? = some z

variable {B size : Nat} {z : α} {text buf : List α} {done : Nat → Prop}

theorem filled_clear : Filled B z text size (fun _ => False) (List.replicate size z) where
  size_eq := List.length_replicate
  filled _ _ h := h.elim
  clear p hp _ := by rw [List.getElem?_replicate, if_pos hp]

theorem Filled.splice (h : Filled B z text size done buf) (hB : 0 < B) (hsize : text.length ≤ size)
    {j : Nat} (hj : j * B < text.length) :
    Filled B z text size (fun i => i = j ∨ done i) (splice buf (j * B) (block B text j)) := by
  have hlen := length_block B text j
  have hfit : j * B + (block B text j).length ≤ buf.length := by
    rw [h.size_eq, hlen]
    omega
  -- A position lies in the block exactly when its quotient is the block's number.
  have hdiv : ∀ p, p / B = j ↔ j * B ≤ p ∧ p < j * B + B := by
    intro p
    rw [Nat.div_eq_iff hB]
    omega
  constructor
  · rw [length_splice hfit, h.size_eq]
  · intro p hp hdone
    by_cases hpj : p / B = j
    · obtain ⟨hle, hlt⟩ := (hdiv p).mp hpj
      obtain ⟨i, rfl⟩ : ∃ i, p = j * B + i := ⟨p - j * B, by omega⟩
      rw [getElem?_splice_of_mem hfit (by omega), getElem?_block text j (by omega)]
    · have hold := h.filled p hp (hdone.resolve_left hpj)
      rw [hdiv] at hpj
      by_cases hlt : p < j * B
      · rw [getElem?_splice_of_lt hfit hlt, hold]
      · rw [getElem?_splice_of_le hfit (by omega), hold]
  · intro p hp hnot
    have hnot' : ¬(p < text.length ∧ done (p / B)) := fun hd => hnot ⟨hd.1, Or.inr hd.2⟩
    have hold := h.clear p hp hnot'
    by_cases hlt : p < j * B
    · rw [getElem?_splice_of_lt hfit hlt, hold]
    · have hend : j * B + (block B text j).length ≤ p := by
        by_contra hin
        exact hnot ⟨by omega, Or.inl ((hdiv p).mpr (by omega))⟩
      rw [getElem?_splice_of_le hfit hend, hold]

theorem Filled.of_iff {done' : Nat → Prop} (h : Filled B z text size done buf)
    (hd : ∀ i, done' i ↔ done i) : Filled B z text size done' buf := by
  rwa [show done' = done from funext fun i => propext (hd i)]

/-- Once all blocks arrived, the buffer is the text followed by clear positions. -/
theorem Filled.eq_append (h : Filled B z text size done buf) (hsize : text.length ≤ size)
    (hdone : ∀ p < text.length, done (p / B)) :
    buf = text ++ List.replicate (size - text.length) z := by
  apply List.ext_getElem?
  intro p
  by_cases hp : p < text.length
  · rw [h.filled p hp (hdone p hp), List.getElem?_append_left hp]
  · rw [List.getElem?_append_right (by omega), List.getElem?_replicate]
    by_cases hps : p < size
    · rw [h.clear p hps (fun hd => hp hd.1), if_pos (by omega)]
    · rw [List.getElem?_eq_none (by rw [h.size_eq]; omega), if_neg (by omega)]

end Blocks
