import DaliController.Lib.Blocks

/-! A file of records of one size, as `fseek` with `fwrite` and `fread` treats it.  The file system
is assumed to fill gaps: after a write behind the end of the file, blanks stand between the two, as
POSIX asks.  Reading there leaves the buffer as it was. -/

namespace RecordFile

variable {α : Type*}

/-- `fread` at a position. -/
def readAt (file : List α) (pos : Nat) (buf : List α) : List α :=
  let got := (file.drop pos).take buf.length
  got ++ buf.drop got.length

theorem length_readAt (file : List α) (pos : Nat) (buf : List α) :
    (readAt file pos buf).length = buf.length := by
  simp only [readAt, List.length_append, List.length_take, List.length_drop]
  omega

variable (blank : α)

/-- `fwrite` at a position, on a file system that fills gaps. -/
def writeAt (file : List α) (pos : Nat) (xs : List α) : List α :=
  Blocks.splice (file ++ List.replicate (pos + xs.length - file.length) blank) pos xs

/-- What a read into a cleared buffer finds at a position. -/
def elemAt (file : List α) (p : Nat) : α := file[p]?.getD blank

/-- Reading into a cleared buffer. -/
theorem readAt_clear (file : List α) (pos n : Nat) :
    readAt file pos (List.replicate n blank) =
      (List.range n).map fun i => elemAt blank file (pos + i) := by
  have hgot : ((file.drop pos).take n).length = min n (file.length - pos) := by
    rw [List.length_take, List.length_drop]
  apply List.ext_getElem?
  intro i
  by_cases hi : i < n
  · have hright : ((List.range n).map fun i => elemAt blank file (pos + i))[i]? =
        some (elemAt blank file (pos + i)) := by
      simp [hi]
    rw [hright, readAt, List.length_replicate]
    by_cases hfile : pos + i < file.length
    · rw [List.getElem?_append_left (by omega), List.getElem?_take_of_lt hi, List.getElem?_drop,
        elemAt, List.getElem?_eq_getElem hfile, Option.getD_some]
    · have hnone : file[pos + i]? = none := List.getElem?_eq_none (by omega)
      rw [List.getElem?_append_right (by omega), elemAt, hnone, Option.getD_none,
        List.getElem?_drop, List.getElem?_replicate, if_pos (by omega)]
  · rw [List.getElem?_eq_none (by rw [length_readAt]; simpa using hi),
      List.getElem?_eq_none (by simpa using hi)]

theorem elemAt_append_clear (file : List α) (k p : Nat) :
    elemAt blank (file ++ List.replicate k blank) p = elemAt blank file p := by
  unfold elemAt
  by_cases hp : p < file.length
  · rw [List.getElem?_append_left hp]
  · have hnone : file[p]? = none := List.getElem?_eq_none (by omega)
    rw [List.getElem?_append_right (by omega), hnone, List.getElem?_replicate]
    split <;> rfl

section Write

variable (file xs : List α) (pos : Nat)

theorem fits : pos + xs.length ≤
    (file ++ List.replicate (pos + xs.length - file.length) blank).length := by
  rw [List.length_append, List.length_replicate]
  omega

theorem elemAt_writeAt_of_mem {i : Nat} (hi : i < xs.length) :
    elemAt blank (writeAt blank file pos xs) (pos + i) = elemAt blank xs i := by
  rw [elemAt, writeAt, Blocks.getElem?_splice_of_mem (fits blank file xs pos) hi, elemAt]

theorem elemAt_writeAt_of_not_mem {p : Nat} (hp : p < pos ∨ pos + xs.length ≤ p) :
    elemAt blank (writeAt blank file pos xs) p = elemAt blank file p := by
  rw [← elemAt_append_clear blank file (pos + xs.length - file.length), elemAt, elemAt, writeAt]
  rcases hp with hp | hp
  · rw [Blocks.getElem?_splice_of_lt (fits blank file xs pos) hp]
  · rw [Blocks.getElem?_splice_of_le (fits blank file xs pos) hp]

/-- Reading what was written. -/
theorem readAt_writeAt_self :
    readAt (writeAt blank file pos xs) pos (List.replicate xs.length blank) = xs := by
  rw [readAt_clear]
  apply List.ext_getElem
  · simp
  · intro i hi hi'
    rw [List.getElem_map, List.getElem_range, elemAt_writeAt_of_mem blank file xs pos hi', elemAt,
      List.getElem?_eq_getElem hi', Option.getD_some]

/-- A write leaves what it does not overlap. -/
theorem readAt_writeAt_of_disjoint {pos' n : Nat} (h : pos' + n ≤ pos ∨ pos + xs.length ≤ pos') :
    readAt (writeAt blank file pos xs) pos' (List.replicate n blank) =
      readAt file pos' (List.replicate n blank) := by
  rw [readAt_clear, readAt_clear]
  refine List.map_congr_left fun i hi => ?_
  rw [List.mem_range] at hi
  exact elemAt_writeAt_of_not_mem blank file xs pos (by omega)

end Write

/-! ### Records -/

section Record

variable (size : Nat)

/-- Record `i`, read into a cleared buffer. -/
def record (file : List α) (i : Nat) : List α := readAt file (i * size) (List.replicate size blank)

def setRecord (file : List α) (i : Nat) (xs : List α) : List α :=
  writeAt blank file (i * size) xs

variable {size}

theorem record_setRecord_self (file : List α) (i : Nat) {xs : List α} (hxs : xs.length = size) :
    record blank size (setRecord blank size file i xs) i = xs := by
  subst hxs
  exact readAt_writeAt_self blank file xs _

theorem record_setRecord_of_ne (file : List α) {i j : Nat} (hij : j ≠ i) {xs : List α}
    (hxs : xs.length = size) :
    record blank size (setRecord blank size file i xs) j = record blank size file j := by
  subst hxs
  apply readAt_writeAt_of_disjoint blank file xs _
  rcases Nat.lt_or_gt_of_ne hij with h | h
  · left
    have hmul := Nat.mul_le_mul_right xs.length (show j + 1 ≤ i by omega)
    rwa [Nat.add_mul, Nat.one_mul] at hmul
  · right
    have hmul := Nat.mul_le_mul_right xs.length (show i + 1 ≤ j by omega)
    rwa [Nat.add_mul, Nat.one_mul] at hmul

end Record

end RecordFile
