import Mathlib.Algebra.Order.Ring.Int
import Mathlib.Data.List.Infix

/-! `socket_send` on a socket that does not block.  `send` may take any part of the bytes, or report
that it would block, and the loop subtracts its result from the bytes that are left in either
case. -/

namespace DaliController.Tcp

/-! ### The code -/

/-- The result of `send`: a number of bytes, or -1 with `EINPROGRESS`, `EAGAIN` or `EWOULDBLOCK` in
`errno`, or with another error. -/
inductive SendResult
  | written (n : Nat)
  | wouldBlock
  | failed
  deriving DecidableEq, Repr

/-- The calls of `send`, each with the position in the data and the size that it is given, the bytes
that it took, and what `socket_send` returned, if it did. -/
structure SendRun where
  calls : List (Int × Int)
  pieces : List (List UInt8)
  returned : Option Int
  deriving DecidableEq, Repr

/-- A `size_t` as an `int`. -/
def sizeToInt (len : Nat) : Int := if len < 2 ^ 31 then len else (len : Int) - 2 ^ 32

/-- The loop of `socket_send`, for as many calls of `send` as there are results. -/
def socketSendLoop (data : List UInt8) : List SendResult → Int → SendRun
  | [], toWrite =>
    if 0 < toWrite then ⟨[(data.length - toWrite, toWrite)], [], none⟩
    else ⟨[], [], some (sizeToInt data.length)⟩
  | r :: rs, toWrite =>
    if 0 < toWrite then
      let call := ((data.length : Int) - toWrite, toWrite)
      match r with
      | .written n =>
        let run := socketSendLoop data rs (toWrite - n)
        ⟨call :: run.calls, (data.drop call.1.toNat).take n :: run.pieces, run.returned⟩
      | .wouldBlock =>
        let run := socketSendLoop data rs (toWrite - -1)
        ⟨call :: run.calls, run.pieces, run.returned⟩
      | .failed => ⟨[call], [], some (-1)⟩
    else ⟨[], [], some (sizeToInt data.length)⟩

def socketSend (data : List UInt8) (rs : List SendResult) : SendRun :=
  socketSendLoop data rs (sizeToInt data.length)

/-! ### What is to hold -/

/-- The results that `send` can have, one for each call: a part of the bytes that it is given, or
that it would block. -/
def Admissible : List SendResult → Int → Prop
  | [], _ => True
  | .written n :: rs, toWrite => 0 < toWrite ∧ 0 < n ∧ n ≤ toWrite ∧ Admissible rs (toWrite - n)
  | .wouldBlock :: rs, toWrite => 0 < toWrite ∧ Admissible rs (toWrite - -1)
  | .failed :: _, _ => False

instance decidableAdmissible : ∀ rs toWrite, Decidable (Admissible rs toWrite)
  | [], _ => inferInstanceAs (Decidable True)
  | .written _ :: rs, toWrite =>
    have := decidableAdmissible rs
    inferInstanceAs (Decidable (0 < toWrite ∧ _ ∧ _ ∧ _))
  | .wouldBlock :: rs, toWrite =>
    have := decidableAdmissible rs
    inferInstanceAs (Decidable (0 < toWrite ∧ _))
  | .failed :: _, _ => inferInstanceAs (Decidable False)

/-- Every call is given bytes of the data, and if `socket_send` returns its length, the bytes that
were taken are the data. -/
structure SentOnce (data : List UInt8) (run : SendRun) : Prop where
  range : ∀ c ∈ run.calls, 0 ≤ c.1 ∧ c.1 + c.2 ≤ data.length
  whole : run.returned = some (data.length : Int) → run.pieces.flatten = data

/-- How many bytes were taken. -/
def taken : List SendResult → Nat
  | [] => 0
  | .written n :: rs => n + taken rs
  | .wouldBlock :: rs | .failed :: rs => taken rs

def blocked (rs : List SendResult) : Nat := rs.count .wouldBlock

/-- No result of a run in which all bytes are taken is that `send` would block, and in any other run
there are never more such results than bytes taken. -/
structure Unblocked (len : Nat) (rs : List SendResult) : Prop where
  behind : ∀ ps, ps <+: rs → blocked ps ≤ taken ps
  finished : taken rs = len + blocked rs → blocked rs = 0

/-! ### Counting -/

@[simp] theorem taken_nil : taken [] = 0 := rfl

@[simp] theorem taken_written (n : Nat) (rs : List SendResult) :
    taken (.written n :: rs) = n + taken rs := rfl

@[simp] theorem taken_wouldBlock (rs : List SendResult) :
    taken (.wouldBlock :: rs) = taken rs := rfl

@[simp] theorem blocked_nil : blocked [] = 0 := rfl

@[simp] theorem blocked_written (n : Nat) (rs : List SendResult) :
    blocked (.written n :: rs) = blocked rs := by
  simp [blocked]

@[simp] theorem blocked_wouldBlock (rs : List SendResult) :
    blocked (.wouldBlock :: rs) = blocked rs + 1 := by
  simp [blocked]

/-! ### The loop -/

section Loop

variable {data : List UInt8}

/-- The loop ends when no bytes are left. -/
theorem socketSendLoop_returned {rs : List SendResult} : ∀ {toWrite : Int}, 0 ≤ toWrite →
    Admissible rs toWrite → (socketSendLoop data rs toWrite).returned =
      if toWrite + blocked rs = taken rs then some (sizeToInt data.length) else none := by
  induction rs with
  | nil =>
    intro toWrite h _
    by_cases hpos : 0 < toWrite
    · rw [socketSendLoop, if_pos hpos, if_neg (by simp; omega)]
    · rw [socketSendLoop, if_neg hpos, if_pos (by simp; omega)]
  | cons r rs ih =>
    intro toWrite h hrs
    cases r with
    | written n =>
      obtain ⟨hpos, -, hle, hrest⟩ := hrs
      have hiff : toWrite - n + blocked rs = taken rs ↔
          toWrite + blocked rs = ((n + taken rs : Nat) : Int) := by
        omega
      rw [socketSendLoop, if_pos hpos, blocked_written, taken_written, ← if_congr hiff rfl rfl]
      exact ih (by omega) hrest
    | wouldBlock =>
      obtain ⟨hpos, hrest⟩ := hrs
      have hiff : toWrite - -1 + blocked rs = taken rs ↔
          toWrite + ((blocked rs + 1 : Nat) : Int) = taken rs := by
        omega
      rw [socketSendLoop, if_pos hpos, blocked_wouldBlock, taken_wouldBlock,
        ← if_congr hiff rfl rfl]
      exact ih (by omega) hrest
    | failed => exact hrs.elim

theorem forall_prefix_cons {P : List SendResult → Prop} {r : SendResult} {rs : List SendResult} :
    (∀ ps, ps <+: r :: rs → P ps) ↔ P [] ∧ ∀ ps, ps <+: rs → P (r :: ps) := by
  constructor
  · intro h
    exact ⟨h [] List.nil_prefix, fun ps hps => h _ (List.cons_prefix_cons.mpr ⟨rfl, hps⟩)⟩
  · rintro ⟨hnil, hcons⟩ ps hps
    rcases List.prefix_cons_iff.mp hps with rfl | ⟨qs, rfl, hqs⟩
    · exact hnil
    · exact hcons qs hqs

/-- A position and a size that lie in the data. -/
def InRange (data : List UInt8) (c : Int × Int) : Prop := 0 ≤ c.1 ∧ c.1 + c.2 ≤ data.length

theorem inRange_call (toWrite : Int) :
    InRange data ((data.length : Int) - toWrite, toWrite) ↔ toWrite ≤ data.length := by
  unfold InRange
  omega

/-- Each call is given all bytes up to the end, from a position that moves back when `send` would
block. -/
theorem socketSendLoop_range_iff {rs : List SendResult} : ∀ {toWrite : Int}, 0 ≤ toWrite →
    Admissible rs toWrite →
    ((∀ c ∈ (socketSendLoop data rs toWrite).calls, InRange data c) ↔
      ∀ ps, ps <+: rs → toWrite + blocked ps ≤ data.length + taken ps) := by
  induction rs with
  | nil =>
    intro toWrite h _
    have hnil : (∀ ps, ps <+: [] → toWrite + blocked ps ≤ data.length + taken ps) ↔
        toWrite ≤ data.length := by
      simp
    rw [hnil]
    by_cases hpos : 0 < toWrite
    · rw [socketSendLoop, if_pos hpos, List.forall_mem_singleton, inRange_call]
    · rw [socketSendLoop, if_neg hpos]
      exact iff_of_true (List.forall_mem_nil _) (by omega)
  | cons r rs ih =>
    intro toWrite h hrs
    rw [forall_prefix_cons]
    cases r with
    | written n =>
      obtain ⟨hpos, -, hle, hrest⟩ := hrs
      rw [socketSendLoop, if_pos hpos, List.forall_mem_cons, inRange_call, ih (by omega) hrest]
      simp only [blocked_written, taken_written, blocked_nil, taken_nil]
      refine and_congr (by omega) (forall₂_congr fun ps _ => by omega)
    | wouldBlock =>
      obtain ⟨hpos, hrest⟩ := hrs
      rw [socketSendLoop, if_pos hpos, List.forall_mem_cons, inRange_call, ih (by omega) hrest]
      simp only [blocked_wouldBlock, taken_wouldBlock, blocked_nil, taken_nil]
      refine and_congr (by omega) (forall₂_congr fun ps _ => by omega)
    | failed => exact hrs.elim

/-- While the calls are in range, as many bytes are taken as the results say. -/
theorem socketSendLoop_length {rs : List SendResult} : ∀ {toWrite : Int}, 0 ≤ toWrite →
    Admissible rs toWrite → (∀ c ∈ (socketSendLoop data rs toWrite).calls, InRange data c) →
    (socketSendLoop data rs toWrite).pieces.flatten.length = taken rs := by
  induction rs with
  | nil =>
    intro toWrite h _ _
    rw [socketSendLoop]
    split <;> rfl
  | cons r rs ih =>
    intro toWrite h hrs hrange
    cases r with
    | written n =>
      obtain ⟨hpos, -, hle, hrest⟩ := hrs
      rw [socketSendLoop, if_pos hpos, List.forall_mem_cons, inRange_call] at hrange
      have hpiece : ((data.drop ((data.length : Int) - toWrite).toNat).take n).length = n := by
        rw [List.length_take, List.length_drop]
        omega
      rw [socketSendLoop, if_pos hpos, List.flatten_cons, List.length_append, hpiece,
        ih (by omega) hrest hrange.2, taken_written]
    | wouldBlock =>
      obtain ⟨hpos, hrest⟩ := hrs
      rw [socketSendLoop, if_pos hpos, List.forall_mem_cons] at hrange
      rw [socketSendLoop, if_pos hpos, taken_wouldBlock]
      exact ih (by omega) hrest hrange.2
    | failed => exact hrs.elim

/-- Without a result that `send` would block, the bytes are taken in order. -/
theorem socketSendLoop_pieces {rs : List SendResult} : ∀ {toWrite : Int}, 0 ≤ toWrite →
    toWrite ≤ data.length → Admissible rs toWrite → blocked rs = 0 →
    (socketSendLoop data rs toWrite).pieces.flatten =
      (data.drop ((data.length : Int) - toWrite).toNat).take (taken rs) := by
  induction rs with
  | nil =>
    intro toWrite _ _ _ _
    rw [socketSendLoop]
    split <;> rfl
  | cons r rs ih =>
    intro toWrite h hlen hrs hblocked
    cases r with
    | written n =>
      obtain ⟨hpos, -, hle, hrest⟩ := hrs
      rw [blocked_written] at hblocked
      have hoffset : ((data.length : Int) - (toWrite - n)).toNat =
          ((data.length : Int) - toWrite).toNat + n := by
        omega
      rw [socketSendLoop, if_pos hpos, List.flatten_cons, ih (by omega) (by omega) hrest hblocked,
        hoffset, taken_written, List.take_add, List.drop_drop]
    | wouldBlock =>
      rw [blocked_wouldBlock] at hblocked
      omega
    | failed => exact hrs.elim

end Loop

/-- A length that an `int` holds. -/
theorem socketSendLoop_once_iff {data : List UInt8} {rs : List SendResult}
    (hlen : sizeToInt data.length = data.length) (hrs : Admissible rs data.length) :
    SentOnce data (socketSendLoop data rs data.length) ↔ Unblocked data.length rs := by
  have hpos : (0 : Int) ≤ data.length := Int.natCast_nonneg _
  have hbehind : (∀ ps, ps <+: rs →
      (data.length : Int) + blocked ps ≤ data.length + taken ps) ↔
      ∀ ps, ps <+: rs → blocked ps ≤ taken ps :=
    forall₂_congr fun ps _ => by omega
  have hrange := (socketSendLoop_range_iff hpos hrs).trans hbehind
  have hreturned : (socketSendLoop data rs data.length).returned = some (data.length : Int) ↔
      taken rs = data.length + blocked rs := by
    rw [socketSendLoop_returned hpos hrs, hlen]
    constructor
    · intro h
      split at h
      · omega
      · cases h
    · intro h
      rw [if_pos (by omega)]
  constructor
  · intro h
    refine ⟨hrange.mp h.range, fun hfinished => ?_⟩
    have htaken := socketSendLoop_length hpos hrs h.range
    rw [h.whole (hreturned.mpr hfinished)] at htaken
    omega
  · intro h
    refine ⟨hrange.mpr h.behind, fun hfinished => ?_⟩
    have htaken := hreturned.mp hfinished
    have hblocked := h.finished htaken
    rw [hblocked, Nat.add_zero] at htaken
    rw [socketSendLoop_pieces hpos (Int.le_refl _) hrs hblocked, htaken]
    simp

/-- For every text and all results of `send`, `socket_send` stays in the data and sends each byte
once if and only if `send` never reports that it would block in a run that returns, and not more
often than bytes were taken in one that does not. -/
theorem socketSend_once_iff {data : List UInt8} {rs : List SendResult}
    (hlen : data.length < 2 ^ 32) (hrs : Admissible rs (sizeToInt data.length)) :
    SentOnce data (socketSend data rs) ↔ Unblocked data.length rs := by
  by_cases hsmall : data.length < 2 ^ 31
  · have hsize : sizeToInt data.length = data.length := if_pos hsmall
    rw [hsize] at hrs
    rw [socketSend, hsize]
    exact socketSendLoop_once_iff hsize hrs
  · -- The loop is not entered.
    have hsize : sizeToInt data.length = (data.length : Int) - 2 ^ 32 := if_neg hsmall
    have hneg : ¬0 < sizeToInt data.length := by omega
    cases rs with
    | nil =>
      refine iff_of_true ⟨?_, ?_⟩ ⟨?_, fun _ => rfl⟩
      · rw [socketSend, socketSendLoop, if_neg hneg]
        exact List.forall_mem_nil _
      · rw [socketSend, socketSendLoop, if_neg hneg]
        intro h
        have hreturned := Option.some.inj h
        omega
      · intro ps hps
        rw [List.prefix_nil.mp hps]
        exact Nat.le_refl 0
    | cons r rs =>
      cases r with
      | written n => exact absurd hrs.1 hneg
      | wouldBlock => exact absurd hrs.1 hneg
      | failed => exact hrs.elim

/-- Two bytes are taken, and then the third one. -/
theorem socketSend_once_two : SentOnce [1, 2, 3] (socketSend [1, 2, 3] [.written 2, .written 1]) :=
  (socketSend_once_iff (by decide) (by decide)).mpr
    ⟨by
      have hinits : ∀ ps ∈ ([.written 2, .written 1] : List SendResult).inits,
          blocked ps ≤ taken ps := by
        decide
      exact fun ps hps => hinits ps ((List.mem_inits ps _).mpr hps), fun _ => rfl⟩

/-- After one byte of two `send` would block once, and the byte is sent again. -/
theorem socketSend_twice : ¬SentOnce [1, 2]
    (socketSend [1, 2] [.written 1, .wouldBlock, .written 1, .written 1]) := by
  intro h
  have hwhole := h.whole
  revert hwhole
  decide

end DaliController.Tcp
