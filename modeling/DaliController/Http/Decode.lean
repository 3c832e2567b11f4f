import DaliController.Http.Save
import DaliController.Lib.Blocks

/-! `urlDecode` in place.  The string shrinks under the loop index, and its length is taken again in
each round.  What is decoded is what was encoded, whichever bytes the encoder escapes. -/

namespace DaliController.Http

open CString FormData

/-! ### The code -/

/-- `strlen(dStr)`, for a buffer with a NUL in it. -/
def strlen (dStr : List UInt8) : Nat := (cstring dStr).length

/-- `memmove` of the string behind the digits over the digits. -/
def dropHex (dStr : List UInt8) (i : Nat) : List UInt8 :=
  Blocks.splice dStr (i + 1) (cstring (dStr.drop (i + 3)) ++ [0])

/-- The loop of `urlDecode` for so many rounds.  Without a result it needs more of them. -/
def urlDecodeLoop : Nat → Nat → List UInt8 → Option (List UInt8)
  | 0, _, _ => none
  | rounds + 1, i, dStr =>
    if i < strlen dStr then
      if dStr.getD i 0 = 0x25 then
        if dStr.getD (i + 1) 0 = 0 then some dStr
        else if IsXDigit (dStr.getD (i + 1) 0) ∧ IsXDigit (dStr.getD (i + 2) 0) then
          let x := 16 * xDigit (dStr.getD (i + 1) 0) + xDigit (dStr.getD (i + 2) 0)
          urlDecodeLoop rounds (i + 1) ((dropHex dStr i).set i x)
        else urlDecodeLoop rounds (i + 1) dStr
      else if dStr.getD i 0 = 0x2B then urlDecodeLoop rounds (i + 1) (dStr.set i 0x20)
      else urlDecodeLoop rounds (i + 1) dStr
    else some dStr

/-- The string that `urlDecode` returns. -/
def urlDecodeInPlace (str : List UInt8) : Option (List UInt8) :=
  (urlDecodeLoop (str.length + 1) 0 (str ++ [0])).map cstring

/-! ### Encodings of a text -/

/-- `e` is a form encoding of `s`: each byte is written as it is, as `+` or in hexadecimal. -/
inductive Encodes : List UInt8 → List UInt8 → Prop
  | nil : Encodes [] []
  | literal {b : UInt8} {s e : List UInt8} (hb : b ≠ 0x25 ∧ b ≠ 0x2B ∧ b ≠ 0x20)
      (h : Encodes s e) : Encodes (b :: s) (b :: e)
  | space {s e : List UInt8} (h : Encodes s e) : Encodes (0x20 :: s) (0x2B :: e)
  | escape {high low : UInt8} {s e : List UInt8} (hdigits : IsXDigit high ∧ IsXDigit low)
      (h : Encodes s e) :
      Encodes ((16 * xDigit high + xDigit low) :: s) (0x25 :: high :: low :: e)

/-- What a browser sends is one of the encodings. -/
theorem encodes_encode (s : List UInt8) : Encodes s (encode s) := by
  induction s with
  | nil => exact .nil
  | cons b s ih =>
    rw [encode_cons, encodeByte]
    split
    · rename_i hspace
      rw [hspace]
      exact .space ih
    · split
      · rename_i hplain
        refine .literal ⟨?_, ?_, ‹_›⟩ ih
        · rintro rfl
          exact absurd hplain (by decide)
        · rintro rfl
          exact absurd hplain (by decide)
      · obtain ⟨hhigh, hlow, hvalue, -⟩ := hexDigits_spec b
        have hescape := Encodes.escape ⟨hhigh, hlow⟩ ih
        rw [hvalue] at hescape
        exact hescape

/-! ### The loop -/

section Loop

variable {pre rest junk : List UInt8}

theorem getD_at (b : UInt8) : (pre ++ b :: rest ++ 0 :: junk).getD pre.length 0 = b := by
  simp [List.getD_eq_getElem?_getD]

theorem getD_next (b : UInt8) :
    (pre ++ b :: rest ++ 0 :: junk).getD (pre.length + 1) 0 = rest.headD 0 := by
  cases rest <;> simp [List.getD_eq_getElem?_getD]

theorem getD_third (b a : UInt8) :
    (pre ++ b :: a :: rest ++ 0 :: junk).getD (pre.length + 2) 0 = rest.headD 0 := by
  cases rest <;> simp [List.getD_eq_getElem?_getD]

theorem set_at (b x : UInt8) :
    (pre ++ b :: rest ++ 0 :: junk).set pre.length x = pre ++ x :: rest ++ 0 :: junk := by
  simp

theorem cstring_done (hpre : 0 ∉ pre) (hrest : 0 ∉ rest) :
    cstring (pre ++ rest ++ 0 :: junk) = pre ++ rest := by
  have hnul : 0 ∉ pre ++ rest := by
    rw [List.mem_append, not_or]
    exact ⟨hpre, hrest⟩
  rw [cstring_append_nul, cstring_eq_self hnul]

theorem lt_strlen (hpre : 0 ∉ pre) {b : UInt8} (hrest : 0 ∉ b :: rest) :
    pre.length < strlen (pre ++ b :: rest ++ 0 :: junk) := by
  rw [strlen, cstring_done hpre hrest, List.length_append, List.length_cons]
  omega

/-- The bytes behind the digits move up, and some old ones stay behind the end of the string. -/
theorem dropHex_eq (pre junk : List UInt8) (hrest : 0 ∉ rest) (b a c : UInt8) :
    ∃ junk', dropHex (pre ++ b :: a :: c :: rest ++ 0 :: junk) pre.length =
      pre ++ b :: rest ++ 0 :: junk' := by
  have hdrop : (pre ++ b :: a :: c :: rest ++ 0 :: junk).drop (pre.length + 3) =
      rest ++ 0 :: junk := by
    simp
  have htake : (pre ++ b :: a :: c :: rest ++ 0 :: junk).take (pre.length + 1) = pre ++ [b] := by
    rw [List.append_assoc, List.take_length_add_append]
    rfl
  refine ⟨(pre ++ b :: a :: c :: rest ++ 0 :: junk).drop
    (pre.length + 1 + (rest ++ [0]).length), ?_⟩
  rw [dropHex, hdrop, cstring_append_nul, cstring_eq_self hrest, Blocks.splice, htake]
  simp

/-- A percent sign without two digits behind it stays. -/
theorem urlDecode_percent {a : UInt8} (h : ¬(IsXDigit a ∧ IsXDigit (rest.headD 0))) :
    urlDecode (0x25 :: a :: rest) = 0x25 :: urlDecode (a :: rest) := by
  cases rest with
  | nil => rfl
  | cons c rest =>
    rw [List.headD_cons] at h
    rw [urlDecode, if_neg h]

/-- Behind a NUL that was decoded the loop ends. -/
theorem urlDecodeLoop_nul (rounds : Nat) (hpre : 0 ∉ pre) :
    (urlDecodeLoop (rounds + 1) (pre.length + 1) (pre ++ 0 :: rest)).map cstring = some pre := by
  have hstring : cstring (pre ++ 0 :: rest) = pre := by
    rw [cstring_append_nul, cstring_eq_self hpre]
  rw [urlDecodeLoop, strlen, hstring, if_neg (by omega), Option.map_some, hstring]

/-- Decoding in place from the index `pre.length` on, in so many rounds. -/
def Decodes (rounds : Nat) (pre rest : List UInt8) : Prop :=
  ∀ junk, (urlDecodeLoop rounds pre.length (pre ++ rest ++ 0 :: junk)).map cstring =
    some (pre ++ urlDecode rest)

/-- A round leaves the byte `x` at the index, and the loop goes on behind it. -/
theorem Decodes.next {rounds : Nat} {x : UInt8} (h : Decodes rounds (pre ++ [x]) rest)
    (junk : List UInt8) :
    (urlDecodeLoop rounds (pre.length + 1) (pre ++ x :: rest ++ 0 :: junk)).map cstring =
      some (pre ++ x :: urlDecode rest) := by
  have hrest := h junk
  simpa using hrest

variable {rounds : Nat}

theorem decodes_nil (hpre : 0 ∉ pre) : Decodes (rounds + 1) pre [] := by
  intro junk
  have hstring : cstring (pre ++ [] ++ 0 :: junk) = pre ++ [] :=
    cstring_done hpre List.not_mem_nil
  have hlength : strlen (pre ++ [] ++ 0 :: junk) = pre.length := by
    rw [strlen, hstring, List.append_nil]
  rw [urlDecodeLoop, hlength, if_neg (Nat.lt_irrefl _), Option.map_some, hstring]
  rfl

theorem decodes_cons (hpre : 0 ∉ pre) {b : UInt8} (hrest : 0 ∉ b :: rest) (hb : b ≠ 0x25)
    (hnext : Decodes rounds (pre ++ [if b = 0x2B then 0x20 else b]) rest) :
    Decodes (rounds + 1) pre (b :: rest) := by
  intro junk
  rw [urlDecodeLoop, if_pos (lt_strlen hpre hrest), getD_at, if_neg hb, urlDecode_cons hb]
  split at hnext
  · rename_i hplus
    rw [if_pos hplus, if_pos hplus, set_at]
    exact hnext.next junk
  · rename_i hplus
    rw [if_neg hplus, if_neg hplus]
    exact hnext.next junk

theorem decodes_percent_end (hpre : 0 ∉ pre) : Decodes (rounds + 1) pre [0x25] := by
  intro junk
  have hrest : (0 : UInt8) ∉ [0x25] := by decide
  have hend : ([] : List UInt8).headD 0 = 0 := rfl
  rw [urlDecodeLoop, if_pos (lt_strlen hpre hrest), getD_at, if_pos rfl, getD_next, if_pos hend,
    Option.map_some, cstring_done hpre hrest]
  rfl

theorem decodes_percent (hpre : 0 ∉ pre) {a : UInt8} (hrest : 0 ∉ (0x25 : UInt8) :: a :: rest)
    (ha : a ≠ 0) (hdigits : ¬(IsXDigit a ∧ IsXDigit (rest.headD 0)))
    (hnext : Decodes rounds (pre ++ [0x25]) (a :: rest)) :
    Decodes (rounds + 1) pre (0x25 :: a :: rest) := by
  intro junk
  rw [urlDecodeLoop, if_pos (lt_strlen hpre hrest), getD_at, if_pos rfl, getD_next,
    List.headD_cons, if_neg ha, getD_third, if_neg hdigits, urlDecode_percent hdigits]
  exact hnext.next junk

theorem decodes_escape (hpre : 0 ∉ pre) {a c : UInt8}
    (hrest : 0 ∉ (0x25 : UInt8) :: a :: c :: rest) (ha : a ≠ 0)
    (hdigits : IsXDigit a ∧ IsXDigit c)
    (hnext : 16 * xDigit a + xDigit c ≠ 0 →
      Decodes (rounds + 1) (pre ++ [16 * xDigit a + xDigit c]) rest) :
    Decodes (rounds + 2) pre (0x25 :: a :: c :: rest) := by
  intro junk
  have hrest' : 0 ∉ rest := fun hmem => hrest (by simp [hmem])
  obtain ⟨junk', hmove⟩ := dropHex_eq pre junk hrest' 0x25 a c
  rw [urlDecodeLoop, if_pos (lt_strlen hpre hrest), getD_at, if_pos rfl, getD_next,
    List.headD_cons, if_neg ha, getD_third, List.headD_cons, if_pos hdigits]
  simp only [hmove, set_at]
  rw [urlDecode, if_pos hdigits]
  simp only
  split
  · rename_i hnul
    rw [hnul, List.append_nil, List.append_assoc, List.cons_append]
    exact urlDecodeLoop_nul rounds hpre
  · rename_i hne
    exact (hnext hne).next junk'

/-- As many rounds as there are bytes left, and one more, decode them. -/
theorem decodes_rest (rounds : Nat) : ∀ (pre rest : List UInt8), 0 ∉ pre → 0 ∉ rest →
    rest.length < rounds → Decodes rounds pre rest := by
  induction rounds with
  | zero =>
    intro pre rest _ _ hlen
    omega
  | succ rounds ih =>
    intro pre rest hpre hrest hlen
    have hsnoc : ∀ x, x ≠ 0 → 0 ∉ pre ++ [x] := by
      intro x hx
      rw [List.mem_append, not_or, List.mem_singleton]
      exact ⟨hpre, Ne.symm hx⟩
    cases rest with
    | nil => exact decodes_nil hpre
    | cons b rest =>
      have hb : b ≠ 0 := fun h0 => hrest (by simp [h0])
      have htail : 0 ∉ rest := List.not_mem_of_not_mem_cons hrest
      rw [List.length_cons] at hlen
      by_cases hpercent : b = 0x25
      · subst hpercent
        cases rest with
        | nil => exact decodes_percent_end hpre
        | cons a rest =>
          have ha : a ≠ 0 := fun h0 => htail (by simp [h0])
          by_cases hdigits : IsXDigit a ∧ IsXDigit (rest.headD 0)
          · -- The two digits are gone after one round.
            cases rest with
            | nil => exact absurd hdigits.2 (by decide)
            | cons c rest =>
              rw [List.length_cons, List.length_cons] at hlen
              obtain ⟨n, rfl⟩ : ∃ n, rounds = n + 1 := ⟨rounds - 1, by omega⟩
              exact decodes_escape hpre hrest ha hdigits fun hne =>
                ih _ rest (hsnoc _ hne) (fun hmem => htail (by simp [hmem])) (by omega)
          · exact decodes_percent hpre hrest ha hdigits
              (ih _ _ (hsnoc _ (by decide)) htail (by omega))
      · refine decodes_cons hpre hrest hpercent (ih _ rest (hsnoc _ ?_) htail (by omega))
        split
        · decide
        · exact hb

/-- The loop ends, and the string that it leaves is that of `urlDecode`. -/
theorem urlDecodeInPlace_eq {str : List UInt8} (h : 0 ∉ str) :
    urlDecodeInPlace str = some (urlDecode str) :=
  decodes_rest (str.length + 1) [] str List.not_mem_nil h (Nat.lt_succ_self _) []

end Loop

/-! ### Encodings -/

theorem xDigit_ne : ∀ b, IsXDigit b → b ≠ 0 ∧ b ≠ 0x2B := by
  decide +kernel

theorem urlDecode_escape {a c : UInt8} (hdigits : IsXDigit a ∧ IsXDigit c)
    (hne : 16 * xDigit a + xDigit c ≠ 0) (rest : List UInt8) :
    urlDecode (0x25 :: a :: c :: rest) = (16 * xDigit a + xDigit c) :: urlDecode rest := by
  rw [urlDecode, if_pos hdigits]
  exact if_neg hne

theorem Encodes.nul_free {s e : List UInt8} (h : Encodes s e) (hs : 0 ∉ s) : 0 ∉ e := by
  induction h with
  | nil => exact hs
  | literal _ _ ih =>
    rw [List.mem_cons, not_or] at hs ⊢
    exact ⟨hs.1, ih hs.2⟩
  | space _ ih =>
    rw [List.mem_cons, not_or] at hs ⊢
    exact ⟨by decide, ih hs.2⟩
  | escape hdigits _ ih =>
    rw [List.mem_cons, not_or] at hs
    rw [List.mem_cons, List.mem_cons, List.mem_cons, not_or, not_or, not_or]
    exact ⟨by decide, Ne.symm (xDigit_ne _ hdigits.1).1, Ne.symm (xDigit_ne _ hdigits.2).1,
      ih hs.2⟩

/-- A decoded byte is not looked at again. -/
theorem Encodes.urlDecode_eq {s e : List UInt8} (h : Encodes s e) (hs : 0 ∉ s) :
    urlDecode e = s ∧ urlDecode (replacechar e 0x2B 0x20) = s := by
  induction h with
  | nil => exact ⟨rfl, rfl⟩
  | literal hb _ ih =>
    obtain ⟨hplain, hreplaced⟩ := ih (List.not_mem_of_not_mem_cons hs)
    unfold replacechar at hreplaced ⊢
    rw [List.map_cons, if_neg hb.2.1, urlDecode_cons hb.1, urlDecode_cons hb.1, if_neg hb.2.1,
      hplain, hreplaced]
    exact ⟨rfl, rfl⟩
  | space _ ih =>
    obtain ⟨hplain, hreplaced⟩ := ih (List.not_mem_of_not_mem_cons hs)
    unfold replacechar at hreplaced ⊢
    rw [List.map_cons, if_pos rfl, urlDecode_cons (by decide), urlDecode_cons (by decide), hplain,
      hreplaced]
    exact ⟨rfl, rfl⟩
  | escape hdigits _ ih =>
    obtain ⟨hplain, hreplaced⟩ := ih (List.not_mem_of_not_mem_cons hs)
    have hne := List.ne_of_not_mem_cons hs
    unfold replacechar at hreplaced ⊢
    simp only [List.map_cons, if_neg (xDigit_ne _ hdigits.1).2, if_neg (xDigit_ne _ hdigits.2).2]
    rw [if_neg (by decide), urlDecode_escape hdigits (Ne.symm hne),
      urlDecode_escape hdigits (Ne.symm hne), hplain, hreplaced]
    exact ⟨rfl, rfl⟩

/-- Decoding a form encoding of a text gives the text back, whether or not each `+` was made a space
before. -/
theorem urlDecodeInPlace_encodes {s e : List UInt8} (h : Encodes s e) (hs : 0 ∉ s) :
    urlDecodeInPlace e = some s ∧ urlDecodeInPlace (replacechar e 0x2B 0x20) = some s := by
  obtain ⟨hplain, hreplaced⟩ := h.urlDecode_eq hs
  have he := h.nul_free hs
  have hreplace : 0 ∉ replacechar e 0x2B 0x20 := by
    intro hmem
    obtain ⟨b, hb, hzero⟩ := List.mem_map.mp hmem
    split at hzero
    · exact absurd hzero (by decide)
    · exact he (hzero ▸ hb)
  rw [urlDecodeInPlace_eq he, urlDecodeInPlace_eq hreplace, hplain, hreplaced]
  exact ⟨rfl, rfl⟩

/-- The text `%+ 1`, with the percent sign and the plus sign in hexadecimal. -/
theorem encodes_signs : Encodes (text "%+ 1") (text "%25%2b+1") := by
  have hpercent : IsXDigit 0x32 ∧ IsXDigit 0x35 := by decide
  have hplus : IsXDigit 0x32 ∧ IsXDigit 0x62 := by decide
  have hone : (0x31 : UInt8) ≠ 0x25 ∧ (0x31 : UInt8) ≠ 0x2B ∧ (0x31 : UInt8) ≠ 0x20 := by decide
  exact .escape hpercent (.escape hplus (.space (.literal hone .nil)))

theorem urlDecodeInPlace_signs : urlDecodeInPlace (text "%25%2b+1") = some (text "%+ 1") ∧
    urlDecodeInPlace (replacechar (text "%25%2b+1") 0x2B 0x20) = some (text "%+ 1") :=
  urlDecodeInPlace_encodes encodes_signs (by decide)

end DaliController.Http
