import DaliController.Http.FindReplace

/-! `rest_common_get_handler` serves a file through the scratch buffer.  It reads a piece of the
file to the start of the buffer, fills in the parameters of the text that the buffer holds then, and
sends as many bytes as it has read, corrected by the change of length. -/

namespace DaliController.Http

open CString Template

/-! ### The code -/

/-- A buffer after writing `xs` to its start. -/
def overlay (xs buf : List UInt8) : List UInt8 := xs ++ buf.drop xs.length

/-- `esp_http_server`, which is not part of this repository: the bytes that `httpd_resp_send_chunk`
sends of a buffer, and `none` when it reads behind the buffer.  The length -1 stands for the length
of the string. -/
class HttpServer where
  httpdRespSendChunk : List UInt8 → Int → Option (List UInt8)
  send_strlen : ∀ buf, httpdRespSendChunk buf (-1) = some (cstring buf)
  send_within : ∀ (buf : List UInt8) (bufLen : Int), 0 ≤ bufLen → bufLen ≤ buf.length →
    httpdRespSendChunk buf bufLen = some (buf.take bufLen.toNat)
  send_outside : ∀ (buf : List UInt8) (bufLen : Int), bufLen ≠ -1 →
    ¬(0 ≤ bufLen ∧ bufLen ≤ buf.length) → httpdRespSendChunk buf bufLen = none

export HttpServer (httpdRespSendChunk)

section Code

variable [HttpServer]

/-- The loop of `rest_common_get_handler`, on the rest of the file: the chunks that it sends, and
the scratch buffer after it. -/
def getLoop (c : Config) (chunk file : List UInt8) : Option (List (List UInt8) × List UInt8) :=
  let piece := file.take scratchBufsize
  if _hpiece : piece = [] then some ([], chunk)
  else do
    let chunk := overlay piece chunk
    let (tmp, delta) ← findReplace c chunk
    let readBytes := (piece.length : Int) + delta
    let chunk := overlay (cstring tmp ++ [0]) chunk
    let sent ← httpdRespSendChunk chunk readBytes
    if 0 < readBytes then
      (getLoop c chunk (file.drop scratchBufsize)).map fun (chunks, chunk) =>
        (sent :: chunks, chunk)
    else some ([sent], chunk)
termination_by file.length
decreasing_by
  have hpos : 0 < file.length := List.length_pos_iff.mpr fun h => _hpiece (by simp [piece, h])
  rw [List.length_drop]
  exact Nat.sub_lt hpos (by decide)

/-- `rest_common_get_handler`, with the empty chunk at the end of the response. -/
def restCommonGetHandler (c : Config) (scratch file : List UInt8) :
    Option (List (List UInt8) × List UInt8) :=
  (getLoop c scratch file).map fun (chunks, scratch) => (chunks ++ [[]], scratch)

end Code

/-! ### One piece -/

theorem length_overlay {xs buf : List UInt8} (h : xs.length ≤ buf.length) :
    (overlay xs buf).length = buf.length := by
  rw [overlay, List.length_append, List.length_drop]
  omega

theorem overlay_append {xs buf : List UInt8} (h : xs.length ≤ buf.length) (ys : List UInt8) :
    overlay xs (buf ++ ys) = overlay xs buf ++ ys := by
  rw [overlay, overlay, List.drop_append_of_le_length h, List.append_assoc]

theorem overlay_of_length_le {xs buf : List UInt8} (h : buf.length ≤ xs.length) :
    overlay xs buf = xs := by
  rw [overlay, List.drop_eq_nil_of_le h, List.append_nil]

/-- The buffer holds a page whose parameters fit, and after `n` bytes were read the length of the
response is the length of something in the buffer. -/
structure Sendable (c : Config) (n : Nat) (buf : List UInt8) (T : Parsed UInt8)
    (rest : List UInt8) : Prop where
  parsed : parse 0x26 0 .copy buf = some (T, rest)
  fits : ∀ name ∈ T.holes, Fits c name
  room : (T.render (shown c)).length < scratchBufsize
  sent_pos : -1 ≤ n + T.growth (shown c)
  sent_le : n + T.growth (shown c) ≤ buf.length

/-- The scratch buffer after a piece was filled in. -/
def filledBuffer (c : Config) (T : Parsed UInt8) (buf : List UInt8) : List UInt8 :=
  overlay (cstring (T.render (shown c)) ++ [0]) buf

/-- The bytes that are sent of a buffer after `n` bytes were read. -/
def sentBytes (c : Config) (n : Nat) (T : Parsed UInt8) (buf : List UInt8) : List UInt8 :=
  if n + T.growth (shown c) = -1 then cstring (filledBuffer c T buf)
  else (filledBuffer c T buf).take (n + T.growth (shown c)).toNat

section Piece

variable {c : Config} {buf : List UInt8} {n : Nat} {T : Parsed UInt8} {rest : List UInt8}

theorem length_render_of_parse (h : parse 0x26 0 .copy buf = some (T, rest)) :
    ((T.render (shown c)).length : Int) + (T.unclosed.elim [] (0x26 :: ·)).length +
      rest.length + 1 = buf.length + T.growth (shown c) := by
  have hsource := congrArg List.length (source_of_parse h)
  have hrender := T.length_render 0x26 (shown c)
  simp only [Mode.source, List.nil_append, List.length_append, List.length_cons] at hsource
  omega

theorem length_filledBuffer (hsize : buf.length = scratchBufsize)
    (hroom : (T.render (shown c)).length < scratchBufsize) :
    (filledBuffer c T buf).length = buf.length := by
  have hle : (cstring (T.render (shown c))).length ≤ (T.render (shown c)).length :=
    (List.takeWhile_prefix _).length_le
  apply length_overlay
  rw [List.length_append, List.length_singleton]
  omega

variable [HttpServer]

theorem httpdRespSendChunk_filled (hsize : buf.length = scratchBufsize)
    (h : Sendable c n buf T rest) :
    httpdRespSendChunk (filledBuffer c T buf) (n + T.growth (shown c)) =
      some (sentBytes c n T buf) := by
  have hlen := length_filledBuffer hsize h.room
  have hpos := h.sent_pos
  have hle := h.sent_le
  unfold sentBytes
  split
  · rename_i hstrlen
    rw [hstrlen, HttpServer.send_strlen]
  · exact HttpServer.send_within _ _ (by omega) (by omega)

theorem sendable_of_httpdRespSendChunk {sent : List UInt8} (hsize : buf.length = scratchBufsize)
    (hparse : parse 0x26 0 .copy buf = some (T, rest)) (hfits : ∀ name ∈ T.holes, Fits c name)
    (hroom : (T.render (shown c)).length < scratchBufsize)
    (h : httpdRespSendChunk (filledBuffer c T buf) (n + T.growth (shown c)) = some sent) :
    Sendable c n buf T rest := by
  have hlen := length_filledBuffer hsize hroom
  by_cases hstrlen : n + T.growth (shown c) = -1
  · exact ⟨hparse, hfits, hroom, by omega, by omega⟩
  · by_cases hwithin : 0 ≤ n + T.growth (shown c) ∧
        n + T.growth (shown c) ≤ (filledBuffer c T buf).length
    · exact ⟨hparse, hfits, hroom, by omega, by omega⟩
    · rw [HttpServer.send_outside _ _ hstrlen hwithin] at h
      cases h

end Piece

/-! ### One iteration -/

/-- The buffer with the next piece of the file in it. -/
def readInto (chunk file : List UInt8) : List UInt8 := overlay (file.take scratchBufsize) chunk

section Iteration

variable {c : Config} {chunk file : List UInt8}

theorem length_readInto (hsize : chunk.length = scratchBufsize) (file : List UInt8) :
    (readInto chunk file).length = scratchBufsize := by
  rw [readInto, length_overlay, hsize]
  rw [List.length_take, hsize]
  exact Nat.min_le_left _ _

variable [HttpServer]

theorem getLoop_nil (c : Config) (chunk : List UInt8) : getLoop c chunk [] = some ([], chunk) := by
  rw [getLoop]
  rfl

theorem getLoop_of_ne_nil (c : Config) (chunk : List UInt8) (h : file ≠ []) :
    getLoop c chunk file = (do
      let (tmp, delta) ← findReplace c (readInto chunk file)
      let readBytes := ((file.take scratchBufsize).length : Int) + delta
      let sent ← httpdRespSendChunk (overlay (cstring tmp ++ [0]) (readInto chunk file)) readBytes
      if 0 < readBytes then
        (getLoop c (overlay (cstring tmp ++ [0]) (readInto chunk file))
          (file.drop scratchBufsize)).map fun (chunks, chunk) => (sent :: chunks, chunk)
      else some ([sent], overlay (cstring tmp ++ [0]) (readInto chunk file))) := by
  have hpiece : file.take scratchBufsize ≠ [] := by simpa using h
  rw [getLoop]
  exact dif_neg hpiece

/-- The loop goes on with the rest of the file after a piece. -/
theorem getLoop_of_sendable {T : Parsed UInt8} {rest : List UInt8}
    (hsize : chunk.length = scratchBufsize) (hne : file ≠ [])
    (h : Sendable c (file.take scratchBufsize).length (readInto chunk file) T rest) :
    getLoop c chunk file =
      if 0 < ((file.take scratchBufsize).length : Int) + T.growth (shown c) then
        (getLoop c (filledBuffer c T (readInto chunk file)) (file.drop scratchBufsize)).map
          fun (chunks, buf) =>
            (sentBytes c (file.take scratchBufsize).length T (readInto chunk file) :: chunks, buf)
      else some ([sentBytes c (file.take scratchBufsize).length T (readInto chunk file)],
        filledBuffer c T (readInto chunk file)) := by
  have hfind := findReplace_eq_some.mpr ⟨T, rest, h.parsed, h.fits, h.room, rfl, rfl⟩
  have hsend := httpdRespSendChunk_filled (length_readInto hsize file) h
  unfold filledBuffer at hsend
  rw [getLoop_of_ne_nil c chunk hne, hfind]
  dsimp only [bind, Option.bind]
  rw [hsend]
  rfl

/-- Only a piece that can be sent leaves the loop inside its buffers. -/
theorem sendable_of_getLoop {r : List (List UInt8) × List UInt8}
    (hsize : chunk.length = scratchBufsize) (hne : file ≠ []) (h : getLoop c chunk file = some r) :
    ∃ T rest, Sendable c (file.take scratchBufsize).length (readInto chunk file) T rest := by
  rw [getLoop_of_ne_nil c chunk hne] at h
  obtain ⟨⟨out, d⟩, hfind, h⟩ := Option.bind_eq_some_iff.mp h
  obtain ⟨T, rest, hparse, hfits, hroom, rfl, rfl⟩ := findReplace_eq_some.mp hfind
  obtain ⟨sent, hsend, -⟩ := Option.bind_eq_some_iff.mp h
  exact ⟨T, rest,
    sendable_of_httpdRespSendChunk (length_readInto hsize file) hparse hfits hroom hsend⟩

end Iteration

/-! ### Files of a whole buffer or more -/

/-- The pieces of a file can be sent one after another, when the buffer holds `chunk` before. -/
inductive Bounded (c : Config) : List UInt8 → List UInt8 → Prop
  | done (chunk : List UInt8) : Bounded c chunk []
  | piece {chunk file : List UInt8} {T : Parsed UInt8} {rest : List UInt8} (more : file ≠ [])
      (sendable : Sendable c (file.take scratchBufsize).length (readInto chunk file) T rest)
      (next : Bounded c (filledBuffer c T (readInto chunk file)) (file.drop scratchBufsize)) :
      Bounded c chunk file

/-- The length that is sent of a whole buffer is not negative, so the loop goes on. -/
theorem Sendable.pos_of_full {c : Config} {n : Nat} {buf : List UInt8} {T : Parsed UInt8}
    {rest : List UInt8} (h : Sendable c n buf T rest) (hn : buf.length ≤ n) :
    0 < n + T.growth (shown c) := by
  have hrender := length_render_of_parse (c := c) h.parsed
  omega

section Whole

variable [HttpServer]

theorem Bounded.exists_getLoop {c : Config} {chunk file : List UInt8} (h : Bounded c chunk file)
    (hsize : chunk.length = scratchBufsize) :
    ∃ chunks buf, getLoop c chunk file = some (chunks, buf) ∧ buf.length = scratchBufsize := by
  induction h with
  | done chunk => exact ⟨_, _, getLoop_nil c chunk, hsize⟩
  | @piece chunk file T rest more sendable next ih =>
    have hread := length_readInto hsize file
    have hfilled := (length_filledBuffer hread sendable.room).trans hread
    obtain ⟨chunks, buf, hloop, hbuf⟩ := ih hfilled
    rw [getLoop_of_sendable hsize more sendable, hloop]
    split
    · exact ⟨_, _, rfl, hbuf⟩
    · exact ⟨_, _, rfl, hfilled⟩

theorem bounded_of_getLoop {c : Config} (k : Nat) {chunk file : List UInt8}
    (hk : file.length ≤ k) (hsize : chunk.length = scratchBufsize)
    (h : ∃ r, getLoop c chunk file = some r) : Bounded c chunk file := by
  induction k generalizing chunk file with
  | zero =>
    rw [List.eq_nil_of_length_eq_zero (Nat.le_zero.mp hk)]
    exact .done chunk
  | succ k ih =>
    by_cases hne : file = []
    · rw [hne]
      exact .done chunk
    obtain ⟨r, hr⟩ := h
    obtain ⟨T, rest, hsend⟩ := sendable_of_getLoop hsize hne hr
    have hread := length_readInto hsize file
    have hfilled := (length_filledBuffer hread hsend.room).trans hread
    refine .piece hne hsend ?_
    have hpos : 0 < file.length := List.length_pos_iff.mpr hne
    by_cases hfull : scratchBufsize ≤ file.length
    · have htake : (file.take scratchBufsize).length = scratchBufsize :=
        List.length_take_of_le hfull
      have hgo := hsend.pos_of_full (by rw [hread, htake])
      rw [getLoop_of_sendable hsize hne hsend, if_pos hgo] at hr
      obtain ⟨r', hr', -⟩ := Option.map_eq_some_iff.mp hr
      refine ih ?_ hfilled ⟨r', hr'⟩
      rw [List.length_drop]
      exact Nat.le_of_lt_succ (Nat.lt_of_lt_of_le (Nat.sub_lt hpos (by decide)) hk)
    · rw [List.drop_eq_nil_of_le (Nat.le_of_not_le hfull)]
      exact .done _

/-- The loop stays inside its buffers exactly for files whose pieces can be sent. -/
theorem getLoop_iff_bounded {c : Config} {chunk file : List UInt8}
    (hsize : chunk.length = scratchBufsize) :
    (∃ r, getLoop c chunk file = some r) ↔ Bounded c chunk file := by
  refine ⟨bounded_of_getLoop _ (Nat.le_refl _) hsize, fun h => ?_⟩
  obtain ⟨chunks, buf, hloop, -⟩ := h.exists_getLoop hsize
  exact ⟨(chunks, buf), hloop⟩

theorem length_of_getLoop {c : Config} {chunk file buf : List UInt8} {chunks : List (List UInt8)}
    (hsize : chunk.length = scratchBufsize) (h : getLoop c chunk file = some (chunks, buf)) :
    buf.length = scratchBufsize := by
  have hbounded := (getLoop_iff_bounded hsize).mp ⟨_, h⟩
  obtain ⟨chunks', buf', hloop, hbuf⟩ := hbounded.exists_getLoop hsize
  obtain ⟨rfl, rfl⟩ := Prod.mk.inj (Option.some.inj (h.symm.trans hloop))
  exact hbuf

end Whole

/-! ### Files of less than a buffer -/

/-- The text of a short file ends in the file, its parameters fit, and no more is sent than what the
file and its parameters are: they do not lengthen the file, or they do and its text is the whole
file. -/
structure Closed (c : Config) (file : List UInt8) (T : Parsed UInt8) (rest : List UInt8) :
    Prop where
  parsed : parse 0x26 0 .copy file = some (T, rest)
  fits : ∀ name ∈ T.holes, Fits c name
  own : T.growth (shown c) ≤ 0 ∨
    rest = [] ∧ T.unclosed = none ∧ 0 ∉ T.render (shown c) ∧
      file.length + T.growth (shown c) ≤ scratchBufsize

theorem readInto_short (chunk : List UInt8) {file : List UInt8}
    (hshort : file.length < scratchBufsize) :
    readInto chunk file = file ++ chunk.drop file.length := by
  rw [readInto, List.take_of_length_le (Nat.le_of_lt hshort), overlay]

theorem take_overlay_append {xs file : List UInt8} {k : Nat} (hk : k ≤ xs.length ∨ k ≤ file.length)
    (ys : List UInt8) : (overlay xs (file ++ ys)).take k = (overlay xs file).take k := by
  by_cases hxs : k ≤ xs.length
  · rw [overlay, overlay, List.take_append_of_le_length hxs, List.take_append_of_le_length hxs]
  · have hfile : k ≤ file.length := hk.resolve_left hxs
    have hle : xs.length ≤ file.length := by omega
    rw [overlay_append hle, List.take_append_of_le_length (by rwa [length_overlay hle])]

section Short

variable {c : Config} {chunk file : List UInt8} {T : Parsed UInt8} {rest : List UInt8}

/-- Behind a short file and what was filled in for it, the buffer still holds what it held. -/
theorem getElem?_filledBuffer (b : UInt8) {p : Nat} (hfile : file.length ≤ p)
    (hp : p < scratchBufsize) (hcopied : (cstring (T.render (shown c))).length < p) :
    (filledBuffer c T (file ++ (List.replicate scratchBufsize b).drop file.length))[p]? =
      some b := by
  have hlen : (cstring (T.render (shown c)) ++ [0]).length ≤ p := by
    rw [List.length_append, List.length_singleton]
    omega
  rw [filledBuffer, overlay, List.getElem?_append_right hlen, List.getElem?_drop,
    Nat.add_sub_cancel' hlen, List.getElem?_append_right hfile, List.getElem?_drop,
    Nat.add_sub_cancel' hfile, List.getElem?_replicate_of_lt hp]

/-- With no NUL behind it, the text of a short file ends in the file. -/
theorem parse_of_full (h : parse 0x26 0 .copy
    (file ++ (List.replicate scratchBufsize 1).drop file.length) = some (T, rest)) :
    ∃ rest', parse 0x26 0 .copy file = some (T, rest') := by
  have hones : (0 : UInt8) ∉ (List.replicate scratchBufsize 1).drop file.length := by
    intro hmem
    exact absurd (List.eq_of_mem_replicate (List.mem_of_mem_drop hmem)) (by decide)
  cases hparse : parse 0x26 0 .copy file with
  | none =>
    rw [parse_append_eq_none hparse hones] at h
    cases h
  | some r =>
    rw [parse_append hparse] at h
    obtain ⟨rfl, -⟩ := Prod.mk.inj (Option.some.inj h)
    exact ⟨r.2, rfl⟩

/-- What is sent does not reach behind both the file and the text that was filled in, if it is the
same for a clear buffer and for a full one. -/
theorem sent_le_of_same {k : Nat} (hk : k ≤ scratchBufsize)
    (hsame :
      (filledBuffer c T (file ++ (List.replicate scratchBufsize 0).drop file.length)).take k =
        (filledBuffer c T (file ++ (List.replicate scratchBufsize 1).drop file.length)).take k) :
    k ≤ file.length ∨ k ≤ (cstring (T.render (shown c))).length + 1 := by
  by_contra hnot
  obtain ⟨hfile, hcopied⟩ := not_or.mp hnot
  have hp : k - 1 < k := by omega
  have hat (b : UInt8) : (filledBuffer c T
      (file ++ (List.replicate scratchBufsize b).drop file.length))[k - 1]? = some b :=
    getElem?_filledBuffer b (by omega) (by omega) (by omega)
  have hzero := hat 0
  rw [← List.getElem?_take_of_lt hp, hsame, List.getElem?_take_of_lt hp, hat] at hzero
  exact absurd (Option.some.inj hzero) (by decide)

variable [HttpServer]

theorem getLoop_short (hsize : chunk.length = scratchBufsize) (hne : file ≠ [])
    (hshort : file.length < scratchBufsize)
    (h : Sendable c file.length (file ++ chunk.drop file.length) T rest)
    (hpos : 0 < file.length + T.growth (shown c)) :
    getLoop c chunk file = some ([(filledBuffer c T (file ++ chunk.drop file.length)).take
        (file.length + T.growth (shown c)).toNat],
      filledBuffer c T (file ++ chunk.drop file.length)) := by
  have htake : file.take scratchBufsize = file := List.take_of_length_le (Nat.le_of_lt hshort)
  have hsend : Sendable c (file.take scratchBufsize).length (readInto chunk file) T rest := by
    rwa [htake, readInto_short chunk hshort]
  rw [getLoop_of_sendable hsize hne hsend, htake, readInto_short chunk hshort, if_pos hpos,
    List.drop_eq_nil_of_le (Nat.le_of_lt hshort), getLoop_nil, sentBytes, if_neg (by omega)]
  rfl

/-- A short file that is closed is sent without anything else that the buffer holds. -/
theorem Closed.exists_getLoop (h : Closed c file T rest) (hshort : file.length < scratchBufsize)
    (hsize : chunk.length = scratchBufsize) :
    ∃ buf, getLoop c chunk file = some ([(filledBuffer c T file).take
      (file.length + T.growth (shown c)).toNat], buf) := by
  have hrender := length_render_of_parse (c := c) h.parsed
  have hle : file.length + T.growth (shown c) ≤ scratchBufsize := by
    rcases h.own with hgrow | ⟨-, -, -, hle⟩
    · omega
    · exact hle
  have hlen : (file ++ chunk.drop file.length).length = scratchBufsize := by
    rw [List.length_append, List.length_drop]
    omega
  have hsend : Sendable c file.length (file ++ chunk.drop file.length) T
      (rest ++ chunk.drop file.length) :=
    { parsed := parse_append h.parsed _
      fits := h.fits
      room := by omega
      sent_pos := by omega
      sent_le := by rwa [hlen] }
  have hne : file ≠ [] := by
    rintro rfl
    cases h.parsed
  refine ⟨filledBuffer c T (file ++ chunk.drop file.length), ?_⟩
  rw [getLoop_short hsize hne hshort hsend (by omega)]
  have htake : (filledBuffer c T (file ++ chunk.drop file.length)).take
      (file.length + T.growth (shown c)).toNat =
        (filledBuffer c T file).take (file.length + T.growth (shown c)).toNat := by
    refine take_overlay_append ?_ _
    rcases h.own with hgrow | ⟨hrest, hunclosed, hnul, -⟩
    · exact .inr (by omega)
    · refine .inl ?_
      rw [hrest, hunclosed, Option.elim_none, List.length_nil] at hrender
      rw [cstring_eq_self hnul, List.length_append, List.length_singleton]
      omega
  rw [htake]

/-- A short file is closed when the same is sent of it from a clear buffer and from a full one. -/
theorem closed_of_getLoop {chunks : List (List UInt8)} {buf buf' : List UInt8} (hne : file ≠ [])
    (hshort : file.length < scratchBufsize)
    (hclear : getLoop c (List.replicate scratchBufsize 0) file = some (chunks, buf))
    (hfull : getLoop c (List.replicate scratchBufsize 1) file = some (chunks, buf')) :
    ∃ T rest, Closed c file T rest := by
  have hread (b : UInt8) := readInto_short (List.replicate scratchBufsize b) hshort
  have htake : file.take scratchBufsize = file := List.take_of_length_le (Nat.le_of_lt hshort)
  obtain ⟨T, _, hsend⟩ := sendable_of_getLoop (List.length_replicate) hne hfull
  rw [hread, htake] at hsend
  obtain ⟨rest, hparse⟩ := parse_of_full hsend.parsed
  have hlen (b : UInt8) :
      (file ++ (List.replicate scratchBufsize b).drop file.length).length = scratchBufsize := by
    rw [List.length_append, List.length_drop, List.length_replicate]
    omega
  have hle := hsend.sent_le
  rw [hlen] at hle
  have hrender := length_render_of_parse (c := c) hparse
  have hsendable (b : UInt8) : Sendable c file.length
      (file ++ (List.replicate scratchBufsize b).drop file.length) T
      (rest ++ (List.replicate scratchBufsize b).drop file.length) :=
    ⟨parse_append hparse _, hsend.fits, hsend.room, hsend.sent_pos, by rwa [hlen]⟩
  rw [getLoop_short List.length_replicate hne hshort (hsendable 0) (by omega)] at hclear
  rw [getLoop_short List.length_replicate hne hshort (hsendable 1) (by omega)] at hfull
  have hsame := (Prod.mk.inj (Option.some.inj hclear)).1.trans
    (Prod.mk.inj (Option.some.inj hfull)).1.symm
  have hreach := sent_le_of_same (by omega) (List.singleton_inj.mp hsame)
  refine ⟨T, rest, hparse, hsend.fits, ?_⟩
  by_cases hgrow : T.growth (shown c) ≤ 0
  · exact .inl hgrow
  · -- More than the file is sent, so everything that is sent was filled in.
    have hcopied : (cstring (T.render (shown c))).length ≤ (T.render (shown c)).length :=
      (List.takeWhile_prefix _).length_le
    have hall : (cstring (T.render (shown c))).length = (T.render (shown c)).length := by omega
    have hnul : 0 ∉ T.render (shown c) := by
      rw [← (List.takeWhile_prefix _).eq_of_length hall]
      exact zero_not_mem_cstring _
    refine .inr ⟨List.eq_nil_of_length_eq_zero (by omega), ?_, hnul, hle⟩
    cases hu : T.unclosed with
    | none => rfl
    | some xs =>
      rw [hu, Option.elim_some, List.length_cons] at hrender
      omega

end Short

end DaliController.Http
