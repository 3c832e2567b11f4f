import DaliController.Http.Save
import DaliController.Http.Serve
import DaliController.Lib.Runs
import Mathlib.Logic.Function.Basic

/-! The requests of the web server share one scratch buffer, and none of them clears it.  What is
sent of a file depends on the earlier requests, unless the file is empty, or is shorter than the
buffer and has a NUL that keeps the scanner inside the file, or fills the buffer and stays inside
it. -/

namespace DaliController.Http

open CString Template

/-! ### The server -/

/-- `MAX_FILE_SIZE`. -/
def maxFileSize : Nat := 200 * 1024

/-- The files, `netconfig` and `globalconfig`, and the buffer in `rest_context`. -/
structure Server where
  files : List UInt8 → Option (List UInt8)
  config : Config
  scratch : List UInt8

inductive Request
  | get (filepath : List UInt8)
  /-- `received` is what arrives in each call of `httpd_req_recv`, and `kept` how much of it the
  storage keeps.  The file is removed again when the connection ends early or the storage is
  full. -/
  | upload (filepath : List UInt8) (contentLen : Nat) (received : List (List UInt8))
    (kept : Option Nat)
  | save (totalLen : Nat) (received : List UInt8)
  | restart

def clearScratch : List UInt8 := List.replicate scratchBufsize 0

/-- The scratch buffer after an upload. -/
def receive (scratch : List UInt8) (received : List (List UInt8)) : List UInt8 :=
  received.foldl (fun scratch buf => overlay buf scratch) scratch

/-- `httpd_req_recv` delivers at most what it is asked for, and not more than the content. -/
def Delivers (contentLen : Nat) (received : List (List UInt8)) : Prop :=
  (∀ buf ∈ received, buf.length ≤ scratchBufsize) ∧ received.flatten.length ≤ contentLen

instance (contentLen : Nat) : DecidablePred (Delivers contentLen) := fun received =>
  inferInstanceAs (Decidable ((∀ buf ∈ received, buf.length ≤ scratchBufsize) ∧
    received.flatten.length ≤ contentLen))

/-- What a request does to the server.  `none` is a request that cannot be, or one that makes a
handler leave its buffers. -/
def serverStep [HttpServer] (s : Server) : Request → Option Server
  | .get filepath =>
    match s.files filepath with
    | none => some s
    | some file =>
      (restCommonGetHandler s.config s.scratch file).map fun (_, scratch) => { s with scratch }
  | .upload filepath contentLen received kept =>
    if maxFileSize < contentLen then some s
    else if Delivers contentLen received ∧
        (kept.isSome = true → received.flatten.length = contentLen) then
      some { s with
        files := Function.update s.files filepath (kept.map received.flatten.take)
        scratch := receive s.scratch received }
    else none
  | .save totalLen received =>
    if scratchBufsize ≤ totalLen then some s
    else if received.length ≤ totalLen then
      (saveHandler s.config totalLen received).map fun (_, config) =>
        { s with
          config
          scratch := overlay
            (if received.length < totalLen then received else received ++ [0]) s.scratch }
    else none
  | .restart => some { s with scratch := clearScratch }

/-- The chunks that are sent for a GET of a file. -/
def Server.Sends [HttpServer] (s : Server) (filepath : List UInt8)
    (chunks : List (List UInt8)) : Prop :=
  ∃ file scratch, s.files filepath = some file ∧
    restCommonGetHandler s.config s.scratch file = some (chunks, scratch)

/-- The server has this file and this configuration. -/
def Server.Has (s : Server) (c : Config) (filepath file : List UInt8) : Prop :=
  s.files filepath = some file ∧ s.config = c

/-- Any two histories of a server that was just started, if they leave the file and the
configuration, lead to the same response. -/
def Independent [HttpServer] (c : Config) (filepath file : List UInt8) : Prop :=
  ∀ s₀ : Server, s₀.scratch = clearScratch → s₀.Has c filepath file →
    ∀ (h h' : List Request) (s s' : Server),
      Runs.run serverStep s₀ h = some s → Runs.run serverStep s₀ h' = some s' →
      s.Has c filepath file → s'.Has c filepath file →
      ∃ chunks, s.Sends filepath chunks ∧ s'.Sends filepath chunks

/-- What is sent of the file is determined by the file and the configuration. -/
def OwnBytes (c : Config) (file : List UInt8) : Prop :=
  file = [] ∨
  file.length < scratchBufsize ∧ (∃ T rest, Closed c file T rest) ∨
  scratchBufsize ≤ file.length ∧ Bounded c clearScratch file

/-! ### The scratch buffer -/

theorem length_clearScratch : clearScratch.length = scratchBufsize := List.length_replicate

theorem length_receive {scratch : List UInt8} {received : List (List UInt8)}
    (hsize : scratch.length = scratchBufsize)
    (h : ∀ buf ∈ received, buf.length ≤ scratchBufsize) :
    (receive scratch received).length = scratchBufsize := by
  induction received generalizing scratch with
  | nil => exact hsize
  | cons buf received ih =>
    obtain ⟨hbuf, hrest⟩ := List.forall_mem_cons.mp h
    exact ih ((length_overlay (hsize ▸ hbuf)).trans hsize) hrest

/-- The server with one more file, and with these bytes in the scratch buffer. -/
def Server.withFile (s : Server) (filepath content scratch : List UInt8) : Server :=
  { s with files := Function.update s.files filepath (some content), scratch }

theorem Server.Has.withFile {s : Server} {c : Config} {filepath file other : List UInt8}
    (h : s.Has c filepath file) (hother : filepath ≠ other) (content scratch : List UInt8) :
    (s.withFile other content scratch).Has c filepath file :=
  ⟨(Function.update_of_ne hother _ _).trans h.1, h.2⟩

/-- A file path that is not this one. -/
def otherPath (filepath : List UInt8) : List UInt8 :=
  if filepath = text "/a" then text "/b" else text "/a"

theorem otherPath_ne (filepath : List UInt8) : otherPath filepath ≠ filepath := by
  unfold otherPath
  split
  · rename_i h
    rw [h]
    decide
  · rename_i h
    exact Ne.symm h

/-- A server that was just started, with one file. -/
def startedServer (c : Config) (filepath file : List UInt8) : Server where
  files := Function.update (fun _ => none) filepath (some file)
  config := c
  scratch := clearScratch

theorem startedServer_has (c : Config) (filepath file : List UInt8) :
    (startedServer c filepath file).Has c filepath file := by
  refine ⟨?_, rfl⟩
  simp [startedServer]

section Histories

variable [HttpServer] {c : Config} {filepath file : List UInt8}

theorem serverStep_size (s : Server) (r : Request) (s' : Server)
    (hs : s.scratch.length = scratchBufsize) (h : serverStep s r = some s') :
    s'.scratch.length = scratchBufsize := by
  cases r with
  | get filepath =>
    rw [serverStep] at h
    split at h
    · obtain rfl := Option.some.inj h
      exact hs
    · obtain ⟨⟨chunks, scratch⟩, hget, rfl⟩ := Option.map_eq_some_iff.mp h
      obtain ⟨⟨chunks', scratch'⟩, hloop, heq⟩ := Option.map_eq_some_iff.mp hget
      obtain ⟨-, rfl⟩ := Prod.mk.inj heq
      exact length_of_getLoop hs hloop
  | upload filepath contentLen received kept =>
    rw [serverStep] at h
    split at h
    · obtain rfl := Option.some.inj h
      exact hs
    · obtain ⟨⟨hdelivers, -⟩, heq⟩ := Option.ite_none_right_eq_some.mp h
      obtain rfl := Option.some.inj heq
      exact length_receive hs hdelivers.1
  | save totalLen received =>
    rw [serverStep] at h
    split at h
    · obtain rfl := Option.some.inj h
      exact hs
    · rename_i hshort
      obtain ⟨hlen, heq⟩ := Option.ite_none_right_eq_some.mp h
      obtain ⟨⟨err, config⟩, -, rfl⟩ := Option.map_eq_some_iff.mp heq
      refine (length_overlay ?_).trans hs
      rw [hs]
      split
      · omega
      · rw [List.length_append, List.length_singleton]
        omega
  | restart =>
    obtain rfl := Option.some.inj h
    exact length_clearScratch

theorem run_size {s₀ s : Server} {h : List Request} (hs : s₀.scratch.length = scratchBufsize)
    (hrun : Runs.run serverStep s₀ h = some s) : s.scratch.length = scratchBufsize :=
  Runs.run_invariant (I := fun s => s.scratch.length = scratchBufsize) serverStep_size hs hrun

/-- An upload leaves any bytes in the scratch buffer. -/
theorem upload_fills (s : Server) (filepath : List UInt8) {xs : List UInt8}
    (hs : s.scratch.length = scratchBufsize) (hxs : xs.length = scratchBufsize) :
    serverStep s (.upload filepath scratchBufsize [xs] (some scratchBufsize)) =
      some (s.withFile filepath xs xs) := by
  have hreceive : receive s.scratch [xs] = xs := overlay_of_length_le (by omega)
  have hflat : [xs].flatten = xs := List.flatten_singleton
  have hdelivers : Delivers scratchBufsize [xs] :=
    ⟨List.forall_mem_singleton.mpr hxs.le, by rw [hflat, hxs]⟩
  rw [serverStep, if_neg (by decide), if_pos ⟨hdelivers, fun _ => by rw [hflat, hxs]⟩, hreceive,
    hflat, Option.map_some, List.take_of_length_le hxs.le]
  rfl

/-! ### Two histories -/

theorem Server.Has.sends_iff {s : Server} (hs : s.Has c filepath file)
    {chunks : List (List UInt8)} :
    s.Sends filepath (chunks ++ [[]]) ↔ ∃ buf, getLoop c s.scratch file = some (chunks, buf) := by
  obtain ⟨hfile, rfl⟩ := hs
  constructor
  · rintro ⟨file', scratch, hfile', hget⟩
    obtain rfl : file = file' := Option.some.inj (hfile.symm.trans hfile')
    obtain ⟨⟨chunks', buf⟩, hloop, heq⟩ := Option.map_eq_some_iff.mp hget
    obtain ⟨hchunks, -⟩ := Prod.mk.inj heq
    exact ⟨buf, by rw [hloop, List.append_cancel_right hchunks]⟩
  · rintro ⟨buf, hloop⟩
    exact ⟨file, buf, hfile, by rw [restCommonGetHandler, hloop]; rfl⟩

theorem Server.Sends.concat {s : Server} {chunks : List (List UInt8)}
    (h : s.Sends filepath chunks) : ∃ sent, chunks = sent ++ [[]] := by
  obtain ⟨file, scratch, -, hget⟩ := h
  obtain ⟨⟨sent, buf⟩, -, heq⟩ := Option.map_eq_some_iff.mp hget
  exact ⟨sent, (Prod.mk.inj heq).1.symm⟩

/-- A file that fills the buffer is read over everything in it. -/
theorem getLoop_full (c : Config) {chunk chunk' : List UInt8}
    (hsize : chunk.length = scratchBufsize) (hsize' : chunk'.length = scratchBufsize)
    (hfull : scratchBufsize ≤ file.length) :
    getLoop c chunk file = getLoop c chunk' file := by
  have hne : file ≠ [] := by
    rintro rfl
    exact absurd hfull (by decide)
  have hread {chunk : List UInt8} (hsize : chunk.length = scratchBufsize) :
      readInto chunk file = file.take scratchBufsize := by
    apply overlay_of_length_le
    rw [hsize, List.length_take_of_le hfull]
  rw [getLoop_of_ne_nil c chunk hne, getLoop_of_ne_nil c chunk' hne, hread hsize, hread hsize']

/-- The response to a GET of the file, for any contents of the scratch buffer. -/
theorem OwnBytes.getLoop (h : OwnBytes c file) :
    ∃ sent, ∀ scratch : List UInt8, scratch.length = scratchBufsize →
      ∃ buf, getLoop c scratch file = some (sent, buf) := by
  rcases h with rfl | ⟨hshort, T, rest, hclosed⟩ | ⟨hfull, hbounded⟩
  · exact ⟨[], fun scratch _ => ⟨scratch, getLoop_nil c scratch⟩⟩
  · exact ⟨_, fun scratch hsize => hclosed.exists_getLoop hshort hsize⟩
  · obtain ⟨sent, buf, hloop, -⟩ := hbounded.exists_getLoop length_clearScratch
    exact ⟨sent, fun scratch hsize =>
      ⟨buf, (getLoop_full c hsize length_clearScratch hfull).trans hloop⟩⟩

/-- An upload to another file changes the buffer and neither the file nor the configuration. -/
theorem Independent.same (h : Independent c filepath file) {xs : List UInt8}
    (hxs : xs.length = scratchBufsize) :
    ∃ sent buf buf', getLoop c clearScratch file = some (sent, buf) ∧
      getLoop c xs file = some (sent, buf') := by
  have hhas := startedServer_has c filepath file
  have hupload := upload_fills (startedServer c filepath file) (otherPath filepath)
    length_clearScratch hxs
  have hhas' := hhas.withFile (otherPath_ne filepath).symm xs xs
  obtain ⟨chunks, hsends, hsends'⟩ := h (startedServer c filepath file) rfl hhas []
    [.upload (otherPath filepath) scratchBufsize [xs] (some scratchBufsize)] _ _ rfl
    (by rw [Runs.run_cons, hupload]; rfl) hhas hhas'
  obtain ⟨sent, rfl⟩ := hsends.concat
  obtain ⟨buf, hloop⟩ := hhas.sends_iff.mp hsends
  obtain ⟨buf', hloop'⟩ := hhas'.sends_iff.mp hsends'
  exact ⟨sent, buf, buf', hloop, hloop'⟩

end Histories

/-! ### A file that is not closed -/

/-- The scratch buffer after an upload of four bytes to a server that was just started. -/
def usedScratch : List UInt8 := overlay (text "?&&Z") clearScratch

/-- Behind the file `A`, the text goes on with what the upload left. -/
def usedPage : Parsed UInt8 := ⟨[.lit 0x41, .hole [] 0x5A], none⟩

theorem length_usedScratch : usedScratch.length = scratchBufsize := by
  refine (length_overlay ?_).trans length_clearScratch
  rw [length_clearScratch]
  decide

theorem drop_clearScratch (k n : Nat) (h : k + n + 1 = scratchBufsize) :
    clearScratch.drop k = 0 :: List.replicate n 0 := by
  rw [clearScratch, List.drop_replicate, show scratchBufsize - k = n + 1 by omega,
    List.replicate_succ]

theorem sendable_clear : Sendable defaultConfig 1 (text "A" ++ clearScratch.drop 1)
    ⟨[.lit 0x41], none⟩ (List.replicate 12286 0) := by
  have hlen : (text "A" ++ clearScratch.drop 1).length = scratchBufsize := by
    rw [List.length_append, List.length_drop, length_clearScratch]
    rfl
  refine ⟨?_, by decide, by decide, by decide, ?_⟩
  · rw [drop_clearScratch 1 12286 rfl]
    rfl
  · rw [hlen]
    decide

theorem sendable_used : Sendable defaultConfig 1 (text "A" ++ usedScratch.drop 1)
    usedPage (List.replicate 12283 0) := by
  have hlen : (text "A" ++ usedScratch.drop 1).length = scratchBufsize := by
    rw [List.length_append, List.length_drop, length_usedScratch]
    rfl
  have hdrop : usedScratch.drop 1 = text "&&Z" ++ clearScratch.drop 4 := rfl
  refine ⟨?_, by decide, by decide, by decide, ?_⟩
  · rw [hdrop, drop_clearScratch 4 12283 rfl]
    rfl
  · rw [hlen]
    decide

/-- Earlier requests have no influence on the response exactly for files whose bytes are their
own. -/
theorem independent_iff_ownBytes [HttpServer] (c : Config) (filepath file : List UInt8) :
    Independent c filepath file ↔ OwnBytes c file := by
  constructor
  · intro h
    by_cases hne : file = []
    · exact .inl hne
    by_cases hshort : file.length < scratchBufsize
    · obtain ⟨sent, buf, buf', hclear, hones⟩ := h.same (List.length_replicate (a := 1))
      exact .inr (.inl ⟨hshort, closed_of_getLoop hne hshort hclear hones⟩)
    · obtain ⟨sent, buf, -, hclear, -⟩ := h.same length_clearScratch
      exact .inr (.inr ⟨Nat.le_of_not_lt hshort,
        (getLoop_iff_bounded length_clearScratch).mp ⟨_, hclear⟩⟩)
  · intro h s₀ hs₀ _ _ _ s s' hrun hrun' hs hs'
    obtain ⟨sent, hsent⟩ := h.getLoop
    have hsize : s₀.scratch.length = scratchBufsize := hs₀ ▸ length_clearScratch
    exact ⟨sent ++ [[]], hs.sends_iff.mpr (hsent _ (run_size hsize hrun)),
      hs'.sends_iff.mpr (hsent _ (run_size hsize hrun'))⟩

/-- `httpd_resp_send_chunk` as it is documented. -/
instance documented : HttpServer where
  httpdRespSendChunk buf bufLen :=
    if bufLen = -1 then some (cstring buf)
    else if 0 ≤ bufLen ∧ bufLen ≤ buf.length then some (buf.take bufLen.toNat)
    else none
  send_strlen _ := if_pos rfl
  send_within _ _ hpos hle := by rw [if_neg (by omega), if_pos ⟨hpos, hle⟩]
  send_outside _ _ hstrlen hnot := by rw [if_neg hstrlen, if_neg hnot]

/-- On a server that was just started, a GET of the file `A` sends one byte.  After an upload of
`?&&Z` it sends two. -/
theorem stale_byte_sent : ¬Independent defaultConfig (text "/x") (text "A") := by
  intro h
  have hhas := startedServer_has defaultConfig (text "/x") (text "A")
  have hother : text "/x" ≠ text "/y" := by decide
  have hhas' := hhas.withFile hother (text "?&&Z") usedScratch
  obtain ⟨chunks, hsends, hsends'⟩ := h (startedServer defaultConfig (text "/x") (text "A")) rfl
    hhas [] [.upload (text "/y") 4 [text "?&&Z"] (some 4)] _ _ rfl rfl hhas hhas'
  obtain ⟨sent, rfl⟩ := hsends.concat
  obtain ⟨buf, hloop⟩ := hhas.sends_iff.mp hsends
  obtain ⟨buf', hloop'⟩ := hhas'.sends_iff.mp hsends'
  have hne : text "A" ≠ [] := by decide
  have hshort : (text "A").length < scratchBufsize := by decide
  have hone : getLoop defaultConfig clearScratch (text "A") = some ([text "A"], _) :=
    getLoop_short length_clearScratch hne hshort sendable_clear (by decide)
  have htwo : getLoop defaultConfig usedScratch (text "A") = some ([text "AZ"],
      filledBuffer defaultConfig usedPage (readInto usedScratch (text "A"))) := by
    have hsend : Sendable defaultConfig ((text "A").take scratchBufsize).length
        (readInto usedScratch (text "A")) usedPage (List.replicate 12283 0) := by
      rw [readInto_short _ hshort]
      exact sendable_used
    exact getLoop_of_sendable length_usedScratch hne hsend
  have hsent := (Prod.mk.inj (Option.some.inj (hone.symm.trans hloop))).1
  have hsent' := (Prod.mk.inj (Option.some.inj (htwo.symm.trans hloop'))).1
  exact absurd (hsent.trans hsent'.symm) (by decide)

end DaliController.Http
