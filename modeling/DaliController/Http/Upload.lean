import DaliController.Http.Scratch

/-! Uploads.  `upload_post_handler` empties the file first and fills it while the body arrives.
When the body does not arrive whole, or `fwrite` fails, it removes the file again.  It does not look
at the result of the last `fclose`: only when that fails, a later GET sees a part of the body. -/

namespace DaliController.Http

open CString

/-! ### The code -/

/-- What a call of `httpd_req_recv` returns, and whether `fwrite` takes all of it.  A failure is
everything else that is not positive. -/
inductive Arrival
  | timeout
  | failed
  | piece (buf : List UInt8) (stored : Bool)
  deriving DecidableEq

/-- How the last `fclose` ends.  When it fails, the storage keeps the first `kept` bytes of the
file. -/
inductive Closing
  | written
  | failed (kept : Nat)
  deriving DecidableEq

def Closing.keeps (file : List UInt8) : Closing → List UInt8
  | .written => file
  | .failed kept => file.take kept

/-- How a handler ends. -/
inductive Answer
  | uploaded
  | sent (chunks : List (List UInt8))
  | error (status : Nat) (message : List UInt8)
  deriving DecidableEq

inductive HttpRequest
  | get (uri : List UInt8)
  /-- `created` tells whether `fopen` succeeds. -/
  | upload (uri : List UInt8) (contentLen : Nat) (created : Bool) (arrivals : List Arrival)
    (closing : Closing)
  | save (totalLen : Nat) (received : List UInt8)
  | restart

/-- The part of a URI in front of its query and its fragment. -/
def uriPath (uri : List UInt8) : List UInt8 := uri.takeWhile fun b => b ≠ 0x3F ∧ b ≠ 0x23

/-- `get_path_from_uri`. -/
def getPathFromUri (basePath uri : List UInt8) (destsize : Nat) : Option (List UInt8) :=
  if destsize < basePath.length + (uriPath uri).length + 1 then none
  else some (basePath ++ uriPath uri)

inductive Received
  | complete
  | receptionFailed
  | writeFailed
  deriving DecidableEq

/-- The loop of `upload_post_handler`: how it ends, what was written to the file until then, and the
scratch buffer.  There is no result as long as it waits. -/
def receiveLoop (remaining : Nat) (scratch file : List UInt8) :
    List Arrival → Option (Received × List UInt8 × List UInt8)
  | [] => if remaining = 0 then some (.complete, file, scratch) else none
  | arrival :: arrivals =>
    if remaining = 0 then some (.complete, file, scratch)
    else match arrival with
      | .timeout => receiveLoop remaining scratch file arrivals
      | .failed => some (.receptionFailed, file, scratch)
      | .piece buf stored =>
        if buf = [] ∨ min remaining scratchBufsize < buf.length then none
        else if stored then
          receiveLoop (remaining - buf.length) (overlay buf scratch) (file ++ buf) arrivals
        else some (.writeFailed, file, overlay buf scratch)

/-- `upload_post_handler` after its loop.  It answers the same however `fclose` ends. -/
def Server.closeFile (s : Server) (filepath : List UInt8) (closing : Closing) :
    Received × List UInt8 × List UInt8 → Answer × Server
  | (.complete, file, scratch) =>
    (.uploaded,
      { s with files := Function.update s.files filepath (some (closing.keeps file)), scratch })
  | (.receptionFailed, _, scratch) =>
    (.error 500 (text "Failed to receive file"),
      { s with files := Function.update s.files filepath none, scratch })
  | (.writeFailed, _, scratch) =>
    (.error 500 (text "Failed to write file to storage"),
      { s with files := Function.update s.files filepath none, scratch })

section Handlers

variable (basePath : List UInt8) (filePathMax : Nat)

/-- The path that `upload_post_handler` opens.  The URI begins with `/upload`. -/
def uploadPath (uri : List UInt8) : Option (List UInt8) :=
  getPathFromUri basePath (uri.drop (text "/upload").length) filePathMax

/-- `upload_post_handler`.  The URI goes on with a slash after `/upload`, so the last character of
the path is the last one of the file's name. -/
def uploadPostHandler (s : Server) (uri : List UInt8) (contentLen : Nat) (created : Bool)
    (arrivals : List Arrival) (closing : Closing) : Option (Answer × Server) :=
  match uploadPath basePath filePathMax uri with
  | none => some (.error 500 (text "Filename too long"), s)
  | some filepath =>
    if filepath.getLast? = some 0x2F then some (.error 500 (text "Invalid filename"), s)
    else if maxFileSize < contentLen then
      some (.error 400 (text "File size must be less than 200KB!"), s)
    else if created = false then some (.error 500 (text "Failed to create file"), s)
    else (receiveLoop contentLen s.scratch [] arrivals).map (s.closeFile filepath closing)

/-- The path that `rest_common_get_handler` opens, cut to the size of its buffer. -/
def getPath (uri : List UInt8) : List UInt8 :=
  (basePath ++ if uri.getLast? = some 0x2F then text "/index.html" else uri).take (filePathMax - 1)

/-- `rest_common_get_handler` from the URI on. -/
def getHandler [HttpServer] (s : Server) (uri : List UInt8) : Option (Answer × Server) :=
  match s.files (getPath basePath filePathMax uri) with
  | none => some (.error 500 (text "Failed to read existing file"), s)
  | some file => (restCommonGetHandler s.config s.scratch file).map fun (chunks, scratch) =>
    (.sent chunks, { s with scratch })

/-- The server after a request, with the answer of the two handlers for files. -/
def respond [HttpServer] (s : Server) : HttpRequest → Option (Option Answer × Server)
  | .get uri => (getHandler basePath filePathMax s uri).map fun (answer, s) => (some answer, s)
  | .upload uri contentLen created arrivals closing =>
    (uploadPostHandler basePath filePathMax s uri contentLen created arrivals closing).map
      fun (answer, s) => (some answer, s)
  | .save totalLen received => (serverStep s (.save totalLen received)).map fun s => (none, s)
  | .restart => (serverStep s .restart).map fun s => (none, s)

def httpStep [HttpServer] (s : Server) (r : HttpRequest) : Option Server :=
  (respond basePath filePathMax s r).map Prod.snd

/-- The path of an upload. -/
def HttpRequest.writes : HttpRequest → Option (List UInt8)
  | .upload uri _ _ _ _ => uploadPath basePath filePathMax uri
  | .get _ | .save _ _ | .restart => none

end Handlers

/-! ### The loop -/

/-- The bytes that arrive and are stored. -/
def Arrival.stored : Arrival → List UInt8
  | .piece buf true => buf
  | .piece _ false | .timeout | .failed => []

/-- The handler goes on after this arrival. -/
def Arrival.goesOn : Arrival → Bool
  | .timeout | .piece _ true => true
  | .failed | .piece _ false => false

/-- All that is stored before anything fails. -/
def arrived (arrivals : List Arrival) : List UInt8 :=
  (arrivals.takeWhile Arrival.goesOn).flatMap Arrival.stored

/-- The body of a request is received whole. -/
def Arrives (contentLen : Nat) (arrivals : List Arrival) : Prop :=
  contentLen ≤ (arrived arrivals).length

theorem arrived_cons {a : Arrival} (h : a.goesOn = true) (arrivals : List Arrival) :
    arrived (a :: arrivals) = a.stored ++ arrived arrivals := by
  rw [arrived, List.takeWhile_cons_of_pos h, List.flatMap_cons, arrived]

theorem arrived_of_not {a : Arrival} (h : a.goesOn = false) (arrivals : List Arrival) :
    arrived (a :: arrivals) = [] := by
  rw [arrived, List.takeWhile_cons_of_neg (by rw [h]; decide), List.flatMap_nil]

theorem receiveLoop_zero (scratch file : List UInt8) (arrivals : List Arrival) :
    receiveLoop 0 scratch file arrivals = some (.complete, file, scratch) := by
  cases arrivals with
  | nil => rfl
  | cons a arrivals => cases a <;> rfl

/-- The file as the loop leaves it, and whether the body was received. -/
structure LoopEnds (remaining : Nat) (file : List UInt8) (arrivals : List Arrival)
    (received : Received) (file' : List UInt8) : Prop where
  complete : received = .complete ↔ Arrives remaining arrivals
  file : received = .complete → file' = file ++ (arrived arrivals).take remaining

theorem loopEnds_zero (file : List UInt8) (arrivals : List Arrival) :
    LoopEnds 0 file arrivals .complete file where
  complete := ⟨fun _ => Nat.zero_le _, fun _ => rfl⟩
  file _ := by rw [List.take_zero, List.append_nil]

/-- The loop ends with a failure before the body is received. -/
theorem loopEnds_fails {remaining : Nat} {file file' : List UInt8} {a : Arrival}
    {received : Received} (arrivals : List Arrival) (hpos : remaining ≠ 0)
    (ha : a.goesOn = false) (hr : received ≠ .complete) :
    LoopEnds remaining file (a :: arrivals) received file' where
  complete := by
    rw [Arrives, arrived_of_not ha, List.length_nil]
    exact ⟨fun h => absurd h hr, fun h => absurd (Nat.le_zero.mp h) hpos⟩
  file h := absurd h hr

theorem loopEnds_goesOn {remaining : Nat} {file file' : List UInt8} {a : Arrival}
    {arrivals : List Arrival} {received : Received} (ha : a.goesOn = true)
    (hle : a.stored.length ≤ remaining)
    (h : LoopEnds (remaining - a.stored.length) (file ++ a.stored) arrivals received file') :
    LoopEnds remaining file (a :: arrivals) received file' where
  complete := by
    rw [h.complete, Arrives, Arrives, arrived_cons ha, List.length_append]
    omega
  file hr := by
    rw [h.file hr, arrived_cons ha, List.append_assoc, List.take_append,
      List.take_of_length_le hle]

theorem receiveLoop_ends {remaining : Nat} {scratch file : List UInt8} {arrivals : List Arrival}
    {received : Received} {file' scratch' : List UInt8}
    (h : receiveLoop remaining scratch file arrivals = some (received, file', scratch')) :
    LoopEnds remaining file arrivals received file' := by
  induction arrivals generalizing remaining scratch file with
  | nil =>
    obtain ⟨rfl, heq⟩ := Option.ite_none_right_eq_some.mp h
    cases heq
    exact loopEnds_zero _ []
  | cons a arrivals ih =>
    by_cases h0 : remaining = 0
    · subst h0
      rw [receiveLoop_zero] at h
      cases h
      exact loopEnds_zero _ _
    cases a with
    | timeout =>
      rw [receiveLoop, if_neg h0] at h
      apply loopEnds_goesOn rfl (Nat.zero_le _)
      rw [Arrival.stored, List.append_nil]
      exact ih h
    | failed =>
      rw [receiveLoop, if_neg h0] at h
      cases h
      exact loopEnds_fails arrivals h0 rfl (by decide)
    | piece buf stored =>
      rw [receiveLoop, if_neg h0] at h
      obtain ⟨hbuf, h⟩ := Option.ite_none_left_eq_some.mp h
      have hle : buf.length ≤ remaining := by
        have hmin := Nat.min_le_left remaining scratchBufsize
        omega
      cases stored with
      | true => exact loopEnds_goesOn rfl hle (ih h)
      | false =>
        cases h
        exact loopEnds_fails arrivals h0 rfl (by decide)

/-- What the loop delivers, in the terms of `serverStep`. -/
theorem receiveLoop_delivers {remaining : Nat} {scratch file : List UInt8}
    {arrivals : List Arrival} {received : Received} {file' scratch' : List UInt8}
    (h : receiveLoop remaining scratch file arrivals = some (received, file', scratch')) :
    ∃ bufs, Delivers remaining bufs ∧ scratch' = receive scratch bufs ∧
      (received = .complete → file' = file ++ bufs.flatten ∧ bufs.flatten.length = remaining) := by
  induction arrivals generalizing remaining scratch file with
  | nil =>
    obtain ⟨rfl, heq⟩ := Option.ite_none_right_eq_some.mp h
    cases heq
    exact ⟨[], ⟨by simp, by simp⟩, rfl, fun _ => by simp⟩
  | cons a arrivals ih =>
    by_cases h0 : remaining = 0
    · subst h0
      rw [receiveLoop_zero] at h
      cases h
      exact ⟨[], ⟨by simp, by simp⟩, rfl, fun _ => by simp⟩
    cases a with
    | timeout =>
      rw [receiveLoop, if_neg h0] at h
      exact ih h
    | failed =>
      rw [receiveLoop, if_neg h0] at h
      cases h
      exact ⟨[], ⟨by simp, by simp⟩, rfl, fun hr => by cases hr⟩
    | piece buf stored =>
      rw [receiveLoop, if_neg h0] at h
      obtain ⟨hbuf, h⟩ := Option.ite_none_left_eq_some.mp h
      have hle : buf.length ≤ remaining ∧ buf.length ≤ scratchBufsize := by
        have hmin := Nat.min_le_left remaining scratchBufsize
        have hmin' := Nat.min_le_right remaining scratchBufsize
        omega
      cases stored with
      | true =>
        obtain ⟨bufs, hdelivers, hscratch, hfile⟩ := ih h
        refine ⟨buf :: bufs, ⟨List.forall_mem_cons.mpr ⟨hle.2, hdelivers.1⟩, ?_⟩, hscratch, ?_⟩
        · have hlen := hdelivers.2
          rw [List.flatten_cons, List.length_append]
          omega
        · intro hr
          obtain ⟨hfile', hlen⟩ := hfile hr
          rw [List.flatten_cons, ← List.append_assoc, List.length_append]
          exact ⟨hfile', by omega⟩
      | false =>
        cases h
        refine ⟨[buf], ⟨List.forall_mem_singleton.mpr hle.2, ?_⟩, rfl, fun hr => by cases hr⟩
        rw [List.flatten_singleton]
        exact hle.1

/-! ### Requests -/

/-- The answers of `upload_post_handler` before it opens the file. -/
def refusals : List Answer :=
  [.error 500 (text "Filename too long"), .error 500 (text "Invalid filename"),
    .error 400 (text "File size must be less than 200KB!"),
    .error 500 (text "Failed to create file")]

/-- Its answers after it has removed the file. -/
def failures : List Answer :=
  [.error 500 (text "Failed to receive file"),
    .error 500 (text "Failed to write file to storage")]

section Requests

variable [HttpServer] {basePath : List UInt8} {filePathMax : Nat}

/-- What an upload that is not refused does to the files. -/
structure Uploads (s : Server) (filepath : List UInt8) (contentLen : Nat)
    (arrivals : List Arrival) (closing : Closing) (answer : Answer) (s' : Server) : Prop where
  size : contentLen ≤ maxFileSize
  name : filepath.getLast? ≠ some 0x2F
  outcome : Arrives contentLen arrivals ∧ answer = .uploaded ∨
    ¬Arrives contentLen arrivals ∧ answer ∈ failures
  files : s'.files = Function.update s.files filepath
    (if answer = .uploaded then some (closing.keeps ((arrived arrivals).take contentLen))
      else none)
  step : ∃ r, serverStep s r = some s'

theorem uploads_complete {s : Server} {filepath : List UInt8} {contentLen : Nat}
    {arrivals : List Arrival} {file scratch : List UInt8} (closing : Closing)
    (hsize : contentLen ≤ maxFileSize)
    (hname : filepath.getLast? ≠ some 0x2F)
    (hloop : receiveLoop contentLen s.scratch [] arrivals = some (.complete, file, scratch)) :
    Uploads s filepath contentLen arrivals closing .uploaded { s with
      files := Function.update s.files filepath (some (closing.keeps file))
      scratch } := by
  have hends := receiveLoop_ends hloop
  obtain ⟨bufs, hdelivers, hscratch, hfile⟩ := receiveLoop_delivers hloop
  obtain ⟨hbody, hlen⟩ := hfile rfl
  have hkeeps : ∃ kept, closing.keeps bufs.flatten = bufs.flatten.take kept := by
    cases closing with
    | written => exact ⟨contentLen, (List.take_of_length_le hlen.le).symm⟩
    | failed kept => exact ⟨kept, rfl⟩
  obtain ⟨kept, hkept⟩ := hkeeps
  refine ⟨hsize, hname, .inl ⟨hends.complete.mp rfl, rfl⟩, ?_,
    .upload filepath contentLen bufs (some kept), ?_⟩
  · rw [if_pos rfl, hends.file rfl, List.nil_append]
  · rw [serverStep, if_neg (Nat.not_lt.mpr hsize), if_pos ⟨hdelivers, fun _ => hlen⟩, hbody,
      hscratch, List.nil_append, hkept]
    rfl

theorem uploads_fails {s : Server} {filepath : List UInt8} {contentLen : Nat}
    {arrivals : List Arrival} {closing : Closing} {received : Received}
    {file scratch : List UInt8} {answer : Answer} (hsize : contentLen ≤ maxFileSize)
    (hname : filepath.getLast? ≠ some 0x2F)
    (hloop : receiveLoop contentLen s.scratch [] arrivals = some (received, file, scratch))
    (hr : received ≠ .complete) (hanswer : answer ∈ failures) :
    Uploads s filepath contentLen arrivals closing answer
      { s with files := Function.update s.files filepath none, scratch } := by
  have hends := receiveLoop_ends hloop
  obtain ⟨bufs, hdelivers, hscratch, -⟩ := receiveLoop_delivers hloop
  have hne : answer ≠ .uploaded := by
    rintro rfl
    exact absurd hanswer (by decide)
  refine ⟨hsize, hname, .inr ⟨fun h => hr (hends.complete.mpr h), hanswer⟩, ?_,
    .upload filepath contentLen bufs none, ?_⟩
  · rw [if_neg hne]
  · rw [serverStep, if_neg (Nat.not_lt.mpr hsize), if_pos ⟨hdelivers, fun h => by cases h⟩,
      hscratch]
    rfl

/-- An upload is refused and changes nothing, or it goes to the file of its path. -/
theorem uploadPostHandler_ends {s s' : Server} {uri : List UInt8} {contentLen : Nat}
    {created : Bool} {arrivals : List Arrival} {closing : Closing} {answer : Answer}
    (h : uploadPostHandler basePath filePathMax s uri contentLen created arrivals closing =
      some (answer, s')) :
    answer ∈ refusals ∧ s' = s ∨ ∃ filepath, uploadPath basePath filePathMax uri = some filepath ∧
      Uploads s filepath contentLen arrivals closing answer s' := by
  unfold uploadPostHandler at h
  cases hpath : uploadPath basePath filePathMax uri with
  | none =>
    rw [hpath] at h
    cases h
    exact .inl ⟨by decide, rfl⟩
  | some filepath =>
    rw [hpath] at h
    dsimp only at h
    split_ifs at h with hname hsize hcreated
    · cases h
      exact .inl ⟨by decide, rfl⟩
    · cases h
      exact .inl ⟨by decide, rfl⟩
    · cases h
      exact .inl ⟨by decide, rfl⟩
    · refine .inr ⟨filepath, rfl, ?_⟩
      obtain ⟨⟨received, file, scratch⟩, hloop, heq⟩ := Option.map_eq_some_iff.mp h
      have hsize' := Nat.le_of_not_lt hsize
      cases received with
      | complete =>
        cases heq
        exact uploads_complete closing hsize' hname hloop
      | receptionFailed =>
        cases heq
        exact uploads_fails hsize' hname hloop (by decide) (by decide)
      | writeFailed =>
        cases heq
        exact uploads_fails hsize' hname hloop (by decide) (by decide)

/-- A GET leaves the files, and is a step of the server. -/
theorem getHandler_ends {s s' : Server} {uri : List UInt8} {answer : Answer}
    (h : getHandler basePath filePathMax s uri = some (answer, s')) :
    s'.files = s.files ∧ ∃ r, serverStep s r = some s' := by
  unfold getHandler at h
  have hstep (filepath : List UInt8) : serverStep s (.get filepath) =
      match s.files filepath with
      | none => some s
      | some file => (restCommonGetHandler s.config s.scratch file).map fun (_, scratch) =>
        { s with scratch } := rfl
  refine ⟨?_, .get (getPath basePath filePathMax uri), ?_⟩
  · split at h
    · cases h
      rfl
    · obtain ⟨⟨chunks, scratch⟩, -, heq⟩ := Option.map_eq_some_iff.mp h
      cases heq
      rfl
  · rw [hstep]
    split at h
    · cases h
      rfl
    · obtain ⟨⟨chunks, scratch⟩, hget, heq⟩ := Option.map_eq_some_iff.mp h
      cases heq
      rw [hget]
      rfl

/-- A request is one of the server's, or is refused. -/
theorem httpStep_steps {s s' : Server} {r : HttpRequest}
    (h : httpStep basePath filePathMax s r = some s') :
    ∃ rs, Runs.run serverStep s rs = some s' := by
  have hone {t : Request} (ht : serverStep s t = some s') :
      ∃ rs, Runs.run serverStep s rs = some s' :=
    ⟨[t], by rw [Runs.run_cons, ht]; rfl⟩
  obtain ⟨⟨answer, t⟩, hrespond, rfl⟩ := Option.map_eq_some_iff.mp h
  cases r with
  | get uri =>
    obtain ⟨⟨a, u⟩, hget, heq⟩ := Option.map_eq_some_iff.mp hrespond
    cases heq
    obtain ⟨r, hr⟩ := (getHandler_ends hget).2
    exact hone hr
  | upload uri contentLen created arrivals closing =>
    obtain ⟨⟨a, u⟩, hupload, heq⟩ := Option.map_eq_some_iff.mp hrespond
    cases heq
    rcases uploadPostHandler_ends hupload with ⟨-, rfl⟩ | ⟨filepath, -, huploads⟩
    · exact ⟨[], rfl⟩
    · obtain ⟨r, hr⟩ := huploads.step
      exact hone hr
  | save totalLen received =>
    obtain ⟨u, hsave, heq⟩ := Option.map_eq_some_iff.mp hrespond
    cases heq
    exact hone hsave
  | restart =>
    cases hrespond
    exact ⟨[.restart], rfl⟩

theorem httpRun_steps {s s' : Server} {rs : List HttpRequest}
    (hrun : Runs.run (httpStep basePath filePathMax) s rs = some s') :
    ∃ rs', Runs.run serverStep s rs' = some s' :=
  Runs.exists_run_of_steps (fun _ _ _ h => httpStep_steps h) hrun

theorem serverStep_save_files {s s' : Server} {totalLen : Nat} {received : List UInt8}
    (h : serverStep s (.save totalLen received) = some s') : s'.files = s.files := by
  rw [serverStep] at h
  split at h
  · cases h
    rfl
  · obtain ⟨-, heq⟩ := Option.ite_none_right_eq_some.mp h
    obtain ⟨⟨err, config⟩, -, rfl⟩ := Option.map_eq_some_iff.mp heq
    rfl

/-- Only an upload to a path changes its file. -/
theorem httpStep_files {s s' : Server} {r : HttpRequest}
    (h : httpStep basePath filePathMax s r = some s') {filepath : List UInt8}
    (hother : r.writes basePath filePathMax ≠ some filepath) :
    s'.files filepath = s.files filepath := by
  obtain ⟨⟨answer, t⟩, hrespond, rfl⟩ := Option.map_eq_some_iff.mp h
  cases r with
  | get uri =>
    obtain ⟨⟨a, u⟩, hget, heq⟩ := Option.map_eq_some_iff.mp hrespond
    cases heq
    exact congrFun (getHandler_ends hget).1 filepath
  | upload uri contentLen created arrivals closing =>
    obtain ⟨⟨a, u⟩, hupload, heq⟩ := Option.map_eq_some_iff.mp hrespond
    cases heq
    rcases uploadPostHandler_ends hupload with ⟨-, rfl⟩ | ⟨written, hpath, huploads⟩
    · rfl
    · have hne : filepath ≠ written := by
        rintro rfl
        exact hother hpath
      exact (congrFun huploads.files filepath).trans (Function.update_of_ne hne _ _)
  | save totalLen received =>
    obtain ⟨u, hsave, heq⟩ := Option.map_eq_some_iff.mp hrespond
    cases heq
    exact congrFun (serverStep_save_files hsave) filepath
  | restart =>
    cases hrespond
    rfl

theorem run_files {s s' : Server} {rs : List HttpRequest}
    (hrun : Runs.run (httpStep basePath filePathMax) s rs = some s') {filepath : List UInt8}
    (hother : ∀ r ∈ rs, r.writes basePath filePathMax ≠ some filepath) :
    s'.files filepath = s.files filepath := by
  induction rs generalizing s with
  | nil =>
    cases hrun
    rfl
  | cons r rs ih =>
    obtain ⟨hr, hrs⟩ := List.forall_mem_cons.mp hother
    obtain ⟨t, ht, hrest⟩ := Runs.run_cons_eq_some hrun
    rw [ih hrest hrs, httpStep_files ht hr]

omit [HttpServer] in
/-- A GET of the uploaded name opens the uploaded file, if the name has no query and no fragment. -/
theorem getPath_uploadPath {uri filepath : List UInt8} (hplain : uriPath uri = uri)
    (hpath : uploadPath basePath filePathMax uri = some filepath)
    (hname : filepath.getLast? ≠ some 0x2F) :
    getPath basePath filePathMax (uri.drop (text "/upload").length) = filepath := by
  have hwhole : uriPath (uri.drop (text "/upload").length) =
      uri.drop (text "/upload").length := by
    have hall := List.takeWhile_eq_self_iff.mp hplain
    exact List.takeWhile_eq_self_iff.mpr fun b hb => hall b (List.mem_of_mem_drop hb)
  rw [uploadPath, getPathFromUri, hwhole] at hpath
  obtain ⟨hfits, heq⟩ := Option.ite_none_left_eq_some.mp hpath
  obtain rfl := Option.some.inj heq
  have hlast : (uri.drop (text "/upload").length).getLast? ≠ some 0x2F := by
    intro h
    rw [List.getLast?_append, h] at hname
    exact hname rfl
  rw [getPath, if_neg hlast]
  apply List.take_of_length_le
  rw [List.length_append]
  omega

end Requests

end DaliController.Http
