import DaliController.Lib.CString
import DaliController.Lib.Segments
import Mathlib.Data.List.Infix

/-! Commands on a TCP connection.  `data_transmit` looks at each chunk that `recv` returns on its
own: a chunk with `ping` in it is answered and dropped, and `tcp_handler` drops one that does not
begin with a brace.  Nothing is carried over from one chunk to the next, so a command arrives if it
lies inside one chunk, and the chunk is not dropped. -/

namespace DaliController.Tcp

open CString Segments

def ping : List UInt8 := [0x70, 0x69, 0x6E, 0x67]

/-- What `recv` returns. -/
structure Chunk where
  bytes : List UInt8
  ne : bytes ≠ []
  le : bytes.length ≤ 510

/-- A connection, with the arguments that `data_parse` was called with and their positions in the
bytes received. -/
structure Connection where
  received : Nat
  pongs : Nat
  parsed : List (Nat × List UInt8)

/-- `tcp_handler`, on a chunk whose first byte is at position `n`. -/
def tcpHandler (port : UInt16) (n : Nat) (data : List UInt8) : List (Nat × List UInt8) :=
  if port = 5718 then []
  else if data.head? ≠ some 0x7B then []
  else tokens (· == 0x26) n (cstring data)

def receive (port : UInt16) (s : Connection) (c : Chunk) : Connection :=
  let received := s.received + c.bytes.length
  if ping <:+: cstring c.bytes then { s with received := received, pongs := s.pongs + 1 }
  else { s with
    received := received
    parsed := s.parsed ++ tcpHandler port s.received c.bytes }

/-- The loop of `data_transmit` over the chunks that `recv` returns. -/
def dataTransmit (port : UInt16) (chunks : List Chunk) : Connection :=
  chunks.foldl (receive port) ⟨0, 0, []⟩

/-! ### What the client sends -/

/-- A JSON object command. -/
structure Command extends Text where
  brace : bytes.head? = some 0x7B
  no_amp : 0x26 ∉ bytes
  le : bytes.length ≤ 500

/-- A command with its terminator. -/
def Command.line (c : Command) : List UInt8 := c.bytes ++ [0x26]

def stream (commands : List Command) : List UInt8 := commands.flatMap Command.line

/-- The positions and texts of the commands that are not `ping`. -/
def wanted (isPing : List UInt8 → Bool) (commands : List Command) : List (Nat × List UInt8) :=
  ((placed (fun c => c.line.length) 0 commands).filter fun p => !isPing p.2.bytes).map
    fun p => (p.1, p.2.bytes)

/-- Each command that is not `ping` is passed to `data_parse` once, whole and in order. -/
def Connection.Delivers (s : Connection) (isPing : List UInt8 → Bool) (commands : List Command) :
    Prop :=
  s.parsed.filter (· ∈ wanted isPing commands) = wanted isPing commands

def chunksAt (chunks : List Chunk) : List (Nat × Chunk) := placed (fun c => c.bytes.length) 0 chunks

/-- The chunk is passed on and split. -/
def Chunk.Split (c : Chunk) : Prop := c.bytes.head? = some 0x7B ∧ ¬ping <:+: c.bytes

/-- The command lies inside one chunk, which is not dropped. -/
def Unbroken (chunks : List Chunk) (w : Nat × List UInt8) : Prop :=
  ∃ p ∈ chunksAt chunks, p.2.Split ∧ p.1 ≤ w.1 ∧ w.1 + w.2.length ≤ p.1 + p.2.bytes.length

instance (c : Chunk) : Decidable c.Split := inferInstanceAs (Decidable (_ ∧ _))

instance (chunks : List Chunk) (w : Nat × List UInt8) : Decidable (Unbroken chunks w) :=
  inferInstanceAs (Decidable (∃ p ∈ chunksAt chunks, _))

instance (s : Connection) (isPing : List UInt8 → Bool) (commands : List Command) :
    Decidable (s.Delivers isPing commands) := inferInstanceAs (Decidable (_ = _))

/-! ### The calls of `data_parse` -/

/-- The calls of `data_parse` that a chunk at position `n` leads to. -/
def callsOf (port : UInt16) (n : Nat) (c : Chunk) : List (Nat × List UInt8) :=
  if ping <:+: cstring c.bytes then [] else tcpHandler port n c.bytes

theorem receive_parsed (port : UInt16) (s : Connection) (c : Chunk) :
    (receive port s c).parsed = s.parsed ++ callsOf port s.received c := by
  unfold receive callsOf
  split
  · rw [List.append_nil]
  · rfl

theorem receive_received (port : UInt16) (s : Connection) (c : Chunk) :
    (receive port s c).received = s.received + c.bytes.length := by
  unfold receive
  split <;> rfl

theorem foldl_receive_parsed (port : UInt16) (chunks : List Chunk) (s : Connection) :
    (chunks.foldl (receive port) s).parsed = s.parsed ++
      (placed (fun c => c.bytes.length) s.received chunks).flatMap
        fun p => callsOf port p.1 p.2 := by
  induction chunks generalizing s with
  | nil => simp [placed]
  | cons c chunks ih =>
    rw [List.foldl_cons, ih, receive_parsed, receive_received, List.append_assoc, placed,
      List.flatMap_cons]

theorem dataTransmit_parsed (port : UInt16) (chunks : List Chunk) :
    (dataTransmit port chunks).parsed =
      (chunksAt chunks).flatMap fun p => callsOf port p.1 p.2 :=
  foldl_receive_parsed port chunks ⟨0, 0, []⟩

theorem callsOf_eq {c : Chunk} (hc : 0 ∉ c.bytes) (n : Nat) :
    callsOf 5717 n c = if c.Split then tokens (· == 0x26) n c.bytes else [] := by
  have hcstring : cstring c.bytes = c.bytes := by
    have h := cstring_of_nul_free hc []
    rw [List.append_nil] at h
    exact h.trans (List.append_nil _)
  unfold callsOf tcpHandler
  rw [hcstring, if_neg (show ¬(5717 : UInt16) = 5718 by decide)]
  by_cases hping : ping <:+: c.bytes
  · rw [if_pos hping, if_neg fun h : c.Split => h.2 hping]
  · rw [if_neg hping]
    by_cases hbrace : c.bytes.head? = some 0x7B
    · rw [if_neg (not_not_intro hbrace), if_pos (show c.Split from ⟨hbrace, hping⟩)]
    · rw [if_pos hbrace, if_neg fun h : c.Split => hbrace h.1]

theorem mem_callsOf {c : Chunk} (hc : 0 ∉ c.bytes) {n : Nat} {w : Nat × List UInt8} :
    w ∈ callsOf 5717 n c ↔ c.Split ∧ w ∈ tokens (· == 0x26) n c.bytes := by
  rw [callsOf_eq hc]
  split
  · rename_i h
    exact ⟨fun hw => ⟨h, hw⟩, fun hw => hw.2⟩
  · rename_i h
    exact ⟨fun hw => (nomatch hw), fun hw => absurd hw.1 h⟩

/-- A call's argument lies inside its chunk. -/
theorem within_of_mem_callsOf {c : Chunk} (hc : 0 ∉ c.bytes) {n : Nat} {w : Nat × List UInt8}
    (hw : w ∈ callsOf 5717 n c) : n ≤ w.1 ∧ w.1 + w.2.length ≤ n + c.bytes.length := by
  obtain ⟨l, r, hslice, hpos⟩ := tokens_slice ((mem_callsOf hc).mp hw).2
  rw [hslice, hpos, List.length_append, List.length_append]
  omega

theorem pairwise_callsOf {c : Chunk} (hc : 0 ∉ c.bytes) (n : Nat) :
    (callsOf 5717 n c).Pairwise fun t u => t.1 < u.1 := by
  rw [callsOf_eq hc]
  split
  · exact pairwise_tokens n c.bytes
  · exact .nil

theorem pairwise_parsed {chunks : List Chunk} (hnul : ∀ c ∈ chunks, 0 ∉ c.bytes) :
    (dataTransmit 5717 chunks).parsed.Pairwise fun t u => t.1 < u.1 := by
  have hmem : ∀ p ∈ chunksAt chunks, 0 ∉ p.2.bytes := by
    intro p hp
    obtain ⟨l, r, rfl, -⟩ := mem_placed.mp hp
    exact hnul p.2 (by simp)
  rw [dataTransmit_parsed, List.pairwise_flatMap]
  refine ⟨fun p hp => pairwise_callsOf (hmem p hp) p.1, ?_⟩
  refine (pairwise_placed 0 chunks).imp_of_mem fun {p q} hp hq hpq t ht u hu => ?_
  have hbefore := within_of_mem_callsOf (hmem p hp) ht
  have hafter := within_of_mem_callsOf (hmem q hq) hu
  have hne : 0 < t.2.length := by
    have htok := ((mem_callsOf (hmem p hp)).mp ht).2
    have := List.of_mem_filter htok
    simpa [List.length_pos_iff] using this
  omega

/-! ### Commands in the stream -/

theorem zero_not_mem_stream (commands : List Command) : 0 ∉ stream commands := by
  intro h
  obtain ⟨c, -, hc⟩ := List.mem_flatMap.mp h
  rcases List.mem_append.mp hc with hc | hc
  · exact c.nul_free hc
  · exact absurd (List.mem_singleton.mp hc) (by decide)

theorem getLast_stream {commands : List Command} : ∀ d ∈ (stream commands).getLast?, d = 0x26 := by
  intro d hd
  rcases List.eq_nil_or_concat commands with rfl | ⟨cs, c, rfl⟩
  · cases hd
  · rw [stream, List.concat_eq_append, List.flatMap_append] at hd
    simpa [Command.line, eq_comm] using hd

theorem mem_wanted {isPing : List UInt8 → Bool} {commands : List Command} {w : Nat × List UInt8}
    (hw : w ∈ wanted isPing commands) :
    ∃ (before : List Command) (c : Command) (rest : List Command), w.2 = c.bytes ∧
      w.1 = (stream before).length ∧
      stream commands = stream before ++ c.bytes ++ 0x26 :: stream rest := by
  obtain ⟨p, hp, rfl⟩ := List.mem_map.mp hw
  obtain ⟨before, rest, hcommands, hpos⟩ := mem_placed.mp (List.mem_of_mem_filter hp)
  refine ⟨before, p.2, rest, rfl, ?_, ?_⟩
  · rw [hpos, after_eq_length, Nat.zero_add, stream]
  · rw [hcommands]
    simp [stream, Command.line]

theorem pairwise_wanted (isPing : List UInt8 → Bool) (commands : List Command) :
    (wanted isPing commands).Pairwise fun t u => t.1 < u.1 := by
  refine List.pairwise_map.mpr (((pairwise_placed 0 commands).imp fun h => ?_).filter _)
  rw [Command.line, List.length_append, List.length_singleton] at h
  omega

/-- A command that lies inside a chunk is a token of it. -/
theorem command_mem_tokens {before rest : List Command} {c : Command} {F bs G : List UInt8}
    (h : stream before ++ c.bytes ++ 0x26 :: stream rest = F ++ bs ++ G)
    (hfrom : F.length ≤ (stream before).length)
    (hto : (stream before).length + c.bytes.length ≤ F.length + bs.length) :
    ((stream before).length, c.bytes) ∈ tokens (· == 0x26) F.length bs := by
  obtain ⟨x, y, hbytes, hx, hy⟩ := slice_within h hfrom hto
  rw [hbytes, hx, List.length_append]
  apply mem_tokens
  · intro hnil
    have hbrace := c.brace
    rw [hnil] at hbrace
    cases hbrace
  · intro b hb
    exact beq_false_of_ne fun hamp => c.no_amp (hamp ▸ hb)
  · intro d hd
    have hlast : d ∈ (stream before).getLast? := by
      rw [hx]
      exact List.mem_getLast?_append_of_mem_getLast? hd
    exact beq_iff_eq.mpr (getLast_stream d hlast)
  · intro d hd
    have hhead : d ∈ (0x26 :: stream rest).head? := by
      rw [hy]
      exact List.mem_head?_append_of_mem_head? hd
    exact beq_iff_eq.mpr (Option.some.inj hhead).symm

theorem mem_parsed_iff {isPing : List UInt8 → Bool} {commands : List Command} {chunks : List Chunk}
    (hchunks : chunks.flatMap Chunk.bytes = stream commands)
    (hnul : ∀ c ∈ chunks, 0 ∉ c.bytes) {w : Nat × List UInt8} (hw : w ∈ wanted isPing commands) :
    w ∈ (dataTransmit 5717 chunks).parsed ↔ Unbroken chunks w := by
  rw [dataTransmit_parsed, List.mem_flatMap]
  constructor
  · rintro ⟨p, hp, hcall⟩
    obtain ⟨l, r, rfl, -⟩ := mem_placed.mp hp
    have hc := hnul p.2 (by simp)
    exact ⟨p, hp, ((mem_callsOf hc).mp hcall).1, within_of_mem_callsOf hc hcall⟩
  · rintro ⟨p, hp, hsplit, hfrom, hto⟩
    refine ⟨p, hp, ?_⟩
    obtain ⟨l, r, rfl, hpos⟩ := mem_placed.mp hp
    rw [after_eq_length, Nat.zero_add] at hpos
    obtain ⟨before, c, rest, htext, hstart, hstream⟩ := mem_wanted hw
    have hwhole : stream before ++ c.bytes ++ 0x26 :: stream rest =
        l.flatMap Chunk.bytes ++ p.2.bytes ++ r.flatMap Chunk.bytes := by
      rw [← hstream, ← hchunks, List.flatMap_append, List.flatMap_cons, List.append_assoc]
    obtain rfl : w = ((stream before).length, c.bytes) := Prod.ext hstart htext
    rw [hpos] at hfrom hto ⊢
    exact (mem_callsOf (hnul p.2 (by simp))).mpr ⟨hsplit, command_mem_tokens hwhole hfrom hto⟩

/-- However the stream is cut, each command that is not `ping` is passed on once, whole and in order
if and only if each lies inside one chunk that begins with a brace and has no `ping` in it. -/
theorem delivers_iff_unbroken (isPing : List UInt8 → Bool) (commands : List Command)
    (chunks : List Chunk) (hchunks : chunks.flatMap Chunk.bytes = stream commands) :
    (dataTransmit 5717 chunks).Delivers isPing commands ↔
      ∀ w ∈ wanted isPing commands, Unbroken chunks w := by
  have hnul : ∀ c ∈ chunks, 0 ∉ c.bytes := fun c hc hzero =>
    zero_not_mem_stream commands (hchunks ▸ List.mem_flatMap_of_mem hc hzero)
  have : Std.Irrefl fun t u : Nat × List UInt8 => t.1 < u.1 := ⟨fun _ => Nat.lt_irrefl _⟩
  have : Std.Antisymm fun t u : Nat × List UInt8 => t.1 < u.1 :=
    ⟨fun _ _ h h' => absurd h' (Nat.lt_asymm h)⟩
  have hwanted := pairwise_wanted isPing commands
  rw [Connection.Delivers, filter_mem_eq_iff (pairwise_parsed hnul) hwanted]
  exact forall₂_congr fun w hw => mem_parsed_iff hchunks hnul hw

/-- An `intro` command. -/
def intro : Command where
  bytes :=
    [0x7B, 0x22, 0x63, 0x6F, 0x6D, 0x22, 0x3A, 0x22, 0x69, 0x6E, 0x74, 0x72, 0x6F, 0x22, 0x7D]
  nul_free := by decide
  brace := rfl
  no_amp := by decide
  le := by decide

def pingCommand : Command where
  bytes :=
    [0x7B, 0x22, 0x63, 0x6F, 0x6D, 0x22, 0x3A, 0x22, 0x70, 0x69, 0x6E, 0x67, 0x22, 0x7D]
  nul_free := by decide
  brace := rfl
  no_amp := by decide
  le := by decide

/-- A command without its terminator, and then the terminator with a `ping`. -/
def introPing : List Chunk :=
  [⟨intro.bytes, by decide, by decide⟩, ⟨0x26 :: pingCommand.line, by decide, by decide⟩]

theorem delivers_introPing : (dataTransmit 5717 introPing).Delivers
    (fun text => text == pingCommand.bytes) [intro, pingCommand] :=
  (delivers_iff_unbroken _ [intro, pingCommand] introPing (by decide)).mpr (by decide +kernel)

/-- A command that is cut in two. -/
def introCut : List Chunk :=
  [⟨intro.line.take 7, by decide, by decide⟩, ⟨intro.line.drop 7, by decide, by decide⟩]

theorem introCut_lost : introCut.flatMap Chunk.bytes = stream [intro] ∧
    ¬(dataTransmit 5717 introCut).Delivers (fun text => text == pingCommand.bytes) [intro] := by
  decide +kernel

end DaliController.Tcp
