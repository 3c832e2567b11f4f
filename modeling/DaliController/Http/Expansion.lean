import DaliController.Http.FindReplace

/-! What `find_replace` is for: the text of a page with the value of the configuration in place of
each parameter.  The scanner copies the character behind a parameter without looking at it, prints
the name of a parameter whose value is empty, and has 60 bytes for a value. -/

namespace DaliController.Http

open Decimal Template

/-- The names that `replace` knows. -/
def knownParams : List String :=
  ["TUS1", "TUS2", "TUS3", "POW1", "POW2", "POW3", "MQTT", "KEEP", "DEVID", "PROJE", "WEB", "TCP",
    "UDP", "TSYNC", "OUT1", "OUT2", "GETIP1", "GETIP2", "IP", "NETMASK", "GATEWAY", "SSID", "PASS",
    "CHAN", "DNS1", "DNS2", "WRET"]

/-- A character of a page, or a parameter. -/
def PageToken : Token UInt8 → Prop
  | .chr b => b ≠ 0 ∧ b ≠ 0x26
  | .par name => ∃ s ∈ knownParams, name = text s

/-- A text in which `&` only stands around the names of parameters. -/
structure PageText where
  tokens : List (Token UInt8)
  known : ∀ t ∈ tokens, PageToken t

/-- The bytes of the text up to its NUL. -/
def PageText.source (p : PageText) : List UInt8 := p.tokens.flatMap (Token.source 0x26)

/-- The text with each parameter replaced by its value. -/
def PageText.expansion (p : PageText) (c : Config) : List UInt8 :=
  p.tokens.flatMap (Token.expand (printed c))

theorem knownParams_clean : (knownParams.all fun s =>
    !(text s).isEmpty && !(text s).contains 0 && !(text s).contains 0x26 &&
      decide ((text s).length < paramTemp)) = true := by
  decide +kernel

theorem knownParams_spec {s : String} (hs : s ∈ knownParams) :
    text s ≠ [] ∧ 0 ∉ text s ∧ 0x26 ∉ text s ∧ (text s).length < paramTemp := by
  have h := List.all_eq_true.mp knownParams_clean s hs
  simp only [Bool.and_eq_true, Bool.not_eq_true', List.isEmpty_eq_false_iff, List.contains_eq_mem,
    decide_eq_false_iff_not, decide_eq_true_eq] at h
  exact ⟨h.1.1.1, h.1.1.2, h.1.2, h.2⟩

theorem PageText.proper (p : PageText) : ∀ t ∈ p.tokens, t.Proper 0x26 0 := by
  intro t ht
  have hknown := p.known t ht
  cases t with
  | chr b => exact hknown
  | par name =>
    obtain ⟨s, hs, rfl⟩ := hknown
    obtain ⟨h1, h2, h3, -⟩ := knownParams_spec hs
    exact ⟨h1, h2, h3⟩

/-! ### Empty values -/

section Values

variable {c : Config} {ts : List (Token UInt8)}

theorem mem_names {name : List UInt8} : name ∈ names ts ↔ .par name ∈ ts := by
  unfold names
  rw [List.mem_filterMap]
  constructor
  · rintro ⟨t, ht, hname⟩
    cases t with
    | chr b => cases hname
    | par n =>
      cases hname
      exact ht
  · intro h
    exact ⟨_, h, rfl⟩

theorem shown_of_printed {name : List UInt8} (h : printed c name ≠ []) :
    shown c name = printed c name := if_neg h

theorem shown_of_empty {name : List UInt8} (h : printed c name = []) : shown c name = name :=
  if_pos h

theorem expand_shown (h : ∀ name ∈ names ts, printed c name ≠ []) :
    ts.flatMap (Token.expand (shown c)) = ts.flatMap (Token.expand (printed c)) := by
  apply List.flatMap_congr
  intro t ht
  cases t with
  | chr b => rfl
  | par name => exact shown_of_printed (h name (mem_names.mpr ht))

theorem length_printed_le (ts : List (Token UInt8)) :
    (ts.flatMap (Token.expand (printed c))).length ≤
      (ts.flatMap (Token.expand (shown c))).length := by
  induction ts with
  | nil => exact Nat.le_refl _
  | cons t ts ih =>
    rw [List.flatMap_cons, List.flatMap_cons, List.length_append, List.length_append]
    refine Nat.add_le_add ?_ ih
    cases t with
    | chr b => exact Nat.le_refl _
    | par name =>
      by_cases h : printed c name = []
      · simp [Token.expand, h]
      · simp [Token.expand, shown_of_printed h]

/-- The name of a parameter with an empty value makes the text longer than it is meant to be. -/
theorem printed_ne_nil_of_same (hts : ∀ t ∈ ts, t.Proper 0x26 0)
    (h : ts.flatMap (Token.expand (shown c)) = ts.flatMap (Token.expand (printed c))) :
    ∀ name ∈ names ts, printed c name ≠ [] := by
  intro name hname hempty
  obtain ⟨l, r, rfl⟩ := List.append_of_mem (mem_names.mp hname)
  have hpos := List.length_pos_iff.mpr (hts (.par name) (by simp)).1
  have hlen := congrArg List.length h
  have hl := length_printed_le (c := c) l
  have hr := length_printed_le (c := c) r
  simp only [List.flatMap_append, List.flatMap_cons, List.length_append, Token.expand, hempty,
    shown_of_empty hempty, List.length_nil] at hlen
  omega

end Values

/-- On a text that ends with the buffer, `find_replace` writes what is meant and returns by how much
that is longer, without leaving its buffers, if and only if a character stands behind every
parameter, no value is empty, each value fits into 60 bytes with its NUL, and the result fits into
`tmp`. -/
theorem find_replace_expands_iff (c : Config) (p : PageText) :
    findReplace c (p.source ++ [0]) =
        some (p.expansion c, ((p.expansion c).length : Int) - p.source.length) ↔
      Followed p.tokens = true ∧
        (∀ name ∈ names p.tokens, printed c name ≠ [] ∧ (printed c name).length < paramTemp) ∧
          (p.expansion c).length < scratchBufsize := by
  have hne : (0x26 : UInt8) ≠ 0 := by decide
  rw [findReplace_eq_some]
  constructor
  · rintro ⟨T, rest, hparse, hfits, hlt, hout, hd⟩
    -- The returned value counts the text that an open parameter swallows.
    have hunclosed : T.unclosed = none := by
      have hlen := T.length_render 0x26 (shown c)
      have hsource := congrArg List.length (source_of_parse hparse)
      simp only [Mode.source, List.nil_append, List.length_append, List.length_cons,
        List.length_nil] at hsource
      rw [← hout, ← hd] at hlen
      cases hu : T.unclosed with
      | none => rfl
      | some xs =>
        rw [hu, Option.elim_some, List.length_cons] at hlen
        omega
    have hfollowed : Followed p.tokens = true := by
      by_contra h
      exact unclosed_of_not_followed p.proper (Bool.not_eq_true _ ▸ h) hne hparse hunclosed
    have hT := parse_followed p.proper hfollowed hne []
    have heq : (T, rest) = (⟨piecesOf p.tokens, none⟩, []) :=
      Option.some.inj (hparse.symm.trans hT)
    obtain ⟨rfl, rfl⟩ := Prod.mk.inj heq
    have hrender := (render_piecesOf hfollowed).symm.trans hout.symm
    rw [holes_piecesOf hfollowed] at hfits
    have hnonempty := printed_ne_nil_of_same p.proper hrender
    refine ⟨hfollowed, fun name hname => ⟨hnonempty name hname, (hfits name hname).2⟩, ?_⟩
    rw [hout]
    exact hlt
  · rintro ⟨hfollowed, hvalues, hlt⟩
    have hrender : (⟨piecesOf p.tokens, none⟩ : Parsed UInt8).render (shown c) = p.expansion c :=
      (render_piecesOf hfollowed).trans (expand_shown fun name hname => (hvalues name hname).1)
    have hlen := Parsed.length_render 0x26 (shown c) ⟨piecesOf p.tokens, none⟩
    have hsource : (⟨piecesOf p.tokens, none⟩ : Parsed UInt8).source 0x26 = p.source := by
      simp [Parsed.source, source_piecesOf hfollowed, PageText.source]
    refine ⟨_, [], parse_followed p.proper hfollowed hne [], ?_, ?_, hrender.symm, ?_⟩
    · rw [holes_piecesOf hfollowed]
      intro name hname
      obtain ⟨s, hs, rfl⟩ := p.known _ (mem_names.mp hname)
      exact ⟨(knownParams_spec hs).2.2.2, (hvalues _ hname).2⟩
    · rw [hrender]
      exact hlt
    · rw [hrender, hsource] at hlen
      simp only [Option.elim_none, List.length_nil, Int.natCast_zero] at hlen
      omega

/-- A parameter at the end of a text. -/
def endsWithIp : PageText where
  tokens := [.par (text "IP")]
  known := by
    intro t ht
    rw [List.mem_singleton.mp ht]
    exact ⟨"IP", by decide, rfl⟩

/-- The NUL behind a parameter is copied, and the scanner goes on behind it. -/
theorem find_replace_reads_on :
    findReplace defaultConfig (endsWithIp.source ++ [0]) = none ∧
      findReplace defaultConfig (endsWithIp.source ++ [0, 0x58, 0]) =
        some (text "192.168.1.220" ++ [0, 0x58], 9) := by
  decide +kernel

end DaliController.Http
