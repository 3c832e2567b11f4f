import DaliController.Http.Save
import DaliController.Http.SetupPage

/-! Opening the setup page and saving it unchanged.  The page has no control for four fields that
`save_handler` stores, so a save sets them to 0.  An empty text comes back as the name of its
parameter, and most texts come back as the browser encoded them.  The other configurations come back
as they were. -/

namespace DaliController.Http

open Decimal Template FormData

/-! ### The browser -/

/-- A text that an input control can hold: UTF-8 with no NUL and no line break. -/
def IsText (xs : List UInt8) : Prop :=
  (ByteArray.mk xs.toArray).IsValidUTF8 ∧ 0 ∉ xs ∧ 0x0A ∉ xs ∧ 0x0D ∉ xs

instance : DecidablePred IsText := fun xs =>
  inferInstanceAs (Decidable ((ByteArray.mk xs.toArray).IsValidUTF8 ∧ 0 ∉ xs ∧ 0x0A ∉ xs ∧
    0x0D ∉ xs))

/-- A browser, by the text that an input control has for the bytes of its `value` attribute.  Bytes
that are not UTF-8 are replaced, and line breaks are removed. -/
structure Browser where
  shows : List UInt8 → List UInt8
  shows_of_isText : ∀ xs, IsText xs → shows xs = xs
  isText_shows : ∀ xs, 0 ∉ xs → IsText (shows xs)

/-- What may stand for a parameter: an attribute value in quotes, the index in the script, or the
attribute `checked`. -/
def Allowed (next : UInt8) (u : List UInt8) : Prop :=
  if next = 0x27 then 0x27 ∉ u ∧ 0x26 ∉ u
  else if next = 0x3B then ∀ b ∈ u, IsDigit b
  else u = text "checked" ∨ u = text " "

/-- The browser finds these values in the page. -/
structure InPage (html : List UInt8) (v : List UInt8 → List UInt8) : Prop where
  html_eq : html = filledPage v setupHtml
  allowed : ∀ p ∈ setupParams, Allowed p.2 (v (text p.1))

/-- The parameter checks its control. -/
def Checked (v : List UInt8 → List UInt8) (par : String) : Prop := v (text par) = text "checked"

instance (v : List UInt8 → List UInt8) : DecidablePred (Checked v) := fun par =>
  inferInstanceAs (Decidable (v (text par) = text "checked"))

/-- A radio button of a group is checked further down the page. -/
def checkedLater (v : List UInt8 → List UInt8) (name : String) (page : List Node) : Bool :=
  page.any fun
    | .radio name' _ par => name' = name ∧ Checked v par
    | _ => false

/-- What a control sends, when `page` follows it: a checkbox if it is checked, a radio button if it
is the last one of its group that is checked, and a list the option that the script selected. -/
def Node.data (b : Browser) (v : List UInt8 → List UInt8) (page : List Node) :
    Node → Option (String × List UInt8)
  | .markup _ | .selectedIndex _ => none
  | .textInput name => some (name, b.shows (v (text name)))
  | .checkbox name => if Checked v name then some (name, text "on") else none
  | .radio name value par =>
    if Checked v par ∧ checkedLater v name page = false then some (name, text value) else none
  | .select name =>
    tusOptionTexts[digitsValue (v (text name))]?.map fun option => (name, text option.1)

/-- The data of the form. -/
def formData (b : Browser) (v : List UInt8 → List UInt8) : List Node → List (String × List UInt8)
  | [] => []
  | node :: page => (node.data b v page).toList ++ formData b v page

/-- The body of the request that saves the page. -/
def requestBody (b : Browser) (v : List UInt8 → List UInt8) : List UInt8 :=
  body ((formData b v setupHtml).map fun f => (text f.1, f.2))

/-- The page is filled in, and what the browser sends back for it is saved as the same
configuration. -/
def SavedUnchanged (b : Browser) (c : Config) : Prop :=
  ∃ html d v, findReplace c (pageBytes setupHtml ++ [0]) = some (html, d) ∧ InPage html v ∧
    saveHandler c (requestBody b v).length (requestBody b v) = some (.ok, c)

/-! ### The values in the page -/

theorem delimits_allowed {name : String} {a : UInt8} (h : (name, a) ∈ setupParams) :
    Delimits (Allowed a) a := by
  have hnext : ∀ p ∈ setupParams, p.2 = 0x27 ∨ p.2 = 0x3B ∨ p.2 = 0x2F ∨ p.2 = 0x20 := by decide
  rcases hnext _ h with ha | ha | ha | ha <;> simp only at ha <;> subst ha
  · exact delimits_of_not_mem fun u hu => hu.1
  · refine delimits_of_not_mem fun u hu hmem => ?_
    exact absurd (hu _ hmem) (by decide)
  · refine delimits_of_not_mem fun u hu => ?_
    rcases hu with rfl | rfl <;> decide
  · -- The values may have the character in them, but they differ in the first one.
    rintro u u' r r' (rfl | rfl) (rfl | rfl) heq
    · rfl
    · exact absurd (List.cons.inj heq).1 (by decide)
    · exact absurd (List.cons.inj heq).1 (by decide)
    · rfl

/-- The page determines the values. -/
theorem InPage.eq {html : List UInt8} {v v' : List UInt8 → List UInt8} (h : InPage html v)
    (h' : InPage html v') : ∀ p ∈ setupParams, v (text p.1) = v' (text p.1) := by
  have hallowed {v : List UInt8 → List UInt8} (h : InPage html v) :
      ∀ xs a, .hole xs a ∈ pagePieces setupHtml → Allowed a (v xs) := by
    intro xs a hmem
    obtain ⟨name, hp, rfl⟩ := mem_setupPieces hmem
    exact h.allowed _ hp
  have hdelimits : ∀ xs a, .hole xs a ∈ pagePieces setupHtml → Delimits (Allowed a) a := by
    intro xs a hmem
    obtain ⟨name, hp, -⟩ := mem_setupPieces hmem
    exact delimits_allowed hp
  intro p hp
  exact value_eq_of_render_eq hdelimits (hallowed h) (hallowed h') (h.html_eq.symm.trans h'.html_eq)
    _ _ (hole_mem_setupPieces hp)

/-! ### The controls -/

def Node.isControl : Node → Bool
  | .markup _ | .selectedIndex _ => false
  | _ => true

/-- The controls of the page. -/
def setupControls : List Node :=
  [.textInput "DEVID", .textInput "MQTT", .checkbox "WEB", .checkbox "TCP", .checkbox "TSYNC",
    .select "TUS1", .textInput "POW1", .select "TUS2", .textInput "POW2", .select "TUS3",
    .textInput "POW3", .radio "OUT" "1" "OUT1", .radio "OUT" "2" "OUT2",
    .radio "GETIP" "1" "GETIP1", .radio "GETIP" "2" "GETIP2", .textInput "IP",
    .textInput "NETMASK", .textInput "GATEWAY", .textInput "DNS1", .textInput "DNS2",
    .textInput "SSID", .textInput "PASS", .textInput "CHAN", .textInput "WRET"]

theorem setupHtml_controls : setupHtml.filter Node.isControl = setupControls := by decide +kernel

section

variable (b : Browser) (v : List UInt8 → List UInt8)

theorem checkedLater_filter (name : String) (page : List Node) :
    checkedLater v name (page.filter Node.isControl) = checkedLater v name page := by
  unfold checkedLater
  rw [List.any_filter]
  congr 1
  funext node
  cases node <;> rfl

theorem formData_filter (page : List Node) :
    formData b v (page.filter Node.isControl) = formData b v page := by
  induction page with
  | nil => rfl
  | cons node page ih =>
    cases node with
    | markup lines | selectedIndex name => exact ih
    | textInput name | checkbox name | select name =>
      rw [List.filter_cons_of_pos rfl, formData, formData, ih]
      rfl
    | radio name value par =>
      rw [List.filter_cons_of_pos rfl, formData, formData, ih, Node.data, Node.data,
        checkedLater_filter]

theorem formData_setupHtml : formData b v setupHtml = formData b v setupControls := by
  rw [← setupHtml_controls, formData_filter]

def Node.name : Node → String
  | .markup _ => ""
  | .textInput name => name
  | .checkbox name => name
  | .radio name _ _ => name
  | .selectedIndex name => name
  | .select name => name

variable {b v}

theorem Node.data_name {node : Node} {page : List Node} {f : String × List UInt8}
    (h : node.data b v page = some f) : f.1 = node.name := by
  cases node with
  | markup lines | selectedIndex name => cases h
  | textInput name =>
    obtain rfl := Option.some.inj h
    rfl
  | checkbox name =>
    obtain ⟨-, heq⟩ := Option.ite_none_right_eq_some.mp h
    obtain rfl := Option.some.inj heq
    rfl
  | radio name value par =>
    obtain ⟨-, heq⟩ := Option.ite_none_right_eq_some.mp h
    obtain rfl := Option.some.inj heq
    rfl
  | select name =>
    obtain ⟨option, -, rfl⟩ := Option.map_eq_some_iff.mp h
    rfl

theorem mem_formData {f : String × List UInt8} {page : List Node} (h : f ∈ formData b v page) :
    ∃ node rest, node ∈ page ∧ node.data b v rest = some f := by
  induction page with
  | nil => cases h
  | cons node page ih =>
    rcases List.mem_append.mp h with h | h
    · exact ⟨node, page, List.mem_cons_self, Option.mem_toList.mp h⟩
    · obtain ⟨node', rest, hmem, hdata⟩ := ih h
      exact ⟨node', rest, List.mem_cons_of_mem _ hmem, hdata⟩

theorem lookup_formData_cons (node : Node) (page : List Node) (key : String) :
    (formData b v (node :: page)).lookup key =
      if node.name = key then
        ((node.data b v page).map Prod.snd).or ((formData b v page).lookup key)
      else (formData b v page).lookup key := by
  rw [formData]
  cases hdata : node.data b v page with
  | none => exact (ite_self _).symm
  | some f =>
    rw [Option.toList_some, List.singleton_append, List.lookup_cons, ← Node.data_name hdata]
    by_cases hkey : f.1 = key
    · rw [if_pos hkey, hkey, beq_self_eq_true]
      rfl
    · rw [if_neg hkey, beq_false_of_ne (Ne.symm hkey)]

end

/-! ### The texts of the controls -/

theorem isText_of_ascii {xs : List UInt8}
    (h : ∀ b ∈ xs, b < 0x80 ∧ b ≠ 0 ∧ b ≠ 0x0A ∧ b ≠ 0x0D) : IsText xs := by
  have hchar : ∀ b : UInt8, b < 0x80 → String.utf8EncodeChar (Char.ofNat b.toNat) = [b] := by
    decide +kernel
  refine ⟨.intro (xs.map fun b => Char.ofNat b.toNat) ?_, fun hmem => (h 0 hmem).2.1 rfl,
    fun hmem => (h _ hmem).2.2.1 rfl, fun hmem => (h _ hmem).2.2.2 rfl⟩
  have hbytes : (xs.map fun b => Char.ofNat b.toNat).flatMap String.utf8EncodeChar = xs := by
    rw [List.flatMap_map, List.flatMap_congr fun b hb => hchar b (h b hb).1]
    exact List.flatMap_singleton' xs
  rw [List.utf8Encode, hbytes]
  exact ByteArray.ext (by simp)

theorem isText_of_plain {xs : List UInt8} (h : ∀ b ∈ xs, Plain b) : IsText xs := by
  have hplain : ∀ b, Plain b → b < 0x80 ∧ b ≠ 0 ∧ b ≠ 0x0A ∧ b ≠ 0x0D := by decide +kernel
  exact isText_of_ascii fun b hb => hplain b (h b hb)

theorem plain_of_isDigit {b : UInt8} (h : IsDigit b) : Plain b := .inl h

/-- A browser sends a plain text as it is. -/
theorem encode_shows_of_plain (b : Browser) {xs : List UInt8} (h : ∀ x ∈ xs, Plain x) :
    encode (b.shows xs) = xs := by
  rw [b.shows_of_isText xs (isText_of_plain h), encode_of_plain h]

theorem encode_shows_decimal (b : Browser) (n : Nat) :
    encode (b.shows (decimal n)) = decimal n :=
  encode_shows_of_plain b fun _ hx => plain_of_isDigit (isDigit_of_mem_decimal hx)

/-- Of the texts that the browser encodes, the plain ones are saved as they are. -/
theorem encode_shows_eq_self (b : Browser) {xs : List UInt8} :
    encode (b.shows xs) = xs ↔ ∀ x ∈ xs, Plain x := by
  refine ⟨fun h => ?_, encode_shows_of_plain b⟩
  have hascii : ∀ a, Plain a ∨ a = 0x2B ∨ a = 0x25 →
      a < 0x80 ∧ a ≠ 0 ∧ a ≠ 0x0A ∧ a ≠ 0x0D := by decide +kernel
  -- Encoded texts are ASCII, so the browser does not change the text before it encodes it.
  have htext : IsText xs := by
    rw [← h]
    exact isText_of_ascii fun a ha => hascii a (plain_of_mem_encode ha)
  rw [b.shows_of_isText xs htext] at h
  exact encode_eq_self.mp h

/-- What a control has for a text of the configuration. -/
def shownText (name : String) (xs : List UInt8) : List UInt8 := if xs = [] then text name else xs

/-- A text that is stored as it was sent comes back if it is plain and not empty. -/
theorem encode_shows_shownText (b : Browser) {name : String} (hname : text name ≠ [])
    (hplain : ∀ x ∈ text name, Plain x) {xs : List UInt8} :
    xs = encode (b.shows (shownText name xs)) ↔ xs ≠ [] ∧ ∀ x ∈ xs, Plain x := by
  unfold shownText
  by_cases hxs : xs = []
  · rw [if_pos hxs, encode_shows_of_plain b hplain, hxs]
    exact iff_of_false (Ne.symm hname) fun h => h.1 rfl
  · rw [if_neg hxs, eq_comm, encode_shows_eq_self]
    exact (and_iff_right hxs).symm

/-- A text that is decoded comes back if a control can hold it and it is not empty. -/
theorem urlDecode_shows_shownText (b : Browser) {name : String} (hname : text name ≠ [])
    (hplain : ∀ x ∈ text name, Plain x) {xs : List UInt8} (hnul : 0 ∉ xs) :
    xs = urlDecode (replacechar (encode (b.shows (shownText name xs))) 0x2B 0x20) ↔
      xs ≠ [] ∧ IsText xs := by
  have hdecode {ys : List UInt8} (hys : 0 ∉ ys) :
      urlDecode (replacechar (encode (b.shows ys)) 0x2B 0x20) = b.shows ys :=
    urlDecode_encode (b.isText_shows ys hys).2.1
  unfold shownText
  by_cases hxs : xs = []
  · have hname' : 0 ∉ text name := fun hmem => absurd (hplain 0 hmem) (by decide)
    rw [if_pos hxs, hdecode hname', b.shows_of_isText _ (isText_of_plain hplain), hxs]
    exact iff_of_false (Ne.symm hname) fun h => h.1 rfl
  · rw [if_neg hxs, hdecode hnul]
    refine ⟨fun h => ⟨hxs, h ▸ b.isText_shows xs hnul⟩, fun h => ?_⟩
    exact (b.shows_of_isText xs h.2).symm

/-! ### The request -/

/-- The parameter that the data of a control depends on. -/
def Node.param : Node → String
  | .markup _ => ""
  | .textInput name => name
  | .checkbox name => name
  | .radio _ _ par => par
  | .selectedIndex name => name
  | .select name => name

section

variable {v v' : List UInt8 → List UInt8}

theorem checked_congr {par : String} (h : v (text par) = v' (text par)) :
    Checked v par ↔ Checked v' par := by
  rw [Checked, Checked, h]

theorem checkedLater_congr (name : String) {page : List Node}
    (h : ∀ node ∈ page, v (text node.param) = v' (text node.param)) :
    checkedLater v name page = checkedLater v' name page := by
  induction page with
  | nil => rfl
  | cons node page ih =>
    obtain ⟨hnode, hpage⟩ := List.forall_mem_cons.mp h
    unfold checkedLater at ih ⊢
    rw [List.any_cons, List.any_cons, ih hpage]
    cases node with
    | radio name' value par =>
      have hpar : Checked v par ↔ Checked v' par := checked_congr hnode
      simp only [hpar]
    | markup lines | textInput name' | checkbox name' | selectedIndex name' | select name' => rfl

theorem formData_congr (b : Browser) {page : List Node}
    (h : ∀ node ∈ page, v (text node.param) = v' (text node.param)) :
    formData b v page = formData b v' page := by
  induction page with
  | nil => rfl
  | cons node page ih =>
    obtain ⟨hnode, hpage⟩ := List.forall_mem_cons.mp h
    have hdata : node.data b v page = node.data b v' page := by
      cases node with
      | markup lines | selectedIndex name => rfl
      | textInput name | select name =>
        have hname : v (text name) = v' (text name) := hnode
        simp only [Node.data, hname]
      | checkbox name =>
        have hname : Checked v name ↔ Checked v' name := checked_congr hnode
        simp only [Node.data, hname]
      | radio name value par =>
        have hpar : Checked v par ↔ Checked v' par := checked_congr hnode
        simp only [Node.data, hpar, checkedLater_congr name hpage]
    rw [formData, formData, hdata, ih hpage]

theorem setupControls_param : ∀ node ∈ setupControls, node.param ∈ setupParams.map Prod.fst := by
  decide

/-- The request depends on the parameters of the page only. -/
theorem requestBody_congr (b : Browser)
    (h : ∀ p ∈ setupParams, v (text p.1) = v' (text p.1)) :
    requestBody b v = requestBody b v' := by
  unfold requestBody
  rw [formData_setupHtml, formData_setupHtml]
  congr 2
  apply formData_congr b
  intro node hnode
  obtain ⟨p, hp, hname⟩ := List.mem_map.mp (setupControls_param node hnode)
  exact hname ▸ h p hp

end

/-- The fields of the request. -/
def sentFields (b : Browser) (v : List UInt8 → List UInt8) : List (List UInt8 × List UInt8) :=
  (formData b v setupControls).map fun f => (text f.1, f.2)

/-- The text that the request has for a name. -/
def sentText (b : Browser) (v : List UInt8 → List UInt8) (key : String) : List UInt8 :=
  ((formData b v setupControls).lookup key).elim [] encode

section

variable (b : Browser) (v : List UInt8 → List UInt8)

theorem requestBody_eq : requestBody b v = body (sentFields b v) := by
  rw [requestBody, formData_setupHtml, sentFields]

theorem lookup_map_text (fields : List (String × List UInt8)) (key : String) :
    (fields.map fun f => (text f.1, f.2)).lookup (text key) = fields.lookup key := by
  induction fields with
  | nil => rfl
  | cons f fields ih =>
    rw [List.map_cons, List.lookup_cons, List.lookup_cons, ih]
    by_cases hkey : key = f.1
    · rw [hkey, beq_self_eq_true, beq_self_eq_true]
    · rw [beq_false_of_ne hkey, beq_false_of_ne fun h => hkey (text_inj.mp h)]

theorem mem_sentFields {f : List UInt8 × List UInt8} (h : f ∈ sentFields b v) :
    ∃ node ∈ setupControls, f.1 = text node.name := by
  obtain ⟨g, hg, rfl⟩ := List.mem_map.mp h
  obtain ⟨node, rest, hnode, hdata⟩ := mem_formData hg
  exact ⟨node, hnode, congrArg text (Node.data_name hdata)⟩

theorem namesOk_sentFields : NamesOk (sentFields b v) := by
  have hnames : ∀ node ∈ setupControls, 0x26 ∉ text node.name ∧ 0x3D ∉ text node.name := by decide
  intro f hf
  obtain ⟨node, hnode, hname⟩ := mem_sentFields b v hf
  exact hname ▸ hnames node hnode

theorem nul_not_mem_sentFields : 0 ∉ body (sentFields b v) := by
  have hnames : ∀ node ∈ setupControls, 0 ∉ text node.name := by decide
  apply not_mem_body (by decide) (by decide)
  intro f hf
  obtain ⟨node, hnode, hname⟩ := mem_sentFields b v hf
  exact hname ▸ hnames node hnode

theorem findparam_sentFields (hfits : FormFits (sentFields b v)) (key : String) :
    findparam (body (sentFields b v)) (text key) = some (sentText b v key) := by
  rw [findparam_body (namesOk_sentFields b v) hfits, sentFields, lookup_map_text, sentText]

/-- The page has no control with the name `KEEP`, so `findparam` reads the whole form for it. -/
theorem formFits_of_saveForm {c : Config} (h : saveForm (body (sentFields b v)) = some c) :
    FormFits (sentFields b v) := by
  unfold saveForm at h
  obtain ⟨mqtt, -, h⟩ := Option.bind_eq_some_iff.mp h
  obtain ⟨mqttServer, -, h⟩ := Option.bind_eq_some_iff.mp h
  obtain ⟨devid, -, h⟩ := Option.bind_eq_some_iff.mp h
  obtain ⟨keep, hkeep, -⟩ := Option.bind_eq_some_iff.mp h
  have hnames : ∀ node ∈ setupControls, text node.name ≠ text "KEEP" := by decide
  refine formFits_of_findparam (namesOk_sentFields b v) (fun f hf => ?_) hkeep
  obtain ⟨node, hnode, hname⟩ := mem_sentFields b v hf
  exact hname ▸ hnames node hnode

theorem saveForm_sentFields {c : Config} :
    saveForm (body (sentFields b v)) = some c ↔
      FormFits (sentFields b v) ∧ Stores (sentText b v) c := by
  constructor
  · intro h
    have hfits := formFits_of_saveForm b v h
    exact ⟨hfits, (saveForm_eq_some (findparam_sentFields b v hfits)).mp h⟩
  · rintro ⟨hfits, hstores⟩
    exact (saveForm_eq_some (findparam_sentFields b v hfits)).mpr hstores

end

/-! ### The values of the parameters -/

/-- The parameters that are numbers. -/
def numberParams : List (String × (Config → UInt8)) :=
  [("TUS1", (·.glob.tus1)), ("TUS2", (·.glob.tus2)), ("TUS3", (·.glob.tus3)),
    ("DEVID", (·.glob.deviceId)), ("POW1", (·.glob.pow1)), ("POW2", (·.glob.pow2)),
    ("POW3", (·.glob.pow3)), ("CHAN", (·.net.channel)), ("WRET", (·.net.wifiMaximumRetry))]

/-- The texts that are saved as they are sent. -/
def sentParams : List (String × (Config → List UInt8)) :=
  [("MQTT", (·.glob.mqttServer.bytes)), ("IP", (·.net.ip.bytes)),
    ("NETMASK", (·.net.netmask.bytes)), ("GATEWAY", (·.net.gateway.bytes)),
    ("DNS1", (·.net.dns.bytes)), ("DNS2", (·.net.backupDns.bytes))]

/-- The texts that are decoded before they are saved. -/
def decodedParams : List (String × (Config → List UInt8)) :=
  [("SSID", (·.net.wifiSsid.bytes)), ("PASS", (·.net.wifiPass.bytes))]

/-- The parameters that check a control. -/
def checkParams : List (String × (Config → Bool)) :=
  [("WEB", (·.glob.httpStart = 1)), ("TCP", (·.glob.tcpserverStart = 1)),
    ("TSYNC", (·.glob.timeSync = 1)), ("OUT1", (·.net.wanType = 1)), ("OUT2", (·.net.wanType = 2)),
    ("GETIP1", (·.net.ipstat = 1)), ("GETIP2", (·.net.ipstat = 2))]

theorem setupParams_kinds : ∀ p ∈ setupParams,
    (p.2 = 0x27 ∨ p.2 = 0x3B) ∧ p.1 ∈ numberParams.map Prod.fst ∨
      p.2 = 0x27 ∧ p.1 ∈ (sentParams ++ decodedParams).map Prod.fst ∨
      (p.2 = 0x2F ∨ p.2 = 0x20) ∧ p.1 ∈ checkParams.map Prod.fst := by
  decide

section

variable (c : Config)

theorem shown_number : ∀ p ∈ numberParams, shown c (text p.1) = decimal (p.2 c).toNat := by
  simp [numberParams, shown, printed, decimal_ne_nil]

theorem shown_text : ∀ p ∈ sentParams ++ decodedParams,
    shown c (text p.1) = shownText p.1 (p.2 c) := by
  simp [sentParams, decodedParams, shown, shownText, printed]

theorem shown_check : ∀ p ∈ checkParams, shown c (text p.1) = checkedText (p.2 c) := by
  have hne : ∀ on, checkedText on ≠ [] := by decide
  simp [checkParams, shown, printed, hne]

end

/-- The numbers that the form lets the user choose are among those that it offers. -/
structure InForm (c : Config) : Prop where
  tus1 : c.glob.tus1 < 14
  tus2 : c.glob.tus2 < 14
  tus3 : c.glob.tus3 < 14
  wanType : c.net.wanType = 1 ∨ c.net.wanType = 2
  ipstat : c.net.ipstat = 1 ∨ c.net.ipstat = 2
  httpStart : c.glob.httpStart = 0 ∨ c.glob.httpStart = 1
  tcpserverStart : c.glob.tcpserverStart = 0 ∨ c.glob.tcpserverStart = 1
  timeSync : c.glob.timeSync = 0 ∨ c.glob.timeSync = 1

/-- The texts have no quote and no `&` in them. -/
def NoQuotes (c : Config) : Prop :=
  ∀ p ∈ sentParams ++ decodedParams, 0x22 ∉ p.2 c ∧ 0x27 ∉ p.2 c ∧ 0x26 ∉ p.2 c

instance : DecidablePred NoQuotes := fun c =>
  inferInstanceAs (Decidable (∀ p ∈ sentParams ++ decodedParams,
    0x22 ∉ p.2 c ∧ 0x27 ∉ p.2 c ∧ 0x26 ∉ p.2 c))

/-- The values that `replace` prints stay where the page has them. -/
theorem allowed_shown {c : Config} (hquotes : NoQuotes c) :
    ∀ p ∈ setupParams, Allowed p.2 (shown c (text p.1)) := by
  intro p hp
  rcases setupParams_kinds p hp with ⟨hnext, hname⟩ | ⟨hnext, hname⟩ | ⟨hnext, hname⟩
  · obtain ⟨q, hq, hname⟩ := List.mem_map.mp hname
    rw [← hname, shown_number c q hq]
    have hdigits : ∀ x ∈ decimal (q.2 c).toNat, IsDigit x := fun _ => isDigit_of_mem_decimal
    rcases hnext with hnext | hnext <;> rw [hnext]
    · exact ⟨fun h => absurd (hdigits _ h) (by decide), fun h => absurd (hdigits _ h) (by decide)⟩
    · exact hdigits
  · obtain ⟨q, hq, hname⟩ := List.mem_map.mp hname
    rw [← hname, shown_text c q hq, hnext]
    have hnames : ∀ q ∈ sentParams ++ decodedParams, 0x27 ∉ text q.1 ∧ 0x26 ∉ text q.1 := by decide
    unfold shownText
    split
    · exact hnames q hq
    · exact (hquotes q hq).2
  · obtain ⟨q, hq, hname⟩ := List.mem_map.mp hname
    rw [← hname, shown_check c q hq]
    have hchecked : ∀ on, checkedText on = text "checked" ∨ checkedText on = text " " := by decide
    rcases hnext with hnext | hnext <;> rw [hnext] <;> exact hchecked _

/-- What a save of the page needs. -/
theorem savedUnchanged_iff {b : Browser} {c : Config} (hquotes : NoQuotes c) :
    SavedUnchanged b c ↔ (∀ p ∈ setupParams, Fits c (text p.1)) ∧
      FormFits (sentFields b (shown c)) ∧ Stores (sentText b (shown c)) c := by
  have hsave : saveHandler c (requestBody b (shown c)).length (requestBody b (shown c)) =
      some (.ok, c) ↔ FormFits (sentFields b (shown c)) ∧ Stores (sentText b (shown c)) c := by
    rw [requestBody_eq, saveHandler_eq_ok (nul_not_mem_sentFields b _), saveForm_sentFields]
    have hsize : scratchBufsize = 12288 := rfl
    refine and_iff_right_of_imp fun h => ?_
    have hlen := h.1.1
    omega
  constructor
  · rintro ⟨html, d, v, hpage, hinPage, hsaved⟩
    obtain ⟨hfits, hhtml⟩ := findReplace_setupHtml.mp ⟨d, hpage⟩
    have hbody : requestBody b v = requestBody b (shown c) :=
      requestBody_congr b (hinPage.eq ⟨hhtml, allowed_shown hquotes⟩)
    rw [hbody] at hsaved
    exact ⟨hfits, hsave.mp hsaved⟩
  · rintro ⟨hfits, hsaved⟩
    obtain ⟨d, hpage⟩ := findReplace_setupHtml.mpr ⟨hfits, rfl⟩
    exact ⟨_, d, shown c, hpage, ⟨rfl, allowed_shown hquotes⟩, hsave.mpr hsaved⟩

end DaliController.Http
