import DaliController.Http.Setup

/-! The configurations that a save of the unchanged page keeps.  Each control sends the number, the
text or the choice that the page shows, so the fields with a control come back if their texts do. -/

namespace DaliController.Http

open CString Decimal FormData

/-! ### The texts in the request -/

section

variable (b : Browser) (v : List UInt8 → List UInt8)

theorem sentText_textInput : ∀ name, .textInput name ∈ setupControls →
    sentText b v name = encode (b.shows (v (text name))) := by
  simp [setupControls, sentText, lookup_formData_cons, Node.name, Node.data]

theorem sentText_checkbox : ∀ name, .checkbox name ∈ setupControls →
    sentText b v name = (if Checked v name then some (text "on") else none).elim [] encode := by
  simp [setupControls, sentText, lookup_formData_cons, Node.name, Node.data, formData.eq_1,
    apply_ite (Option.map _)]

theorem sentText_select : ∀ name, .select name ∈ setupControls →
    sentText b v name =
      (tusOptionTexts[digitsValue (v (text name))]?.map (text ·.1)).elim [] encode := by
  simp [setupControls, sentText, lookup_formData_cons, Node.name, Node.data, formData.eq_1,
    Function.comp_def]

/-- The two groups of radio buttons, with the parameters of their buttons. -/
def radioGroups : List (String × String × String) :=
  [("OUT", "OUT1", "OUT2"), ("GETIP", "GETIP1", "GETIP2")]

theorem sentText_radio : ∀ g ∈ radioGroups,
    sentText b v g.1 = if Checked v g.2.2 then encode (text "2")
      else (if Checked v g.2.1 then some (text "1") else none).elim [] encode := by
  rw [radioGroups, List.forall_mem_cons, List.forall_mem_singleton]
  constructor
  · by_cases h : Checked v "OUT2" <;>
      simp [setupControls, sentText, lookup_formData_cons, Node.name, Node.data, formData.eq_1,
        checkedLater, h, apply_ite (Option.map _)]
  · by_cases h : Checked v "GETIP2" <;>
      simp [setupControls, sentText, lookup_formData_cons, Node.name, Node.data, formData.eq_1,
        checkedLater, h, apply_ite (Option.map _)]

/-- A name that no control has is not sent. -/
theorem sentText_of_ne {name : String} (h : ∀ node ∈ setupControls, node.name ≠ name) :
    sentText b v name = [] := by
  have hnone : (formData b v setupControls).lookup name = none := by
    refine List.lookup_eq_none_iff.mpr fun f hf => ?_
    obtain ⟨node, rest, hnode, hdata⟩ := mem_formData hf
    rw [Node.data_name hdata]
    exact bne_iff_ne.mpr (h node hnode).symm
  rw [sentText, hnone]
  rfl

end

/-! ### The fields that come back -/

theorem atoiInt_decimal {n : Nat} (h : n < 2147483648) : atoiInt (decimal n) = n := by
  unfold atoiInt
  rw [atoi_decimal]
  omega

theorem ofInt_atoiInt_decimal (n : UInt8) : UInt8.ofInt (atoiInt (decimal n.toNat)) = n := by
  have hlt := n.toNat_lt
  have hmod : ((n.toNat : Int) % 2 ^ 8).toNat = n.toNat := by omega
  rw [atoiInt_decimal (by omega), UInt8.ofInt, hmod, UInt8.ofNat_toNat]

theorem checkedPow_eq (pow : UInt8) : checkedPow pow = pow := by
  refine if_neg fun h => ?_
  have hlt := UInt8.lt_iff_toNat_lt.mp h.1
  have hgt := UInt8.lt_iff_toNat_lt.mp h.2
  have h30 : (30 : UInt8).toNat = 30 := rfl
  have h254 : (254 : UInt8).toNat = 254 := rfl
  omega

section

variable (b : Browser) (c : Config)

theorem number_comesBack : ∀ p ∈ numberParams, .textInput p.1 ∈ setupControls →
    UInt8.ofInt (atoiInt (sentText b (shown c) p.1)) = p.2 c := by
  intro p hp hinput
  rw [sentText_textInput b _ _ hinput, shown_number c p hp, encode_shows_decimal,
    ofInt_atoiInt_decimal]

theorem select_comesBack : ∀ p ∈ numberParams, .select p.1 ∈ setupControls → p.2 c < 14 →
    UInt8.ofInt (atoiInt (sentText b (shown c) p.1)) = p.2 c := by
  intro p hp hselect hlt
  have hoptions : ∀ n : UInt8, n < 14 → UInt8.ofInt (atoiInt
      ((tusOptionTexts[n.toNat]?.map (text ·.1)).elim [] encode)) = n := by
    decide +kernel
  rw [sentText_select b _ _ hselect, shown_number c p hp, digitsValue_decimal]
  exact hoptions _ hlt

theorem checked_shown : ∀ p ∈ checkParams, (Checked (shown c) p.1 ↔ p.2 c = true) := by
  have hchecked : ∀ on, checkedText on = text "checked" ↔ on = true := by decide
  intro p hp
  rw [Checked, shown_check c p hp]
  exact hchecked _

theorem checkbox_comesBack : ∀ p ∈ checkParams, .checkbox p.1 ∈ setupControls →
    switched (sentText b (shown c) p.1) = if p.2 c then 1 else 0 := by
  intro p hp hcheckbox
  rw [sentText_checkbox b _ _ hcheckbox]
  simp only [checked_shown c p hp]
  cases p.2 c <;> decide

theorem sent_comesBack : ∀ p ∈ sentParams,
    (p.2 c = sentText b (shown c) p.1 ↔ p.2 c ≠ [] ∧ ∀ x ∈ p.2 c, Plain x) := by
  have hnames : ∀ p ∈ sentParams, .textInput p.1 ∈ setupControls ∧ text p.1 ≠ [] ∧
      ∀ x ∈ text p.1, Plain x := by decide +kernel
  intro p hp
  obtain ⟨hinput, hne, hplain⟩ := hnames p hp
  rw [sentText_textInput b _ _ hinput, shown_text c p (List.mem_append_left _ hp)]
  exact encode_shows_shownText b hne hplain

theorem decoded_comesBack : ∀ p ∈ decodedParams, 0 ∉ p.2 c →
    (p.2 c = urlDecode (replacechar (sentText b (shown c) p.1) 0x2B 0x20) ↔
      p.2 c ≠ [] ∧ IsText (p.2 c)) := by
  have hnames : ∀ p ∈ decodedParams, .textInput p.1 ∈ setupControls ∧ text p.1 ≠ [] ∧
      ∀ x ∈ text p.1, Plain x := by decide +kernel
  intro p hp hnul
  obtain ⟨hinput, hne, hplain⟩ := hnames p hp
  rw [sentText_textInput b _ _ hinput, shown_text c p (List.mem_append_right _ hp)]
  exact urlDecode_shows_shownText b hne hplain hnul

end

/-! ### The configurations -/

/-- The fields without a control have the value 0, and the texts are those that come back. -/
structure ComesBack (c : Config) : Prop where
  mqttKeepalive : c.glob.mqttKeepalive = 0
  projectNumber : c.glob.projectNumber = 0
  comminication : c.glob.comminication = 0
  daliserverStart : c.glob.daliserverStart = 0
  sent : ∀ p ∈ sentParams, p.2 c ≠ [] ∧ ∀ x ∈ p.2 c, Plain x
  decoded : ∀ p ∈ decodedParams, p.2 c ≠ [] ∧ IsText (p.2 c)

/-- The configurations that a save of the unchanged page keeps: the texts also fit into the buffers
of `findparam`. -/
structure SavedAlike (c : Config) : Prop extends ComesBack c where
  mqttServer_length : c.glob.mqttServer.bytes.length < 45
  decoded_length : ∀ p ∈ decodedParams, (encode (p.2 c)).length < 45

section

variable {b : Browser} {c : Config}

theorem nul_not_mem_decoded : ∀ p ∈ decodedParams, 0 ∉ p.2 c := by
  rw [decodedParams, List.forall_mem_cons, List.forall_mem_singleton]
  exact ⟨c.net.wifiSsid.nul_free, c.net.wifiPass.nul_free⟩

theorem Stores.comesBack (h : Stores (sentText b (shown c)) c) : ComesBack c where
  mqttKeepalive := h.mqttKeepalive.trans (by rw [sentText_of_ne b _ (by decide)]; rfl)
  projectNumber := h.projectNumber.trans (by rw [sentText_of_ne b _ (by decide)]; rfl)
  comminication := h.comminication.trans (by rw [sentText_of_ne b _ (by decide)]; rfl)
  daliserverStart := h.daliserverStart.trans (by rw [sentText_of_ne b _ (by decide)]; rfl)
  sent := by
    have hsent : ∀ p ∈ sentParams, p.2 c = sentText b (shown c) p.1 := by
      simp only [sentParams, List.forall_mem_cons]
      exact ⟨h.mqttServer, h.ip, h.netmask, h.gateway, h.dns, h.backupDns, List.forall_mem_nil _⟩
    exact fun p hp => (sent_comesBack b c p hp).mp (hsent p hp)
  decoded := by
    have hdecoded : ∀ p ∈ decodedParams,
        p.2 c = urlDecode (replacechar (sentText b (shown c) p.1) 0x2B 0x20) := by
      simp only [decodedParams, List.forall_mem_cons]
      exact ⟨h.wifiSsid, h.wifiPass, List.forall_mem_nil _⟩
    exact fun p hp => (decoded_comesBack b c p hp (nul_not_mem_decoded p hp)).mp (hdecoded p hp)

/-- The choice of a radio button comes back. -/
theorem radio_comesBack {value : UInt32} (hvalue : value = 1 ∨ value = 2)
    {g : String × String × String} (hg : g ∈ radioGroups) (h1 : Checked (shown c) g.2.1 ↔ value = 1)
    (h2 : Checked (shown c) g.2.2 ↔ value = 2) :
    value = UInt32.ofInt (atoiInt (sentText b (shown c) g.1)) := by
  rw [sentText_radio b _ g hg]
  simp only [h1, h2]
  rcases hvalue with rfl | rfl <;> decide

theorem ComesBack.stores (h : ComesBack c) (hform : InForm c) :
    Stores (sentText b (shown c)) c := by
  have hsent : ∀ p ∈ sentParams, p.2 c = sentText b (shown c) p.1 :=
    fun p hp => (sent_comesBack b c p hp).mpr (h.sent p hp)
  have hdecoded : ∀ p ∈ decodedParams,
      p.2 c = urlDecode (replacechar (sentText b (shown c) p.1) 0x2B 0x20) :=
    fun p hp => (decoded_comesBack b c p hp (nul_not_mem_decoded p hp)).mpr (h.decoded p hp)
  have hnumber := number_comesBack b c
  have hselect := select_comesBack b c
  have hcheckbox := checkbox_comesBack b c
  have hchecked := checked_shown c
  simp only [sentParams, decodedParams, numberParams, checkParams, List.forall_mem_cons]
    at hsent hdecoded hnumber hselect hcheckbox hchecked
  obtain ⟨hmqtt, hip, hnetmask, hgateway, hdns1, hdns2, -⟩ := hsent
  obtain ⟨hssid, hpass, -⟩ := hdecoded
  obtain ⟨-, -, -, hdevid, hpow1, hpow2, hpow3, hchan, hwret, -⟩ := hnumber
  obtain ⟨htus1, htus2, htus3, -⟩ := hselect
  obtain ⟨hweb, htcp, htsync, -⟩ := hcheckbox
  obtain ⟨-, -, -, hout1, hout2, hgetip1, hgetip2, -⟩ := hchecked
  have hnone {name : String} (hname : ∀ node ∈ setupControls, node.name ≠ name) :
      sentText b (shown c) name = [] := sentText_of_ne b (shown c) hname
  have hswitch {on : UInt8} (hon : on = 0 ∨ on = 1) : on = if on = 1 then 1 else 0 := by
    rcases hon with rfl | rfl <;> rfl
  constructor
  case mqttServer => exact hmqtt
  case deviceId => exact (hdevid (by decide)).symm
  case mqttKeepalive => rw [hnone (by decide), h.mqttKeepalive]; rfl
  case comminication => rw [hnone (by decide), h.comminication]; rfl
  case pow1 => rw [hpow1 (by decide), checkedPow_eq]
  case pow2 => rw [hpow2 (by decide), checkedPow_eq]
  case pow3 => rw [hpow3 (by decide), checkedPow_eq]
  case projectNumber => rw [hnone (by decide), h.projectNumber]; rfl
  case wanType =>
    exact radio_comesBack hform.wanType (g := ("OUT", "OUT1", "OUT2")) (by decide)
      (hout1.trans decide_eq_true_iff) (hout2.trans decide_eq_true_iff)
  case channel => exact (hchan (by decide)).symm
  case wifiMaximumRetry => exact (hwret (by decide)).symm
  case tus1 => exact (htus1 (by decide) hform.tus1).symm
  case tus2 => exact (htus2 (by decide) hform.tus2).symm
  case tus3 => exact (htus3 (by decide) hform.tus3).symm
  case ipstat =>
    exact radio_comesBack hform.ipstat (g := ("GETIP", "GETIP1", "GETIP2")) (by decide)
      (hgetip1.trans decide_eq_true_iff) (hgetip2.trans decide_eq_true_iff)
  case ip => exact hip
  case netmask => exact hnetmask
  case gateway => exact hgateway
  case wifiSsid => exact hssid
  case wifiPass => exact hpass
  case dns => exact hdns1
  case backupDns => exact hdns2
  case httpStart =>
    rw [hweb (by decide)]
    simpa using hswitch hform.httpStart
  case tcpserverStart =>
    rw [htcp (by decide)]
    simpa using hswitch hform.tcpserverStart
  case daliserverStart => rw [hnone (by decide), h.daliserverStart]; rfl
  case timeSync =>
    rw [htsync (by decide)]
    simpa using hswitch hform.timeSync

end

/-! ### The buffers -/

/-- The room for the text of an input control. -/
def textRoom (name : String) : Nat :=
  if name ∈ ["MQTT", "SSID", "PASS"] then 44
  else if name ∈ ["IP", "NETMASK", "GATEWAY", "DNS1", "DNS2"] then 16
  else 3

/-- The room for a control in the request, with a delimiter behind it. -/
def Node.room : Node → Nat
  | .markup _ | .selectedIndex _ => 0
  | .textInput name => (text name).length + textRoom name + 2
  | .checkbox name | .select name => (text name).length + 4
  | .radio name value _ => (text name).length + (encode (text value)).length + 2

section

variable {b : Browser} {v : List UInt8 → List UInt8}

/-- A control stays in its room, if a text does. -/
theorem Node.length_data {node : Node} {page : List Node} {f : String × List UInt8}
    (htext : ∀ name, node = .textInput name →
      (encode (b.shows (v (text name)))).length ≤ textRoom name)
    (h : node.data b v page = some f) : (pair (text f.1, f.2)).length + 1 ≤ node.room := by
  have hon : (encode (text "on")).length = 2 := by decide
  have hoptions : ∀ option ∈ tusOptionTexts, (encode (text option.1)).length ≤ 2 := by decide
  rw [length_pair]
  cases node with
  | markup lines | selectedIndex name => cases h
  | textInput name =>
    obtain rfl := Option.some.inj h
    have hlen := htext name rfl
    simp only [room]
    omega
  | checkbox name =>
    obtain ⟨-, heq⟩ := Option.ite_none_right_eq_some.mp h
    obtain rfl := Option.some.inj heq
    simp only [room]
    omega
  | radio name value par =>
    obtain ⟨-, heq⟩ := Option.ite_none_right_eq_some.mp h
    obtain rfl := Option.some.inj heq
    simp only [room]
    omega
  | select name =>
    obtain ⟨option, hoption, rfl⟩ := Option.map_eq_some_iff.mp h
    have hlen := hoptions option (List.mem_of_getElem? hoption)
    simp only [room]
    omega

theorem length_formData {page : List Node}
    (htext : ∀ name, .textInput name ∈ page →
      (encode (b.shows (v (text name)))).length ≤ textRoom name) :
    ((formData b v page).map fun f => (pair (text f.1, f.2)).length + 1).sum ≤
      (page.map Node.room).sum := by
  induction page with
  | nil => exact Nat.le_refl 0
  | cons node page ih =>
    have ih := ih fun name hname => htext name (List.mem_cons_of_mem _ hname)
    rw [formData, List.map_append, List.sum_append, List.map_cons, List.sum_cons]
    refine Nat.add_le_add ?_ ih
    cases hdata : node.data b v page with
    | none => exact Nat.zero_le _
    | some f =>
      have hnode : ∀ name, node = .textInput name →
          (encode (b.shows (v (text name)))).length ≤ textRoom name :=
        fun name hname => htext name (hname ▸ List.mem_cons_self)
      have hlen := Node.length_data hnode hdata
      simpa using hlen

/-- The request fits into the buffers of `findparam`, if the texts stay in their rooms. -/
theorem formFits_of_room
    (htext : ∀ name, .textInput name ∈ setupControls →
      (encode (b.shows (v (text name)))).length ≤ textRoom name) :
    FormFits (sentFields b v) := by
  have hsum : (setupControls.map Node.room).sum < 400 := by decide +kernel
  have hroom : ∀ node ∈ setupControls, node.room ≤ 50 := by decide +kernel
  constructor
  · have hbody := length_body_le (sentFields b v)
    have hlen := length_formData htext
    rw [sentFields, List.map_map] at hbody
    exact Nat.lt_of_le_of_lt (hbody.trans hlen) hsum
  · intro f hf
    obtain ⟨g, hg, rfl⟩ := List.mem_map.mp hf
    obtain ⟨node, rest, hnode, hdata⟩ := mem_formData hg
    have hlen := Node.length_data (fun name hname => htext name (hname ▸ hnode)) hdata
    exact Nat.lt_of_lt_of_le hlen (hroom node hnode)

/-- An input control is always sent. -/
theorem textInput_mem_sentFields {name : String} (h : .textInput name ∈ setupControls) :
    (text name, b.shows (v (text name))) ∈ sentFields b v := by
  have hdata : ∀ page, .textInput name ∈ page →
      (name, b.shows (v (text name))) ∈ formData b v page := by
    intro page hpage
    induction page with
    | nil => cases hpage
    | cons node page ih =>
      rcases List.mem_cons.mp hpage with rfl | hpage
      · exact List.mem_cons_self
      · exact List.mem_append_right _ (ih hpage)
  exact List.mem_map_of_mem (hdata _ h)

theorem length_decimal_le (n : UInt8) : (decimal n.toNat).length ≤ 3 := by
  revert n
  decide +kernel

variable {c : Config}

/-- The texts that are sent as they are stay in their rooms. -/
theorem length_sent_le (h : c.glob.mqttServer.bytes.length < 45) :
    ∀ p ∈ sentParams, (p.2 c).length ≤ textRoom p.1 := by
  have hfits {x : CharArray 17} : x.bytes.length ≤ 16 := Nat.le_of_lt_succ x.fits
  simp only [sentParams, List.forall_mem_cons]
  exact ⟨Nat.le_of_lt_succ h, hfits, hfits, hfits, hfits, hfits, List.forall_mem_nil _⟩

theorem textInput_params : ∀ name, .textInput name ∈ setupControls →
    name ∈ numberParams.map Prod.fst ∨ name ∈ sentParams.map Prod.fst ∨
      name ∈ decodedParams.map Prod.fst := by
  simp [setupControls, numberParams, sentParams, decodedParams]

theorem textRoom_params :
    (∀ p ∈ numberParams, 3 ≤ textRoom p.1) ∧ ∀ p ∈ decodedParams, textRoom p.1 = 44 := by
  decide

/-- The texts of a configuration that comes back stay in their rooms. -/
theorem SavedAlike.length_encode_le (h : SavedAlike c) :
    ∀ name, .textInput name ∈ setupControls →
      (encode (b.shows (shown c (text name)))).length ≤ textRoom name := by
  intro name hname
  rcases textInput_params name hname with hkind | hkind | hkind <;>
    obtain ⟨p, hp, rfl⟩ := List.mem_map.mp hkind
  · rw [shown_number c p hp, encode_shows_decimal]
    exact (length_decimal_le _).trans (textRoom_params.1 p hp)
  · have hsent := (sent_comesBack b c p hp).mpr (h.sent p hp)
    rw [← sentText_textInput b _ _ hname, ← hsent]
    exact length_sent_le h.mqttServer_length p hp
  · obtain ⟨hne, htext⟩ := h.decoded p hp
    rw [shown_text c p (List.mem_append_right _ hp), shownText, if_neg hne,
      b.shows_of_isText _ htext, textRoom_params.2 p hp]
    exact Nat.le_of_lt_succ (h.decoded_length p hp)

/-- The parameters fit into their blocks. -/
theorem SavedAlike.fits (h : SavedAlike c) : ∀ p ∈ setupParams, Fits c (text p.1) := by
  have hsize : paramTemp = 60 := rfl
  have hnames : ∀ p ∈ setupParams, (text p.1).length < paramTemp := by decide
  have hshown : ∀ p ∈ setupParams, (shown c (text p.1)).length < paramTemp := by
    intro p hp
    rcases setupParams_kinds p hp with ⟨-, hname⟩ | ⟨-, hname⟩ | ⟨-, hname⟩ <;>
      obtain ⟨q, hq, hname⟩ := List.mem_map.mp hname <;> rw [← hname]
    · rw [shown_number c q hq]
      have hlen := length_decimal_le (q.2 c)
      omega
    · rw [shown_text c q hq]
      rcases List.mem_append.mp hq with hsent | hdecoded
      · have hroom : ∀ p ∈ sentParams, textRoom p.1 < paramTemp := by decide
        rw [shownText, if_neg (h.sent q hsent).1]
        exact Nat.lt_of_le_of_lt (length_sent_le h.mqttServer_length q hsent) (hroom q hsent)
      · have hlen := length_encode (q.2 c)
        have hlt := h.decoded_length q hdecoded
        rw [shownText, if_neg (h.decoded q hdecoded).1]
        omega
    · have hlen : ∀ on, (checkedText on).length < paramTemp := by decide
      rw [shown_check c q hq]
      exact hlen _
  intro p hp
  refine ⟨hnames p hp, ?_⟩
  have hlen := hshown p hp
  unfold shown at hlen
  split at hlen
  · rename_i hnil
    rw [hnil]
    exact Nat.succ_pos 59
  · exact hlen

end

/-- **Saving the unchanged page** keeps the configuration exactly if it is one that comes back. -/
theorem savedUnchanged_iff_savedAlike (b : Browser) (c : Config) (hform : InForm c)
    (hquotes : NoQuotes c) : SavedUnchanged b c ↔ SavedAlike c := by
  rw [savedUnchanged_iff hquotes]
  constructor
  · rintro ⟨-, hfits, hstores⟩
    have hback := hstores.comesBack
    have hsent (name : String) (h : .textInput name ∈ setupControls) :
        (text name).length + (sentText b (shown c) name).length + 1 < 50 := by
      have hlen := hfits.2 _ (textInput_mem_sentFields h)
      rwa [length_pair, ← sentText_textInput b _ _ h] at hlen
    refine { hback with mqttServer_length := ?_, decoded_length := fun p hp => ?_ }
    · have hlen := hsent "MQTT" (by decide)
      rw [← hstores.mqttServer] at hlen
      have hname : (text "MQTT").length = 4 := by decide
      omega
    · have hname : ∀ p ∈ decodedParams,
          (text p.1).length = 4 ∧ .textInput p.1 ∈ setupControls := by decide
      obtain ⟨hfour, hinput⟩ := hname p hp
      obtain ⟨hne, htext⟩ := hback.decoded p hp
      have hlen := hsent p.1 hinput
      rw [sentText_textInput b _ _ hinput, shown_text c p (List.mem_append_right _ hp), shownText,
        if_neg hne, b.shows_of_isText _ htext] at hlen
      omega
  · intro h
    exact ⟨h.fits, formFits_of_room h.length_encode_le, h.toComesBack.stores hform⟩

/-- A browser that shows the texts that it can show, and leaves the other controls empty. -/
def utf8Browser : Browser where
  shows xs := if IsText xs then xs else []
  shows_of_isText xs h := if_pos h
  isText_shows xs _ := by
    split
    · assumption
    · exact isText_of_plain (List.forall_mem_nil _)

/-- The default configuration, without what the page does not keep. -/
def keptConfig : Config :=
  { defaultConfig with
    glob :=
      { defaultConfig.glob with mqttKeepalive := 0, projectNumber := 0, daliserverStart := 0 } }

theorem keptConfig_savedUnchanged :
    InForm keptConfig ∧ NoQuotes keptConfig ∧ SavedUnchanged utf8Browser keptConfig := by
  have hform : InForm keptConfig := by constructor <;> decide
  have hquotes : NoQuotes keptConfig := by decide
  refine ⟨hform, hquotes, (savedUnchanged_iff_savedAlike _ _ hform hquotes).mpr ?_⟩
  have hdecoded : ∀ p ∈ decodedParams, p.2 keptConfig ≠ [] ∧ ∀ x ∈ p.2 keptConfig, Plain x := by
    decide +kernel
  exact
    { mqttKeepalive := rfl
      projectNumber := rfl
      comminication := rfl
      daliserverStart := rfl
      sent := by decide +kernel
      decoded := fun p hp => ⟨(hdecoded p hp).1, isText_of_plain (hdecoded p hp).2⟩
      mqttServer_length := by decide
      decoded_length := by decide +kernel }

/-- The default configuration has a keep-alive time, a project number and a server for which the
page has no controls. -/
theorem defaultConfig_not_savedUnchanged :
    InForm defaultConfig ∧ NoQuotes defaultConfig ∧ ¬SavedUnchanged utf8Browser defaultConfig := by
  have hform : InForm defaultConfig := by constructor <;> decide
  have hquotes : NoQuotes defaultConfig := by decide
  refine ⟨hform, hquotes, fun h => ?_⟩
  have hkeep := ((savedUnchanged_iff hquotes).mp h).2.2.comesBack.mqttKeepalive
  exact absurd hkeep (by decide)

end DaliController.Http
