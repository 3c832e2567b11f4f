import DaliController.Http.FindReplace

/-! The setup page.  `setup.html` has a form with controls whose values are parameters, between
lines of markup that have none.  `find_replace` fills in all the parameters of the page, if the
values fit. -/

namespace DaliController.Http

open Decimal Template

/-! ### The file -/

/-- The options of a button, with their values. -/
def tusOptionTexts : List (String × String) :=
  [("0", "Gurup 1"), ("1", "Gurup 2"), ("2", "Gurup 3"), ("3", "Gurup 4"), ("4", "Gurup 5"),
    ("5", "Gurup 6"), ("6", "Gurup 7"), ("7", "Gurup 8"), ("8", "Senaryo 1"), ("9", "Senaryo 2"),
    ("10", "Senaryo 3"), ("11", "Senaryo 4"), ("12", "Tüm Lambalar"), ("13", "Etkisiz")]

inductive Node
  | markup (lines : List String)
  | textInput (name : String)
  | checkbox (name : String)
  | radio (name value param : String)
  /-- The statement of the script that selects an option of a button. -/
  | selectedIndex (name : String)
  | select (name : String)
  deriving DecidableEq

/-- A part of the source: a text, or a parameter with the character behind it. -/
inductive Part
  | text (s : String)
  | param (name : String) (next : UInt8)

def Node.parts : Node → List Part
  | .markup lines => lines.map .text
  | .textInput name =>
    [.text "<input type='text' name='", .text name, .text "' value='", .param name 0x27,
      .text "/>"]
  | .checkbox name =>
    [.text "<input type='checkbox' name='", .text name, .text "' ", .param name 0x2F, .text ">"]
  | .radio name value par =>
    [.text "<input type='radio' name='", .text name, .text "' value='", .text value, .text "' ",
      .param par 0x20, .text "/>"]
  | .selectedIndex name =>
    [.text "document.getElementById(\"", .text name, .text "\").selectedIndex=",
      .param name 0x3B]
  | .select name =>
    [.text "<select id=\"", .text name, .text "\" name='", .text name, .text "'>\n"] ++
      tusOptionTexts.flatMap (fun (value, label) =>
        [.text "\t\t\t\t\t\t\t\t\t<option value=\"", .text value, .text "\">", .text label,
          .text "</option>\n"]) ++
      [.text "\t\t\t\t\t\t\t\t  </select>"]

/-- The lines from the control in one row of a table to the control in the next one. -/
def nextRow (afterRow afterTr label : String) : List String :=
  ["</td>\n", "\t\t\t\t\t\t</tr>", afterRow, "\n", "\t\t\t\t\t\t<tr>", afterTr, "\n",
    "\t\t\t\t\t\t\t<td style=\"text-align: right;\">", label, "</td>\n",
    "\t\t\t\t\t\t\t<td style=\"text-align: left;\">"]

/-- `setup.html`. -/
def setupHtml : List Node :=
  [.markup
      ["<html>\n", "  <head>\n",
       "    <meta charset='UTF-8'><meta name='viewport' content='width=1024'><meta ",
       "name='viewport' content='width=device-width, initial-scale=0.5'>\n",
       "    <TITLE>SmartQ Setup</TITLE><link rel='stylesheet' type='text/css' ",
       "href='main2.css'>\n",
       "\t<script>\n", "        document\n",
       "            .addEventListener(\"DOMContentLoaded\",\n",
       "                function () \x7b\n", "                    "],
    .selectedIndex "TUS1",
    .markup ["\n", "\t\t\t\t\t"],
    .selectedIndex "TUS2",
    .markup ["\n", "\t\t\t\t\t"],
    .selectedIndex "TUS3",
    .markup
      ["\n", "                \x7d);\n", "    </script>\n", "\n", "  </head>\n", "  <body>\n",
       "\n", "    <div class='container' id='container'>   \n",
       "     <div id='header' class='header'>\n", "       <table class='Headt1' border='0'>\n",
       "         <tr><td align='left' width='17%'> </td>\n",
       "             <td align='left' colspan=5><a><h2>Setup</h2></a>\n", "         </tr>\n",
       "       </table>\n",
       "       <hr style='background-color: #11516e; height: 7px;'/>       \n",
       "       <form  action='/api/save' method='POST' align='center'> \n", "            \n",
       " <table  >\n", "\t<tbody>\n", "\t\t<tr>\n", "\t\t\t<td >\n",
       "\t\t\t\t<table style=\"width: 350px; float: left;\">\n", "\t\t\t\t\t<tbody>\n",
       "\t\t\t\t\t\t<tr>\n",
       "\t\t\t\t\t\t\t<th style=\"background: #1C6EA4;\" colspan=\"2\">Genel</th>\n",
       "\t\t\t\t\t\t</tr>\n", "\t\t\t\t\t\t<tr>\n",
       "\t\t\t\t\t\t\t<td style=\"text-align: right;\">Cihaz Id</td>\n",
       "\t\t\t\t\t\t\t<td style=\"text-align: left;\">"],
    .textInput "DEVID",
    .markup (nextRow "" "" "Mqtt Server"),
    .textInput "MQTT",
    .markup (nextRow "\t\t\t\t\t\t" "" "Web Sayfası"),
    .checkbox "WEB",
    .markup (nextRow "" "" "Tcp Server Start"),
    .checkbox "TCP",
    .markup (nextRow "\t" "" "Time Senkron"),
    .checkbox "TSYNC",
    .markup (nextRow "\n" "" "Anahtar 1" ++ ["\n\t\t\t\t\t\t\t\t"]),
    .select "TUS1",
    .markup ("\n\t\t\t\t\t\t\t" :: nextRow "" "\t" "Güç"),
    .textInput "POW1",
    .markup (nextRow "" "" "Anahtar 2" ++ ["\n\t\t\t\t\t\t\t\t"]),
    .select "TUS2",
    .markup ("\n\t\t\t\t\t\t\t" :: nextRow "\t" "\t" "Güç"),
    .textInput "POW2",
    .markup (nextRow "\t\t\t\t\t\t" "" "Anahtar 3" ++ ["\n\t\t\t\t\t\t\t\t"]),
    .select "TUS3",
    .markup ("\n\t\t\t\t\t\t\t" :: nextRow "\t" "\t" "Güç"),
    .textInput "POW3",
    .markup
      ["</td>\n", "\t\t\t\t\t\t</tr>\n", "\t\t\t\t\t</tbody>\n", "\t\t\t\t</table>\n",
       "\t\t\t</td>\n", "\t\t\t<th>\n", "\t\t\t\t<table style=\"width: 350px;\">\n",
       "\t\t\t\t\t<tbody>\n", "\t\t\t\t\t\t<tr>\n",
       "\t\t\t\t\t\t\t<th style=\"background: #1C6EA4;\" colspan=\"2\">Wan</th>\n",
       "\t\t\t\t\t\t</tr>\n", "\t\t\t\t\t\t<tr>\n",
       "\t\t\t\t\t\t\t<td style=\"text-align: right;\">Wan Cikis Bicimi</td>\n",
       "\t\t\t\t\t\t\t<td style=\"text-align: left;\"> \n", "\t\t\t\t\t\t\t   <label>"],
    .radio "OUT" "1" "OUT1",
    .markup ["Ethernet</label><br/>\n", "\t\t                       <label>"],
    .radio "OUT" "2" "OUT2",
    .markup
      ["Wireless</label><br/>\n", "\t\t\t\t\t\t\t</td>\n", "\t\t\t\t\t\t</tr>\n",
       "\t\t\t\t\t\t<tr>\n",
       "\t\t\t\t\t\t\t<th style=\"background: #1C6EA4;\" colspan=\"2\">Ethernet</th>\n",
       "\t\t\t\t\t\t</tr>\n", "\t\t\t\t\t\t<tr>\n",
       "\t\t\t\t\t\t\t<td style=\"text-align: right;\">IP Alma Şekli</td>\n",
       "\t\t\t\t\t\t\t<td style=\"text-align: left;\">\n", "\t\t\t\t\t\t\t   <label>"],
    .radio "GETIP" "1" "GETIP1",
    .markup ["Statik</label><br/>\n", "\t\t                       <label>"],
    .radio "GETIP" "2" "GETIP2",
    .markup
      ["Dinamik</label><br/>\n", "\t\t\t\t\t\t\t</td>\n", "\t\t\t\t\t\t</tr>\n",
       "\t\t\t\t\t\t<tr>\n", "\t\t\t\t\t\t\t<td style=\"text-align: right;\">Ip</td>\n",
       "\t\t\t\t\t\t\t<td style=\"text-align: left;\">"],
    .textInput "IP",
    .markup (nextRow "" "" "Netmask"),
    .textInput "NETMASK",
    .markup (nextRow "" "" "Gateway"),
    .textInput "GATEWAY",
    .markup (nextRow "" "" "DNS"),
    .textInput "DNS1",
    .markup (nextRow "" "" "Backup DNS"),
    .textInput "DNS2",
    .markup
      ["</td>\n", "\t\t\t\t\t\t</tr>\n", "\t\t\t\t\t\t<tr>\n",
       "\t\t\t\t\t\t\t<th style=\"background: #1C6EA4;\" colspan=\"2\">Wifi</th>\n",
       "\t\t\t\t\t\t</tr>\n", "\t\t\t\t\t\t<tr>\n",
       "\t\t\t\t\t\t\t<td style=\"text-align: right;\">ssid</td>\n",
       "\t\t\t\t\t\t\t<td style=\"text-align: left;\">"],
    .textInput "SSID",
    .markup (nextRow "" "" "password"),
    .textInput "PASS",
    .markup (nextRow "" "" "Channel"),
    .textInput "CHAN",
    .markup (nextRow "" "" "Wifi Scan Rerty"),
    .textInput "WRET",
    .markup
      ["</td>\n", "\t\t\t\t\t\t</tr>\n", "\t\t\t\t\t</tbody>\n", "\t\t\t\t</table>\n",
       "\t\t\t</th>\n", "\t\t</tr>\n", "\t\t\n", "\t<tr>\n",
       "      <td colspan=2><input style='height:50px; width:100%' type='submit' ",
       "value='SAVE AND RESET'</input></td>\n",
       "      </form>\t\n", "    </tr>\n", "    \n", "    <tr>\n",
       "\t   <form action='/api/default' method='POST' align='center'>\t  \n",
       "\t   <td colspan=2><input style='height:50px; width:100%' type='submit' ",
       "value='DEFAULT RESET'</input></td>\n",
       "\t   </form>\n", "\t</tr>\n", "\t<tr>\n",
       "\t  <td colspan='2' align='center'><a href='/'>MAIN PAGE</a> </td>\n", "    </tr>\t\n",
       "\t\t\n", "\t</tbody>\n", "</table>\n", "       \n", "</html>  \n"]]

/-! ### Its text -/

def Part.pieces : Part → List (Piece UInt8)
  | .text s => (Http.text s).map .lit
  | .param name next => [.hole (Http.text name) next]

/-- The pieces of a page. -/
def pagePieces (page : List Node) : List (Piece UInt8) :=
  (page.flatMap Node.parts).flatMap Part.pieces

/-- The bytes of a page. -/
def pageBytes (page : List Node) : List UInt8 :=
  (pagePieces page).flatMap (Piece.source 0x26)

/-- The bytes of a page with values for its parameters. -/
def filledPage (value : List UInt8 → List UInt8) (page : List Node) : List UInt8 :=
  (pagePieces page).flatMap (Piece.render value)

def Part.Clean : Part → Prop
  | .text s | .param s _ => ∀ b ∈ Http.text s, b ≠ 0 ∧ b ≠ 0x26

instance : DecidablePred Part.Clean
  | .text s | .param s _ => inferInstanceAs (Decidable (∀ b ∈ Http.text s, b ≠ 0 ∧ b ≠ 0x26))

def Part.size : Part → Nat
  | .text s => (Http.text s).length
  | .param name _ => (Http.text name).length + 3

def Part.content : Part → String
  | .text s => s
  | .param name _ => name

theorem Part.clean_of_all {p : Part}
    (h : (Http.text p.content).all fun b => b ≠ 0 ∧ b ≠ 0x26) : p.Clean := by
  cases p with
  | text s | param s next =>
    intro b hb
    exact of_decide_eq_true (List.all_eq_true.mp h b hb)

theorem setupHtml_clean : ∀ p ∈ setupHtml.flatMap Node.parts, p.Clean := by
  have hall : (setupHtml.flatMap Node.parts).all fun p =>
      (Http.text p.content).all fun b => b ≠ 0 ∧ b ≠ 0x26 := by decide +kernel
  intro p hp
  exact Part.clean_of_all (List.all_eq_true.mp hall p hp)

theorem setupHtml_size : ((setupHtml.flatMap Node.parts).map Part.size).sum ≤ 8000 := by
  decide +kernel

/-- The parameters of the page, with the characters behind them. -/
def setupParams : List (String × UInt8) :=
  [("TUS1", 0x3B), ("TUS2", 0x3B), ("TUS3", 0x3B), ("DEVID", 0x27), ("MQTT", 0x27), ("WEB", 0x2F),
    ("TCP", 0x2F), ("TSYNC", 0x2F), ("POW1", 0x27), ("POW2", 0x27), ("POW3", 0x27),
    ("OUT1", 0x20), ("OUT2", 0x20), ("GETIP1", 0x20), ("GETIP2", 0x20), ("IP", 0x27),
    ("NETMASK", 0x27), ("GATEWAY", 0x27), ("DNS1", 0x27), ("DNS2", 0x27), ("SSID", 0x27),
    ("PASS", 0x27), ("CHAN", 0x27), ("WRET", 0x27)]

def Part.hole? : Part → Option (String × UInt8)
  | .text _ => none
  | .param name next => some (name, next)

theorem setupHtml_params :
    (setupHtml.flatMap Node.parts).filterMap Part.hole? = setupParams := by decide +kernel

/-- The page, as `find_replace` reads it. -/
def setupTemplate : Parsed UInt8 := ⟨pagePieces setupHtml, none⟩

theorem Part.proper_of_clean {p : Part} (h : p.Clean) : ∀ q ∈ p.pieces, q.Proper 0x26 0 := by
  cases p with
  | text s =>
    intro q hq
    obtain ⟨b, hb, rfl⟩ := List.mem_map.mp hq
    exact h b hb
  | param name next =>
    intro q hq
    obtain rfl := List.mem_singleton.mp hq
    exact ⟨fun hzero => (h 0 hzero).1 rfl, fun hmark => (h 0x26 hmark).2 rfl⟩

theorem setupHtml_proper : ∀ q ∈ pagePieces setupHtml, q.Proper 0x26 0 := by
  intro q hq
  obtain ⟨p, hp, hmem⟩ := List.mem_flatMap.mp hq
  exact Part.proper_of_clean (setupHtml_clean p hp) q hmem

theorem Part.length_source (p : Part) :
    (p.pieces.flatMap (Piece.source 0x26)).length = p.size := by
  cases p with
  | text s =>
    rw [pieces, List.flatMap_map]
    exact congrArg List.length (List.flatMap_singleton' (Http.text s))
  | param name next => simp [pieces, Piece.source, size]

theorem length_setupHtml : (setupTemplate.source 0x26).length ≤ 8000 := by
  have hsource : setupTemplate.source 0x26 =
      (setupHtml.flatMap Node.parts).flatMap fun p => p.pieces.flatMap (Piece.source 0x26) := by
    rw [Parsed.source, setupTemplate, Option.elim_none, List.append_nil, pagePieces,
      List.flatMap_assoc]
  rw [hsource, List.length_flatMap, List.map_congr_left fun p _ => p.length_source]
  exact setupHtml_size

theorem mem_setupPieces {xs : List UInt8} {a : UInt8} (h : .hole xs a ∈ pagePieces setupHtml) :
    ∃ name, (name, a) ∈ setupParams ∧ xs = text name := by
  obtain ⟨p, hp, hmem⟩ := List.mem_flatMap.mp h
  cases p with
  | text s =>
    obtain ⟨b, -, hb⟩ := List.mem_map.mp hmem
    cases hb
  | param name next =>
    obtain ⟨rfl, rfl⟩ := Piece.hole.inj (List.mem_singleton.mp hmem)
    refine ⟨name, ?_, rfl⟩
    rw [← setupHtml_params]
    exact List.mem_filterMap.mpr ⟨_, hp, rfl⟩

theorem hole_mem_setupPieces {name : String} {a : UInt8} (h : (name, a) ∈ setupParams) :
    .hole (text name) a ∈ pagePieces setupHtml := by
  rw [← setupHtml_params] at h
  obtain ⟨p, hp, hhole⟩ := List.mem_filterMap.mp h
  cases p with
  | text s => cases hhole
  | param n next =>
    cases hhole
    exact List.mem_flatMap.mpr ⟨_, hp, List.mem_singleton.mpr rfl⟩

/-! ### Filling it in -/

theorem Part.holes (p : Part) : (⟨p.pieces, none⟩ : Parsed UInt8).holes =
    (p.hole?.map fun q => Http.text q.1).toList := by
  cases p with
  | text s => simp [Parsed.holes, pieces, hole?]
  | param name next => rfl

theorem holes_setupTemplate : setupTemplate.holes = setupParams.map fun p => text p.1 := by
  rw [← setupHtml_params, setupTemplate, pagePieces]
  induction setupHtml.flatMap Node.parts with
  | nil => rfl
  | cons p ps ih =>
    have hp := p.holes
    rw [Parsed.holes] at ih hp ⊢
    rw [List.flatMap_cons, List.filterMap_append, ih, hp]
    cases h : p.hole? <;> simp [h]

theorem length_shown {c : Config} {name : List UInt8} (h : Fits c name) :
    (shown c name).length < paramTemp := by
  unfold shown
  split
  · exact h.1
  · exact h.2

theorem render_setupTemplate (value : List UInt8 → List UInt8) :
    setupTemplate.render value = filledPage value setupHtml := rfl

theorem length_filledPage {c : Config} (hfits : ∀ p ∈ setupParams, Fits c (text p.1)) :
    (filledPage (shown c) setupHtml).length < scratchBufsize := by
  have hshown : ∀ xs ∈ setupTemplate.holes, (shown c xs).length ≤ 60 := by
    rw [holes_setupTemplate, List.forall_mem_map]
    exact fun p hp => Nat.le_of_lt (length_shown (hfits p hp))
  have hgrow := Parsed.growth_le hshown
  have hrender := setupTemplate.length_render 0x26 (shown c)
  have hcount : setupTemplate.holes.length = 24 := by
    rw [holes_setupTemplate]
    rfl
  have hlen := length_setupHtml
  have hsize : scratchBufsize = 12288 := rfl
  rw [hcount] at hgrow
  rw [render_setupTemplate] at hrender
  omega

/-- `find_replace` fills in the page when all its parameters fit. -/
theorem findReplace_setupHtml {c : Config} {html : List UInt8} :
    (∃ d, findReplace c (pageBytes setupHtml ++ [0]) = some (html, d)) ↔
      (∀ p ∈ setupParams, Fits c (text p.1)) ∧ html = filledPage (shown c) setupHtml := by
  have hparse : parse 0x26 0 .copy (pageBytes setupHtml ++ [0]) = some (setupTemplate, []) :=
    parse_source setupHtml_proper (by decide) []
  have hholes : (∀ name ∈ setupTemplate.holes, Fits c name) ↔
      ∀ p ∈ setupParams, Fits c (text p.1) := by
    rw [holes_setupTemplate, List.forall_mem_map]
  constructor
  · rintro ⟨d, h⟩
    obtain ⟨T, rest, hT, hfits, -, hhtml, -⟩ := findReplace_eq_some.mp h
    obtain ⟨rfl, -⟩ := Prod.mk.inj (Option.some.inj (hparse.symm.trans hT))
    exact ⟨hholes.mp hfits, hhtml⟩
  · rintro ⟨hfits, hhtml⟩
    have hroom := length_filledPage hfits
    exact ⟨_, findReplace_eq_some.mpr
      ⟨setupTemplate, [], hparse, hholes.mpr hfits, hroom, hhtml, rfl⟩⟩

end DaliController.Http
