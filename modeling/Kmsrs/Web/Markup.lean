import Kmsrs.Policy.Gate
import Kmsrs.Web.Routes

/-! What the text of clients does to the pages: it is shown escaped, and the markup
around it is the same whatever it is. -/

namespace Kmsrs.Web

open Html Kms Policy Policy.Events Text

variable {catalogue : Db.Catalogue}

-- A literal is compared with the list of its characters.
set_option maxRecDepth 4000

/-! ### Text as it is rendered -/

/-- What is shown in place of a character. -/
def shownCharacter (c : Char) : Char := if isControl c then Char.ofNat 0xFFFD else c

theorem isControl_of_special : ∀ c ∈ special, ¬ isControl c := by decide

theorem escaped_escape (text : Text) : Escaped (escape text) := by
  induction text with
  | nil => exact .nil
  | cons c text ih =>
    rw [escape, List.flatMap_cons, escapeCharacter]
    split_ifs with hspecial hcontrol
    · exact .reference hspecial ih
    · exact .plain (by decide) ih
    · exact .plain hspecial ih

theorem decode_escape (text : Text) : decode (escape text) = text.map shownCharacter := by
  induction text with
  | nil => rfl
  | cons c text ih =>
    rw [escape, List.flatMap_cons, escapeCharacter, ← escape, List.map_cons, shownCharacter]
    by_cases hspecial : c ∈ special
    · rw [if_pos hspecial, decode_reference hspecial, ih, if_neg (isControl_of_special c hspecial)]
    · rw [if_neg hspecial]
      split_ifs with hcontrol
      · rw [List.singleton_append, decode_cons (by decide), ih]
      · rw [List.singleton_append, decode_cons hspecial, ih]

theorem sameTags_escape (a b : Text) : SameTags (escape a) (escape b) :=
  .of_not_mem (escaped_escape a).not_mem (escaped_escape b).not_mem

theorem not_mem_decimal (n : ℕ) : '<' ∉ decimal n := by
  intro h
  obtain ⟨digit, hdigit, heq⟩ := mem_toDigits (by norm_num) h
  have hall : ∀ digit < 10, '<' ≠ Nat.digitChar digit := by decide
  exact hall digit hdigit heq

theorem sameTags_decimal (n m : ℕ) : SameTags (decimal n) (decimal m) := .of_not_mem (not_mem_decimal n) (not_mem_decimal m)

/-- A snapshot without the names that clients chose and the text of the domains. -/
def Snapshot.anonymous (snapshot : Snapshot catalogue) : Snapshot catalogue :=
  { snapshot with
    network.searchDomains := snapshot.network.searchDomains.map fun _ => []
    events := snapshot.events.unnamed }

/-- One of two words. -/
theorem sameTags_choice {p q : Prop} [Decidable p] [Decidable q] {a b : Text} (ha : '<' ∉ a) (hb : '<' ∉ b) :
    SameTags (if p then a else b) (if q then a else b) := by
  refine .of_not_mem ?_ ?_
  · split_ifs <;> assumption
  · split_ifs <;> assumption

/-- A tag whose class is that of a value. -/
theorem sameTags_class {s : String} {before : Text} (hs : s = String.ofList before)
    (h : ∀ good, (scan .data (before ++ okClass good ++ ['"', '>'])).1 = .data) {good good' : Bool} (heq : good = good') :
    SameTags (s.toList ++ okClass good ++ "\">".toList) (s.toList ++ okClass good' ++ "\">".toList) := by
  subst hs heq
  rw [String.toList_ofList]
  exact .of_complete (h good)

theorem not_mem_literal {s : String} {characters : Text} (hs : s = String.ofList characters) (h : '<' ∉ characters) :
    '<' ∉ s.toList := by
  subst hs
  rwa [String.toList_ofList]

theorem not_mem_flatten {pieces : List Text} (h : pieces.Forall ('<' ∉ ·)) : '<' ∉ pieces.flatten := by
  rw [List.mem_flatten]
  rintro ⟨piece, hpiece, hmem⟩
  exact List.forall_iff_forall_mem.mp h piece hpiece hmem

theorem not_mem_style : '<' ∉ style := by
  apply not_mem_flatten
  refine ⟨?_, ?_, ?_, ?_, ?_, ?_, ?_, ?_, ?_⟩ <;> exact not_mem_literal rfl (by decide)

theorem scan_literal {s : String} {text : Text} (hs : s = String.ofList text) {state state' : State}
    (h : (scan state text).1 = state') : (scan state s.toList).1 = state' := by
  subst hs
  rwa [String.toList_ofList]

/-- The title stands where only the end of its element is a tag, and so does the style. -/
theorem scan_pageHead (title : Text) : (scan .data (pageHead title)).1 = .data := by
  have htitle := (escaped_escape title).not_mem
  unfold pageHead
  simp only [List.flatten_cons, List.flatten_nil, scan_append_fst]
  have hdoctype : (scan .data "<!doctype html><html lang=\"en\"><head><meta charset=\"utf-8\">".toList).1 = .data :=
    scan_literal rfl (by decide)
  have hviewport : (scan .data "<meta name=\"viewport\" content=\"width=device-width,initial-scale=1\">".toList).1 =
      .data := scan_literal rfl (by decide)
  have hfront : (scan .data "<title>".toList).1 = .rawText ['t', 'i', 't', 'l', 'e'] := scan_literal rfl (by decide)
  have hstyle : (scan (.rawText ['t', 'i', 't', 'l', 'e']) " — kmsrsos</title><style>".toList).1 =
      .rawText ['s', 't', 'y', 'l', 'e'] := scan_literal rfl (by decide)
  have hbody : (scan (.rawText ['s', 't', 'y', 'l', 'e']) "</style></head><body>".toList).1 = .data :=
    scan_literal rfl (by decide)
  have hstatus : (scan .data "<nav><a href=\"/\">status</a><a href=\"/events\">events</a>".toList).1 = .data :=
    scan_literal rfl (by decide)
  have hproducts : (scan .data "<a href=\"/instructions\">instructions</a><a href=\"/products\">products</a></nav>".toList).1 =
      .data := scan_literal rfl (by decide)
  have hheading : (scan .data "<h1>".toList).1 = .data := scan_literal rfl (by decide)
  rw [hdoctype, hviewport, hfront, scan_of_not_mem (fun _ => step_rawText) htitle, hstyle,
    scan_of_not_mem (fun _ => step_rawText) not_mem_style, hbody, hstatus, hproducts, hheading,
    scan_of_not_mem (fun _ => step_data) htitle]
  exact scan_literal rfl (by decide)

theorem sameTags_page (title : Text) {body body' : Text} (hbody : SameTags body body') :
    SameTags (page title body) (page title body') :=
  Format.sameTags (.argument (.of_complete (scan_pageHead title)) <| .argument hbody <| .literal rfl .nil) (by decide)

theorem forall₂_of_map_eq {α β : Type*} {f : α → β} {items items' : List α} (h : items.map f = items'.map f) :
    List.Forall₂ (fun item item' => f item = f item') items items' := by
  rwa [← List.forall₂_eq_eq_eq, List.forall₂_map_left_iff, List.forall₂_map_right_iff] at h

/-! ### The status and the fleet -/

theorem sameTags_machineRow {row row' : ClientView} (h : row.activatedLast = row'.activatedLast) :
    SameTags (machineRow row) (machineRow row') := by
  have hclass := sameTags_class (s := "</td><td class=\"") rfl (by decide) h
  refine Format.sameTags (.literal rfl <| .argument (sameTags_escape _ _) <| .literal rfl <|
    .argument (sameTags_escape _ _) <| .literal rfl <| .argument (sameTags_escape _ _) <| .literal rfl <|
    .argument (sameTags_decimal _ _) <| .argument hclass <| .argument (sameTags_decimal _ _) <| .literal rfl <|
    .argument (sameTags_decimal _ _) <| .literal rfl <| .argument (sameTags_escape _ _) <| .literal rfl <|
    .nil) (by decide)

variable {snapshot snapshot' : Snapshot catalogue}

theorem sameTags_machinesTable (h : snapshot.events.unnamed = snapshot'.events.unnamed) :
    SameTags (machinesTable snapshot) (machinesTable snapshot') := by
  have hclients : (snapshot.events.clients machinesPerPage).map ClientView.unnamed =
      (snapshot'.events.clients machinesPerPage).map ClientView.unnamed := by
    rw [EventLog.map_clients, EventLog.map_clients, h]
  have hisEmpty : (snapshot.events.clients machinesPerPage).isEmpty = (snapshot'.events.clients machinesPerPage).isEmpty := by
    simpa using congrArg List.isEmpty hclients
  have hempty : ∀ empty empty' : Bool, empty = empty' →
      SameTags (if empty then "<tr><td colspan=\"6\">nothing yet</td></tr>".toList else [])
        (if empty' then "<tr><td colspan=\"6\">nothing yet</td></tr>".toList else []) := by
    rintro empty _ rfl
    split_ifs
    · exact .of_literal rfl (by decide)
    · exact .nil
  have hrows : SameTags ((snapshot.events.clients machinesPerPage).flatMap machineRow)
      ((snapshot'.events.clients machinesPerPage).flatMap machineRow) := by
    refine .flatMap ((forall₂_of_map_eq hclients).imp fun row row' heq => ?_)
    have hlast : row.unnamed.activatedLast = row'.unnamed.activatedLast := by rw [heq]
    exact sameTags_machineRow hlast
  refine Format.sameTags (.literal rfl <| .literal rfl <| .literal rfl <| .literal rfl <| .literal rfl <| .argument (hempty _ _ hisEmpty) <|
    .argument hrows <| .literal rfl <| .nil)
    (by decide)

theorem sameTags_statusTable (hlistening : snapshot.listening = snapshot'.listening)
    (hentropy : snapshot.entropyHealthy = snapshot'.entropyHealthy) :
    SameTags (statusTable snapshot) (statusTable snapshot') := by
  have hlistener := sameTags_class (s := "<table><tr><th>KMS listener</th><td class=\"") rfl (by decide) hlistening
  have hselfTest := sameTags_class (s := "</code></td></tr><tr><th>Entropy self-test</th><td class=\"") rfl
    (by decide) hentropy
  have haccepting := sameTags_choice (p := snapshot.listening) (q := snapshot'.listening)
    (a := "accepting".toList) (b := "not accepting".toList) (by decide) (by decide)
  have hpassing := sameTags_choice (p := snapshot.entropyHealthy) (q := snapshot'.entropyHealthy)
    (a := "passing".toList) (b := "FAILING".toList) (by decide) (by decide)
  have hndr64 := sameTags_choice (p := snapshot.hostBuild.ndr64) (q := snapshot'.hostBuild.ndr64)
    (a := "yes".toList) (b := "no".toList) (by decide) (by decide)
  refine Format.sameTags (.argument hlistener <| .argument haccepting <| .literal rfl <|
    .argument (sameTags_escape _ _) <| .argument hselfTest <| .argument hpassing <| .literal rfl <|
    .argument (sameTags_escape _ _) <| .literal rfl <| .argument (sameTags_decimal _ _) <| .literal rfl <|
    .argument (sameTags_escape _ _) <| .literal rfl <| .argument (sameTags_decimal _ _) <| .literal rfl <|
    .argument hndr64 <| .literal rfl <| .argument (sameTags_decimal _ _) <| .literal rfl <|
    .argument (sameTags_decimal _ _) <| .literal rfl <| .argument (sameTags_escape _ _) <| .literal rfl <|
    .nil) (by decide)

theorem sameTags_answeredRow (row : UInt16 × Text × ℕ) :
    SameTags (answeredRow catalogue row) (answeredRow catalogue row) := by
  obtain ⟨index, epid, count⟩ := row
  refine Format.sameTags (.literal rfl <| .argument (sameTags_escape _ _) <| .literal rfl <|
    .argument (sameTags_decimal _ _) <| .literal rfl <| .argument (sameTags_escape _ _) <| .literal rfl <|
    .nil) (by decide)

theorem sameTags_statusPage (h : snapshot.anonymous = snapshot'.anonymous) :
    SameTags (statusPage snapshot) (statusPage snapshot') := by
  have hevents : snapshot.anonymous.events = snapshot'.anonymous.events := by rw [h]
  have hlistening : snapshot.anonymous.listening = snapshot'.anonymous.listening := by rw [h]
  have hentropy : snapshot.anonymous.entropyHealthy = snapshot'.anonymous.entropyHealthy := by rw [h]
  have hidentity : snapshot.anonymous.identity = snapshot'.anonymous.identity := by rw [h]
  have hanswered : SameTags ((answered snapshot.identity).flatMap (answeredRow catalogue))
      ((answered snapshot'.identity).flatMap (answeredRow catalogue)) := by
    rw [show snapshot.identity = snapshot'.identity from hidentity]
    exact .flatMap (List.forall₂_same.mpr fun row _ => sameTags_answeredRow row)
  refine sameTags_page _ (Format.sameTags (.argument (sameTags_statusTable hlistening hentropy) <| .literal rfl <|
    .literal rfl <| .argument hanswered <| .literal rfl <| .argument (sameTags_machinesTable hevents) <| .nil) (by decide))

/-! ### The events -/

theorem sameTags_eventRow (event event' : Event) :
    SameTags (eventRow catalogue event) (eventRow catalogue event') :=
  Format.sameTags (.literal rfl <| .argument (sameTags_decimal _ _) <| .literal rfl <|
    .argument (sameTags_escape _ _) <| .literal rfl <| .argument (sameTags_escape _ _) <| .literal rfl <|
    .argument (sameTags_escape _ _) <| .literal rfl <| .argument (sameTags_escape _ _) <| .literal rfl <|
    .argument (sameTags_escape _ _) <| .literal rfl <| .argument (sameTags_escape _ _) <| .literal rfl <|
    .nil) (by decide)

theorem sameTags_eventsPage (h : snapshot.anonymous = snapshot'.anonymous) :
    SameTags (eventsPage snapshot) (eventsPage snapshot') := by
  have hevents : snapshot.anonymous.events = snapshot'.anonymous.events := by rw [h]
  have hshown : (shownEvents snapshot.events).map Event.unnamed = (shownEvents snapshot'.events).map Event.unnamed := by
    rw [shownEvents, shownEvents, List.map_reverse, List.map_reverse, EventLog.map_recent, EventLog.map_recent]
    exact congrArg (fun log => (EventLog.recent log eventsPerPage).reverse) hevents
  have hrows : SameTags ((shownEvents snapshot.events).flatMap (eventRow catalogue))
      ((shownEvents snapshot'.events).flatMap (eventRow catalogue)) :=
    .flatMap ((forall₂_of_map_eq hshown).imp fun event event' _ => sameTags_eventRow event event')
  refine sameTags_page _ (Format.sameTags (.literal rfl <| .argument (sameTags_decimal _ _) <| .literal rfl <|
    .argument (sameTags_decimal _ _) <| .literal rfl <| .argument (sameTags_decimal _ _) <| .literal rfl <|
    .argument (sameTags_decimal _ _) <| .literal rfl <| .argument (sameTags_decimal _ _) <| .literal rfl <|
    .literal rfl <| .literal rfl <| .argument hrows <| .literal rfl <| .nil) (by decide))

/-! ### The instructions -/

theorem sameTags_clientSteps {address address' port port' : Text} (haddress : SameTags address address')
    (hport : SameTags port port') : SameTags (clientSteps address port) (clientSteps address' port') :=
  Format.sameTags (.literal rfl <| .literal rfl <| .literal rfl <| .argument haddress <| .literal rfl <| .argument hport <| .literal rfl <|
    .literal rfl <| .literal rfl <| .literal rfl <| .argument haddress <| .literal rfl <| .literal rfl <| .literal rfl <|
    .literal rfl <| .nil) (by decide)

theorem sameTags_dnsSteps {address address' port port' zone zone' : Text} (haddress : SameTags address address')
    (hport : SameTags port port') (hzone : SameTags zone zone') :
    SameTags (dnsSteps address port zone) (dnsSteps address' port' zone') :=
  Format.sameTags (.literal rfl <| .literal rfl <| .literal rfl <| .literal rfl <| .literal rfl <| .literal rfl <| .literal rfl <|
    .argument hport <| .literal rfl <| .argument haddress <| .literal rfl <| .literal rfl <| .literal rfl <| .literal rfl <|
    .literal rfl <| .literal rfl <| .literal rfl <| .literal rfl <| .argument hzone <| .literal rfl <| .argument hport <|
    .literal rfl <| .argument haddress <| .literal rfl <| .literal rfl <| .literal rfl <| .literal rfl <| .literal rfl <|
    .argument hzone <| .literal rfl <| .argument hport <| .literal rfl <| .argument haddress <| .literal rfl <|
    .literal rfl <| .literal rfl <| .argument hzone <| .literal rfl <| .literal rfl <| .literal rfl <| .argument hport <|
    .literal rfl <| .argument haddress <| .literal rfl <| .nil) (by decide)

theorem sameTags_checkSteps {zone zone' : Text} (hzone : SameTags zone zone') :
    SameTags (checkSteps zone) (checkSteps zone') :=
  Format.sameTags (.literal rfl <| .literal rfl <| .argument hzone <| .literal rfl <| .literal rfl <| .literal rfl <| .literal rfl <|
    .literal rfl <| .nil) (by decide)

theorem sameTags_ipv4 (address : Os.Ipv4Addr) : SameTags address.display address.display := by
  refine .intercalate (by decide) (List.forall₂_same.mpr fun part hpart => ?_)
  obtain ⟨octet, -, rfl⟩ := List.mem_map.mp hpart
  exact sameTags_decimal _ _

theorem sameTags_loopbackNote {network network' : Network} (h : network.address = network'.address) :
    SameTags (loopbackNote network) (loopbackNote network') := by
  have hleased : ∀ leased : Os.Ipv4Addr, SameTags
      (["<p>This machine's DHCP lease says its address is ".toList,
        "<code>".toList, leased.display, "</code>. That is very likely the one you want.</p>".toList].flatten)
      (["<p>This machine's DHCP lease says its address is ".toList,
        "<code>".toList, leased.display, "</code>. That is very likely the one you want.</p>".toList].flatten) := fun leased =>
    Format.sameTags (.literal rfl <| .literal rfl <| .argument (sameTags_ipv4 leased) <| .literal rfl <| .nil) (by decide)
  refine Format.sameTags (.literal rfl <| .literal rfl <| .literal rfl <| .literal rfl <| .literal rfl <| .literal rfl <| .literal rfl <|
    .literal rfl <| .literal rfl <| .literal rfl <| .argument (.of_literal rfl (by decide)) <| .literal rfl <|
    .literal rfl <| .argument ?_ <| .nil)
    (by decide)
  generalize network.address = address at h ⊢
  subst h
  cases network'.address with
  | none => exact .nil
  | some leased => exact hleased leased

/-- Two lists of domains, of which there are as many. -/
theorem sameTags_extraNote {extra extra' : List Text} (h : extra.map (fun _ => ([] : Text)) = extra'.map fun _ => []) :
    SameTags (extraNote extra) (extraNote extra') := by
  have hdomain : ∀ domain domain' : Text, SameTags ["<code>".toList, escape domain, "</code>".toList].flatten
      ["<code>".toList, escape domain', "</code>".toList].flatten := fun domain domain' =>
    Format.sameTags (.literal rfl <| .argument (sameTags_escape domain domain') <| .literal rfl <| .nil) (by decide)
  have hdomains : List.Forall₂ (fun _ _ => True) extra extra' := (forall₂_of_map_eq h).imp fun _ _ _ => trivial
  have hlist : SameTags
      (List.intercalate ", ".toList (extra.map fun domain => ["<code>".toList, escape domain, "</code>".toList].flatten))
      (List.intercalate ", ".toList (extra'.map fun domain => ["<code>".toList, escape domain, "</code>".toList].flatten)) := by
    refine .intercalate (by decide) ?_
    rw [List.forall₂_map_left_iff, List.forall₂_map_right_iff]
    exact hdomains.imp fun domain domain' _ => hdomain domain domain'
  cases hdomains with
  | nil => exact .nil
  | cons _ _ =>
    exact Format.sameTags (.literal rfl <| .argument hlist <| .literal rfl <| .literal rfl <| .literal rfl <| .nil) (by decide)

theorem sameTags_substituteNote {domains domains' : List Text}
    (h : domains.map (fun _ => ([] : Text)) = domains'.map fun _ => []) :
    SameTags (substituteNote domains) (substituteNote domains') := by
  cases domains with
  | nil =>
    obtain rfl : domains' = [] := by simpa using h.symm
    exact Format.sameTags (.literal rfl <| .argument (.of_literal rfl (by decide)) <| .literal rfl <| .literal rfl <|
      .literal rfl <| .nil) (by decide)
  | cons zone extra =>
    cases domains' with
    | nil => simp at h
    | cons zone' extra' =>
      rw [List.map_cons, List.map_cons, List.cons.injEq] at h
      exact Format.sameTags (.literal rfl <| .argument (sameTags_escape zone zone') <| .literal rfl <| .literal rfl <|
        .literal rfl <| .literal rfl <| .argument (sameTags_extraNote h.2) <| .nil) (by decide)

theorem not_isControl_of_hostCharacter {c : Char} (h : hostCharacter c) : ¬ isControl c := by
  have hall : ∀ n < 0xA0, hostCharacter (Char.ofNat n) → ¬ isControl (Char.ofNat n) := by decide
  intro hcontrol
  have hlt : c.toNat < 0xA0 := by
    simp only [isControl, Bool.or_eq_true, Bool.and_eq_true, decide_eq_true_eq] at hcontrol
    omega
  exact hall c.toNat hlt (by rwa [Char.ofNat_toNat]) (by rwa [Char.ofNat_toNat])

theorem escapeCharacter_of_hostCharacter {c : Char} (h : hostCharacter c) : escapeCharacter c = [c] := by
  have hspecial : ∀ c ∈ special, ¬ hostCharacter c := by decide
  rw [escapeCharacter, if_neg fun hmem => hspecial c hmem h, if_neg (not_isControl_of_hostCharacter h)]

theorem all_of_plausibleHost {value host : Text} (h : plausibleHost value = some host) : ∀ c ∈ host, hostCharacter c := by
  unfold plausibleHost at h
  dsimp only at h
  rw [Option.bind_eq_some_iff] at h
  obtain ⟨found, -, h⟩ := h
  split_ifs at h with hempty hall
  obtain rfl := Option.some.inj h
  exact List.all_eq_true.mp hall

/-- A host that is repeated needs no reference. -/
theorem escape_of_plausibleHost {value host : Text} (h : plausibleHost value = some host) : escape host = host := by
  have hall := all_of_plausibleHost h
  clear h
  induction host with
  | nil => rfl
  | cons c host ih =>
    rw [List.forall_mem_cons] at hall
    rw [escape, List.flatMap_cons, escapeCharacter_of_hostCharacter hall.1, ← escape, ih hall.2, List.singleton_append]

theorem sameTags_zone {domains domains' : List Text} (h : domains.map (fun _ => ([] : Text)) = domains'.map fun _ => []) :
    SameTags (domains.head?.elim zonePlaceholder escape) (domains'.head?.elim zonePlaceholder escape) := by
  have hdomains : List.Forall₂ (fun _ _ => True) domains domains' := (forall₂_of_map_eq h).imp fun _ _ _ => trivial
  cases hdomains with
  | nil => exact .of_literal rfl (by decide)
  | @cons zone zone' _ _ _ _ => exact sameTags_escape zone zone'

theorem sameTags_instructionsPage (h : snapshot.anonymous = snapshot'.anonymous) {value value' host host' : Text}
    (hhost : plausibleHost value = some host) (hhost' : plausibleHost value' = some host')
    (hloopback : isLoopbackText host = isLoopbackText host') :
    SameTags (instructionsPage snapshot (some host)) (instructionsPage snapshot' (some host')) := by
  have haddress : snapshot.anonymous.network.address = snapshot'.anonymous.network.address := by rw [h]
  have hdomains : snapshot.anonymous.network.searchDomains = snapshot'.anonymous.network.searchDomains := by rw [h]
  have hnote : SameTags (if isLoopbackText (escape host) then loopbackNote snapshot.network else [])
      (if isLoopbackText (escape host') then loopbackNote snapshot'.network else []) := by
    rw [escape_of_plausibleHost hhost, escape_of_plausibleHost hhost', hloopback]
    split_ifs
    · exact sameTags_loopbackNote haddress
    · exact .nil
  have hport := sameTags_decimal (snapshot.kmsPorts.head?.getD kmsPort).toNat (snapshot'.kmsPorts.head?.getD kmsPort).toNat
  have hzone := sameTags_zone hdomains
  refine sameTags_page _ (Format.sameTags (.argument hnote <|
    .argument (sameTags_clientSteps (sameTags_escape host host') hport) <|
    .argument (sameTags_dnsSteps (sameTags_escape host host') hport hzone) <|
    .argument (sameTags_substituteNote hdomains) <| .argument (sameTags_checkSteps hzone) <| .nil) (by decide))

/-! ### Where the text is shown -/

/-- The text is rendered with these characters around it. -/
def Between (first last : Char) (text page : Text) : Prop := (first :: escape text ++ [last]) <:+: page

/-- The text is the whole of what stands between two tags. -/
abbrev Shown (text page : Text) : Prop := Between '>' '<' text page

theorem Between.trans {first last : Char} {text part page : Text} (h : Between first last text part) (hpart : part <:+: page) :
    Between first last text page :=
  List.IsInfix.trans h hpart

/-- An argument and the ends of the literals around it. -/
theorem between_of_infix {first last : Char} {s s' : String} {before after text : Text} {pieces : List Text}
    (h : [s.toList, escape text, s'.toList] <:+: pieces) (hs : s = String.ofList before) (hs' : s' = String.ofList after)
    (hbefore : before.getLast? = some first) (hafter : after.head? = some last) : Between first last text pieces.flatten := by
  obtain ⟨front, back, rfl⟩ := h
  subst hs hs'
  obtain ⟨before, rfl⟩ := List.getLast?_eq_some_iff.mp hbefore
  obtain ⟨after, rfl⟩ := List.head?_eq_some_iff.mp hafter
  refine ⟨front.flatten ++ before, after ++ back.flatten, ?_⟩
  simp only [String.toList_ofList, List.flatten_append, List.flatten_cons, List.append_assoc, List.cons_append,
    List.nil_append]

theorem infix_intercalate {separator part : Text} {parts : List Text} (h : part ∈ parts) :
    part <:+: separator.intercalate parts := by
  induction parts with
  | nil => exact absurd h List.not_mem_nil
  | cons first parts ih =>
    cases parts with
    | nil => simp_all
    | cons second parts =>
      rw [List.intercalate_cons_cons]
      rcases List.mem_cons.mp h with rfl | h
      · rw [List.append_assoc]
        exact (List.prefix_append _ _).isInfix
      · exact (ih h).trans (List.suffix_append _ _).isInfix

theorem infix_flatten {pieces : List Text} {part : Text} (i : ℕ) (h : pieces[i]? = some part) : part <:+: pieces.flatten :=
  List.infix_of_mem_flatten (List.mem_of_getElem? h)

theorem infix_flatMap {α : Type*} {f : α → Text} {item : α} {items : List α} (h : item ∈ items) :
    f item <:+: items.flatMap f :=
  List.infix_of_mem_flatten (List.mem_map_of_mem h)

theorem infix_page {title part body : Text} (h : part <:+: body) : part <:+: page title body :=
  h.trans (infix_flatten 1 rfl)

theorem shown_statusPage {row : ClientView} (h : row ∈ snapshot.events.clients machinesPerPage) :
    Shown row.workstationName.text (statusPage snapshot) := by
  have hrow : Shown row.workstationName.text (machineRow row) :=
    between_of_infix ⟨[], [_, _, _, _, _, _, _, _, _, _, _, _], rfl⟩ rfl rfl rfl rfl
  have htable : machineRow row <:+: machinesTable snapshot := (infix_flatMap h).trans (infix_flatten 6 rfl)
  have hbody : machinesTable snapshot <:+: statusBody snapshot := infix_flatten 5 rfl
  exact hrow.trans (htable.trans (infix_page hbody))

theorem shown_eventsPage {event : Event} (h : event ∈ shownEvents snapshot.events) :
    Shown event.workstationName.text (eventsPage snapshot) := by
  have hrow : Shown event.workstationName.text (eventRow catalogue event) :=
    between_of_infix ⟨[_, _, _, _, _, _, _, _, _, _], [_, _], rfl⟩ rfl rfl rfl rfl
  have hbody : eventRow catalogue event <:+: eventsBody snapshot :=
    (infix_flatMap h).trans (infix_flatten 13 rfl)
  exact hrow.trans (infix_page hbody)

theorem shown_substituteNote {domain : Text} {domains : List Text} (h : domain ∈ domains) :
    Shown domain (substituteNote domains) := by
  cases domains with
  | nil => exact absurd h List.not_mem_nil
  | cons zone extra =>
    rcases List.mem_cons.mp h with rfl | h
    · exact between_of_infix ⟨[], [_, _, _, _], rfl⟩ rfl rfl rfl rfl
    · have hdomain : Shown domain ["<code>".toList, escape domain, "</code>".toList].flatten :=
        between_of_infix ⟨[], [], rfl⟩ rfl rfl rfl rfl
      have hlist : ["<code>".toList, escape domain, "</code>".toList].flatten <:+: List.intercalate ", ".toList
          (extra.map fun domain => ["<code>".toList, escape domain, "</code>".toList].flatten) :=
        infix_intercalate (List.mem_map_of_mem h)
      refine hdomain.trans (hlist.trans (List.IsInfix.trans ?_ (infix_flatten 6 rfl)))
      unfold extraNote
      rw [if_neg (by simpa using List.ne_nil_of_mem h)]
      exact infix_flatten 1 rfl

theorem shown_instructionsPage {domain : Text} (h : domain ∈ snapshot.network.searchDomains) (host : Option Text) :
    Shown domain (instructionsPage snapshot host) := by
  have hbody : substituteNote snapshot.network.searchDomains <:+: instructionsBody snapshot host := infix_flatten 3 rfl
  exact (shown_substituteNote h).trans (infix_page hbody)

theorem between_instructionsPage (host : Text) : Between ' ' ':' host (instructionsPage snapshot (some host)) := by
  have hsteps : ∀ port, Between ' ' ':' host (clientSteps (escape host) port) := fun port =>
    between_of_infix ⟨[_, _], [_, _, _, _, _, _, _, _, _, _], rfl⟩ rfl rfl rfl rfl
  have hbody : clientSteps (escape host) (decimal (snapshot.kmsPorts.head?.getD kmsPort).toNat) <:+:
      instructionsBody snapshot (some host) := infix_flatten 1 rfl
  exact (hsteps _).trans (infix_page hbody)

/-- Whatever clients call themselves, a lease calls its domains and a browser calls this
host, the tags of the pages are the same, and the text is shown as it is but for the
control characters. -/
theorem client_text_is_text (catalogue : Db.Catalogue) :
    (∀ snapshot snapshot' : Snapshot catalogue, snapshot.anonymous = snapshot'.anonymous →
      tags (statusPage snapshot) = tags (statusPage snapshot') ∧
        tags (eventsPage snapshot) = tags (eventsPage snapshot') ∧
        ∀ value value' host host', plausibleHost value = some host → plausibleHost value' = some host' →
          isLoopbackText host = isLoopbackText host' →
          tags (instructionsPage snapshot (some host)) = tags (instructionsPage snapshot' (some host'))) ∧
      (∀ snapshot : Snapshot catalogue,
        (∀ row ∈ snapshot.events.clients machinesPerPage, Shown row.workstationName.text (statusPage snapshot)) ∧
          (∀ event ∈ shownEvents snapshot.events, Shown event.workstationName.text (eventsPage snapshot)) ∧
          (∀ domain ∈ snapshot.network.searchDomains, ∀ host, Shown domain (instructionsPage snapshot host)) ∧
          ∀ host, Between ' ' ':' host (instructionsPage snapshot (some host))) ∧
      ∀ text, Escaped (escape text) ∧ decode (escape text) = text.map shownCharacter := by
  refine ⟨fun snapshot snapshot' h => ⟨(sameTags_statusPage h).tags_eq, (sameTags_eventsPage h).tags_eq, ?_⟩,
    fun snapshot => ⟨fun row => shown_statusPage, fun event => shown_eventsPage, fun domain => shown_instructionsPage,
      fun host => between_instructionsPage host⟩,
    fun text => ⟨escaped_escape text, decode_escape text⟩⟩
  intro value value' host host' hhost hhost' hloopback
  exact (sameTags_instructionsPage h hhost hhost' hloopback).tags_eq

/-- An event of a machine that calls itself by a tag. -/
def scriptEvent : Event where
  sequence := 7
  atTime := 0
  peer := none
  version := ⟨6, 0⟩
  application := .zero
  counted := .zero
  sku := .zero
  clientMachineId := .zero
  licenseStatus := .licensed
  clientKind := .bareMetal
  workstationName := ⟨"<script>".toList, by decide +kernel⟩
  clockSkew := none
  knownProduct := false
  outcome := .refused .previewProduct

def scriptSnapshot : Snapshot Gate.twoKeys where
  listening := true
  entropyHealthy := true
  kmsPorts := [kmsPort]
  network := ⟨["<b>".toList], none⟩
  identity := Gate.twoIdentities
  hostBuild := ⟨26100, true, "Windows Server 2025"⟩
  lcid := ⟨1033, "English"⟩
  events := { EventLog.default with events := [scriptEvent] }
  buildStamp := "0.1.0 (unknown, source date unknown)".toList

theorem scriptSnapshot_tags :
    tags (eventsPage scriptSnapshot) = tags (eventsPage scriptSnapshot.anonymous) ∧
      tags (instructionsPage scriptSnapshot (some "127.0.0.1".toList)) =
        tags (instructionsPage scriptSnapshot.anonymous (some "localhost".toList)) := by
  obtain ⟨-, hevents, hinstructions⟩ :=
    (client_text_is_text Gate.twoKeys).1 scriptSnapshot scriptSnapshot.anonymous rfl
  exact ⟨hevents, hinstructions "127.0.0.1:80".toList "localhost".toList _ _ (by decide +kernel) (by decide +kernel)
    (by decide +kernel)⟩

end Kmsrs.Web
