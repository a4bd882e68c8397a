import Kmsrs.Db.Hosts
import Kmsrs.Lib.Exposition
import Kmsrs.Lib.Find
import Kmsrs.Lib.HttpReply
import Kmsrs.Server.Quota
import Kmsrs.Web.Listener
import Kmsrs.Web.Routes

/-! What a monitor makes of the pages. Whatever arrives, a reply is one message that is read
back as the response it was written from; a scrape of a running host finds its accounts in
order, whatever the stamp of the build says; and the health agrees with the gauges. -/

namespace Kmsrs.Web

open Text Server

/-! ### The stamp of the build -/

def unknown : Text := "unknown".toList

structure BuildStamp where
  version : Text
  revision : Text
  sourceDateEpoch : Text

namespace BuildStamp

/-- The revision, shortened the way a person reads one. -/
def shortRevision (stamp : BuildStamp) : Text :=
  if stamp.revision = unknown then unknown
  else if 12 < utf8Len stamp.revision ∧ find "dirty".toList stamp.revision = none then
    -- A cut through a character leaves the revision whole.
    (fromUtf8 ((toUtf8 stamp.revision).take 12)).getD stamp.revision
  else stamp.revision

def display (stamp : BuildStamp) : Text :=
  stamp.version ++ " (".toList ++ stamp.shortRevision ++ ", source date ".toList ++ stamp.sourceDateEpoch ++ [')']

end BuildStamp

variable {catalogue : Db.Catalogue}

/-! ### The metrics -/

/-- Escape a label value. -/
def escapeLabel (value : Text) : Text :=
  replace ['\n'] ['\\', 'n'] (replace ['"'] ['\\', '"'] (replace ['\\'] ['\\', '\\'] value))

/-- The name, the help, the kind and the value of each number. -/
def series (snapshot : Snapshot catalogue) : List (Text × Text × Text × ℕ) :=
  let log := snapshot.events
  let activated := log.events.countP Policy.Events.Event.activated
  [("kmsrsos_requests_total".toList, "Requests recorded since start.".toList, "counter".toList, log.recorded.toNat),
    ("kmsrsos_activations_total".toList, "Requests in the retained window that were activated.".toList, "gauge".toList,
      activated),
    ("kmsrsos_events_held".toList, "Events currently in the bounded log.".toList, "gauge".toList, log.events.length),
    ("kmsrsos_events_dropped_by_capacity_total".toList, "Events evicted because the log was full.".toList, "counter".toList,
      log.dropped.byCapacity.toNat),
    ("kmsrsos_events_dropped_by_retention_total".toList, "Events removed because they aged out.".toList, "counter".toList,
      log.dropped.byRetention.toNat),
    ("kmsrsos_listener_up".toList, "1 when the KMS listener is accepting.".toList, "gauge".toList, snapshot.listening.toNat),
    ("kmsrsos_entropy_healthy".toList, "1 when the entropy source passes its self-test.".toList, "gauge".toList,
      snapshot.entropyHealthy.toNat)]

def seriesText : Text × Text × Text × ℕ → Text
  | (name, help, kind, value) =>
    ["# HELP ".toList, name, " ".toList, help, "\n# TYPE ".toList, name, " ".toList, kind, "\n".toList, name, " ".toList,
      decimal value, "\n".toList].flatten

def buildInfo (stamp : BuildStamp) : Text :=
  ["# HELP kmsrsos_build_info Which build this is; the value is always 1.\n".toList,
    "# TYPE kmsrsos_build_info gauge\n".toList,
    "kmsrsos_build_info\x7bversion=\"".toList, escapeLabel stamp.version, "\",revision=\"".toList,
    escapeLabel stamp.revision, "\",source_date_epoch=\"".toList, escapeLabel stamp.sourceDateEpoch, "\"\x7d 1\n".toList].flatten

def metrics (stamp : BuildStamp) (snapshot : Snapshot catalogue) : Text :=
  (series snapshot).flatMap seriesText ++ buildInfo stamp

/-! ### The health -/

/-- Whether the clients are served. -/
def Snapshot.healthy (snapshot : Snapshot catalogue) : Bool :=
  snapshot.listening && snapshot.entropyHealthy && !snapshot.kmsPorts.isEmpty

def health (snapshot : Snapshot catalogue) : Response :=
  if snapshot.healthy then .text "ok\n".toList
  else
    { status := .serviceUnavailable
      contentType := .text
      body := (if !snapshot.listening || snapshot.kmsPorts.isEmpty then "kms listener not accepting\n".toList else []) ++
        if snapshot.entropyHealthy then [] else "entropy self-test failing\n".toList }

/-! ### The products -/

def productRow (product : Db.Product) : Text :=
  ["<tr><td>".toList, escape product.description.toList, "</td><td><code>".toList, escape product.editionId.toList,
    "</code></td><td>".toList, product.kind.debug, "</td></tr>".toList].flatten

def keyRow (gvlk : Db.Gvlk) : Text :=
  ["<tr><td>".toList, escape gvlk.release.toList, "</td><td>".toList, escape gvlk.edition.toList, "</td><td><code>".toList,
    escape gvlk.key.toList, "</code></td></tr>".toList].flatten

/-- What this host knows how to activate. -/
def productsPage (catalogue : Db.Catalogue) (gvlks : List Db.Gvlk) : Text :=
  page "Products".toList (["<p>".toList, decimal catalogue.products.length, " products from ".toList,
    decimal catalogue.csvlks.length, " host keys, extracted from Microsoft's own ".toList,
    "licensing artifacts. A client needs the generic volume licence key ".toList,
    "for its edition; the protocol never carries one.</p>".toList,
    "<table><tr><th>Product</th><th>Edition</th><th>Kind</th></tr>".toList,
    (catalogue.products.filter fun product => product.kind = .kmsClient).flatMap productRow,
    "</table>".toList,
    "<h2>Client setup keys</h2><p>".toList, decimal gvlks.length,
    " keys, as Microsoft publishes them. Install the one for the ".toList,
    "edition you have with <code>slmgr /ipk</code>, then follow ".toList,
    "<a href=\"/instructions\">the instructions</a>. These never travel ".toList,
    "over the wire — this host is not sent a key and could not check one.</p>".toList,
    "<p>Grouped by release, because an edition name alone is not unique: ".toList,
    "three releases each publish a <code>Windows Server Datacenter</code>, with three different keys.</p>".toList,
    "<table><tr><th>Release</th><th>Edition</th><th>Key</th></tr>".toList,
    gvlks.flatMap keyRow,
    "</table>".toList].flatten)

/-! ### The routes -/

/-- Answer one request. -/
def route (stamp : BuildStamp) (gvlks : List Db.Gvlk) (snapshot : Snapshot catalogue) (request : Request) : Response :=
  if request.path = "/".toList then .html (statusPage snapshot)
  else if request.path = "/events".toList then .html (eventsPage snapshot)
  else if request.path = "/instructions".toList then .html (instructionsPage snapshot request.host)
  else if request.path = "/products".toList then .html (productsPage catalogue gvlks)
  else if request.path = "/healthz".toList then health snapshot
  else if request.path = "/metrics".toList then .metrics (metrics stamp snapshot)
  else .error .notFound

/-! ### Reading a reply -/

/-- A response as the reader of the reply sees it. -/
def Response.message (response : Response) : HttpReply.Message where
  code := response.status.code
  reason := response.status.reason
  fields := ("Content-Type".toList, response.contentType.asStr) ::
    ("Content-Length".toList, decimal (utf8Len response.body)) :: Response.headers
  body := toUtf8 response.body

theorem length_toUtf8 (text : Text) : (toUtf8 text).length = utf8Len text := by
  rw [toUtf8_eq, utf8Len, List.length_flatMap]
  simp

theorem text_fields (fields : List (Text × Text)) :
    (fields.map HttpReply.Message.fieldLine).flatMap (· ++ ['\r', '\n']) =
      fields.flatMap fun field => field.1 ++ ": ".toList ++ field.2 ++ Response.crlf := by
  have hcolon : ": ".toList = [':', ' '] := by decide
  rw [List.flatMap_map]
  simp only [HttpReply.Message.fieldLine, hcolon, Response.crlf, List.append_assoc, List.cons_append, List.nil_append]

theorem head_eq (response : Response) : response.head = response.message.head := by
  have hversion : "HTTP/1.1 ".toList = HttpReply.version := by decide
  have htype : "Content-Type: ".toList = "Content-Type".toList ++ ": ".toList := by decide
  have hlength : "Content-Length: ".toList = "Content-Length".toList ++ ": ".toList := by decide
  have hfields : response.message.fields = ("Content-Type".toList, response.contentType.asStr) ::
      ("Content-Length".toList, decimal (utf8Len response.body)) :: Response.headers := rfl
  have hstatus : response.message.statusLine =
    HttpReply.version ++ (decimal response.status.code ++ ' ' :: response.status.reason) := rfl
  unfold HttpReply.Message.head HttpReply.Message.lines Response.head
  simp only [List.flatMap_cons, text_fields, hfields, hstatus, hversion, htype, hlength, Response.crlf, List.append_assoc,
    List.cons_append, List.nil_append]

theorem trim_digits {text : Text} (h : ∀ c ∈ text, c.isDigit) : trim text = text := by
  have hspace : ∀ c ∈ text, isWhitespace c = false := by
    intro c hc
    have hascii : c.toNat < 128 := Nat.lt_of_le_of_lt (Char.isDigit_iff_toNat.mp (h c hc)).2 (by decide)
    have hall : ∀ code < 128, (Char.ofNat code).isDigit → isWhitespace (.ofNat code) = false := by decide
    have hcode := hall c.toNat hascii
    rw [Char.ofNat_toNat] at hcode
    exact hcode (h c hc)
  have hstart : trimStart text = text := by
    cases text with
    | nil => rfl
    | cons c text =>
      refine List.dropWhile_cons_of_neg ?_
      rw [hspace c List.mem_cons_self]
      exact Bool.false_ne_true
  rw [trim, hstart, trimEnd, List.rdropWhile_eq_self_iff]
  intro hne
  rw [hspace _ (List.getLast_mem hne)]
  exact Bool.false_ne_true

theorem plain_headers : ∀ field ∈ Response.headers,
    field.1 ≠ [] ∧ ':' ∉ field.1 ∧ '\r' ∉ field.1 ∧ '\r' ∉ field.2 ∧ trim field.2 = field.2 := by decide

theorem plain_message (response : Response) : response.message.Plain where
  reason := by
    change '\r' ∉ response.status.reason
    cases response.status <;> decide
  fields := by
    intro field hmem
    rcases List.mem_cons.mp hmem with rfl | hmem
    · cases response.contentType <;> decide
    rcases List.mem_cons.mp hmem with rfl | hmem
    · have hdigits : ∀ c ∈ decimal (utf8Len response.body), c.isDigit := fun c hc => isDigit_decimal hc
      have hname : "Content-Length".toList ≠ [] ∧ ':' ∉ "Content-Length".toList ∧ '\r' ∉ "Content-Length".toList := by decide
      exact ⟨hname.1, hname.2.1, hname.2.2, fun hreturn => absurd (hdigits _ hreturn) (by decide), trim_digits hdigits⟩
    · exact plain_headers field hmem
  length := by
    have hother : eqIgnoreAsciiCase "Content-Type".toList HttpReply.contentLength = false := by decide
    have hthis : eqIgnoreAsciiCase "Content-Length".toList HttpReply.contentLength = true := by decide
    have hbody : response.message.body.length = utf8Len response.body := length_toUtf8 response.body
    rw [hbody, HttpReply.field?, Response.message, List.find?_cons_of_neg (by rw [hother]; exact Bool.false_ne_true)]
    exact congrArg (Option.map Prod.snd) (List.find?_cons_of_pos hthis)

/-- A response as its reply is read. -/
def Response.received (response : Response) (bodiless : Bool) : HttpReply.Message :=
  if bodiless then { response.message with body := [] } else response.message

theorem read_write (response : Response) (bodiless : Bool) :
    HttpReply.read bodiless (response.write !bodiless) = some (response.received bodiless, []) := by
  have hread := HttpReply.read_head (plain_message response) bodiless []
  rw [← head_eq, List.append_nil] at hread
  cases bodiless <;> exact hread

/-- A number, as the lines of a page say it. -/
def seriesLines : Text × Text × Text × ℕ → List Exposition.Line
  | (name, help, kind, value) => [.help name help, .type name kind, .sample name [] value]

def buildLabels (stamp : BuildStamp) : List (Text × Text) :=
  [("version".toList, stamp.version), ("revision".toList, stamp.revision),
    ("source_date_epoch".toList, stamp.sourceDateEpoch)]

def buildLines (stamp : BuildStamp) : List Exposition.Line :=
  [.help "kmsrsos_build_info".toList "Which build this is; the value is always 1.".toList,
    .type "kmsrsos_build_info".toList "gauge".toList,
    .sample "kmsrsos_build_info".toList (buildLabels stamp) 1]

def exposition (stamp : BuildStamp) (snapshot : Snapshot catalogue) : List Exposition.Line :=
  (series snapshot).flatMap seriesLines ++ buildLines stamp

theorem replace_singleton (c : Char) (new text : Text) :
    replace [c] new text = text.flatMap fun d => if d = c then new else [d] := by
  induction text with
  | nil => rfl
  | cons d text ih =>
    rw [List.flatMap_cons, ← ih]
    by_cases heq : d = c
    · subst heq
      rw [if_pos rfl]
      exact replace_append_self (List.cons_ne_nil _ _) text
    · rw [if_neg heq, replace_cons fun hbegins => heq (List.cons_prefix_cons.mp hbegins).1.symm]
      rfl

/-- One replacement after the other escapes as one pass does: what a replacement puts in has
nothing for a later one, but for the backslashes, which go first. -/
theorem escapeLabel_eq (value : Text) : escapeLabel value = Exposition.escape value := by
  rw [escapeLabel, replace_singleton, replace_singleton, replace_singleton, List.flatMap_assoc, List.flatMap_assoc,
    Exposition.escape]
  refine List.flatMap_congr fun c _ => ?_
  by_cases hslash : c = '\\'
  · subst hslash
    rfl
  by_cases hquote : c = '"'
  · subst hquote
    rfl
  rw [if_neg hslash, List.flatMap_singleton, if_neg hquote, List.flatMap_singleton, Exposition.escapeCharacter, if_neg hslash,
    if_neg hquote]

theorem seriesText_eq (number : Text × Text × Text × ℕ) : seriesText number = Exposition.render (seriesLines number) := by
  obtain ⟨name, help, kind, value⟩ := number
  have hhelp : "# HELP ".toList = ['#', ' ', 'H', 'E', 'L', 'P', ' '] := by decide
  have htype : "\n# TYPE ".toList = ['\n', '#', ' ', 'T', 'Y', 'P', 'E', ' '] := by decide
  have hspace : " ".toList = [' '] := by decide
  have hend : "\n".toList = ['\n'] := by decide
  unfold seriesText seriesLines Exposition.render
  simp only [hhelp, htype, hspace, hend, Exposition.Line.text, Exposition.labelsText, List.flatten_cons, List.flatten_nil,
    List.flatMap_cons, List.flatMap_nil, List.append_assoc, List.cons_append, List.nil_append, List.append_nil]

theorem buildInfo_eq (stamp : BuildStamp) : buildInfo stamp = Exposition.render (buildLines stamp) := by
  have hhelp : "# HELP kmsrsos_build_info Which build this is; the value is always 1.\n".toList = (Exposition.Line.help
      "kmsrsos_build_info".toList "Which build this is; the value is always 1.".toList).text ++ ['\n'] := by decide +kernel
  have htype : "# TYPE kmsrsos_build_info gauge\n".toList =
      (Exposition.Line.type "kmsrsos_build_info".toList "gauge".toList).text ++ ['\n'] := by decide +kernel
  have hversion : "kmsrsos_build_info\x7bversion=\"".toList =
    "kmsrsos_build_info".toList ++ '\x7b' :: ("version".toList ++ ['=', '"']) := by decide +kernel
  have hrevision : "\",revision=\"".toList = '"' :: ',' :: ("revision".toList ++ ['=', '"']) := by decide +kernel
  have hepoch : "\",source_date_epoch=\"".toList = '"' :: ',' :: ("source_date_epoch".toList ++ ['=', '"']) := by decide +kernel
  have hend : "\"\x7d 1\n".toList = '"' :: '\x7d' :: ' ' :: (decimal 1 ++ ['\n']) := by decide +kernel
  have hsample (labels : List (Text × Text)) : (Exposition.Line.sample "kmsrsos_build_info".toList labels 1).text =
      "kmsrsos_build_info".toList ++ (Exposition.labelsText labels ++ ' ' :: decimal 1) := rfl
  unfold buildInfo buildLines Exposition.render
  simp only [hhelp, htype, hversion, hrevision, hepoch, hend, hsample, buildLabels, Exposition.labelsText, Exposition.labelsTail,
    Exposition.labelText, escapeLabel_eq, List.flatten_cons, List.flatten_nil, List.flatMap_cons, List.flatMap_nil,
    List.append_assoc, List.cons_append, List.nil_append, List.append_nil]

theorem metrics_eq (stamp : BuildStamp) (snapshot : Snapshot catalogue) :
    metrics stamp snapshot = Exposition.render (exposition stamp snapshot) := by
  have hseries : (series snapshot).flatMap seriesText = Exposition.render ((series snapshot).flatMap seriesLines) := by
    rw [Exposition.render, List.flatMap_assoc]
    exact List.flatMap_congr fun number _ => seriesText_eq number
  rw [metrics, hseries, buildInfo_eq, exposition, Exposition.render, Exposition.render, Exposition.render, List.flatMap_append]

theorem plain_series (snapshot : Snapshot catalogue) : ∀ number ∈ series snapshot, ∀ line ∈ seriesLines number, line.Plain := by
  have hnamed : ∀ number ∈ series snapshot, Exposition.Name number.1 ∧ '\n' ∉ number.2.1 ∧ '\n' ∉ number.2.2.1 := by
    intro number hmem
    simp only [series, List.mem_cons, List.not_mem_nil, or_false] at hmem
    rcases hmem with rfl | rfl | rfl | rfl | rfl | rfl | rfl <;> dsimp only <;> decide +kernel
  intro number hmem line hline
  obtain ⟨hname, hhelp, hkind⟩ := hnamed number hmem
  obtain ⟨name, help, kind, value⟩ := number
  simp only [seriesLines, List.mem_cons, List.not_mem_nil, or_false] at hline
  rcases hline with rfl | rfl | rfl
  · exact ⟨hname, hhelp⟩
  · exact ⟨hname, hkind⟩
  · exact ⟨hname, fun _ hlabel => nomatch hlabel⟩

theorem plain_build (stamp : BuildStamp) : ∀ line ∈ buildLines stamp, line.Plain := by
  have hname : Exposition.Name "kmsrsos_build_info".toList := by decide
  have hlabels : Exposition.Name "version".toList ∧ Exposition.Name "revision".toList ∧
    Exposition.Name "source_date_epoch".toList := by decide
  intro line hline
  simp only [buildLines, List.mem_cons, List.not_mem_nil, or_false] at hline
  rcases hline with rfl | rfl | rfl
  · exact ⟨hname, by decide⟩
  · exact ⟨hname, by decide⟩
  · refine ⟨hname, fun label hlabel => ?_⟩
    simp only [buildLabels, List.mem_cons, List.not_mem_nil, or_false] at hlabel
    rcases hlabel with rfl | rfl | rfl
    · exact hlabels.1
    · exact hlabels.2.1
    · exact hlabels.2.2

/-- The metrics are read back, whatever the stamp says. -/
theorem read_metrics (stamp : BuildStamp) (snapshot : Snapshot catalogue) :
    Exposition.read (metrics stamp snapshot) = some (exposition stamp snapshot) := by
  rw [metrics_eq]
  refine Exposition.read_render fun line hmem => ?_
  rcases List.mem_append.mp hmem with hseries | hbuild
  · obtain ⟨number, hnumber, hline⟩ := List.mem_flatMap.mp hseries
    exact plain_series snapshot number hnumber line hline
  · exact plain_build stamp line hbuild

/-! ### A running host -/

/-- What the driver knows of the web role besides the host. -/
structure WebContext where
  kmsPorts : List UInt16
  network : Network
  entropyHealthy : Bool
  hostBuild : HostBuild
  lcid : Lcid
  stamp : BuildStamp
  gvlks : List Db.Gvlk

namespace WebContext

def snapshot (context : WebContext) (host : Host catalogue) : Snapshot catalogue where
  listening := !context.kmsPorts.isEmpty
  entropyHealthy := context.entropyHealthy
  kmsPorts := context.kmsPorts
  network := context.network
  identity := host.identity
  hostBuild := context.hostBuild
  lcid := context.lcid
  events := host.events
  buildStamp := context.stamp.display

def pages (context : WebContext) (host : Host catalogue) : Request → Response :=
  route context.stamp context.gvlks (context.snapshot host)

end WebContext

/-- The lines of a page of metrics, if a reply is one. -/
def scrape (reply : List UInt8) : Option (List Exposition.Line) :=
  (HttpReply.read false reply).bind fun received =>
    if received.1.code = 200 ∧ received.2 = [] then (fromUtf8 received.1.body).bind Exposition.read else none

open Kmsrs.Wire Kmsrs.Policy.Events Kmsrs.Policy.Gate

variable {ε : Type} (features : Features) (digests : Crypto.Digests) (rng : Kms.EntropySource ε)

/-- The requests that a run has put to the host. -/
def asksOf (past : List (Driver ε catalogue × Wake catalogue)) : List Ask :=
  past.flatMap fun turn => turn.1.asks features digests rng turn.2

theorem host_wakes (driver : Driver ε catalogue) (wakes : List (Wake catalogue)) :
    (wakes.foldl (Driver.next features digests rng) driver).server.host =
      (asksOf features digests rng (path (Driver.next features digests rng) driver wakes)).foldl (Host.next features)
        driver.server.host := by
  induction wakes generalizing driver with
  | nil => rfl
  | cons wake wakes ih =>
    rw [List.foldl_cons, ih, Driver.host_next, ← List.foldl_append]
    rfl

variable {features} in
theorem activated_entry (host : Host catalogue) (ask : Ask) (sequence : UInt64) :
    ((host.entry features ask.request ask.context).event sequence).activated = Host.open? features catalogue ask := by
  rw [Event.activated, Record.event, Host.entry, Host.outcome, Host.open?]
  cases refusal features catalogue ask.request ask.context.hostTime <;> rfl

variable {features} in
/-- The log accounts for every request put to the host, by an event that says whether it was granted. -/
theorem accounts_asks {host : Host catalogue} {history : List Event} (h : EventLog.Accounts host.events history) (asks : List Ask)
    (hfew : history.length + asks.length < 2 ^ 64) :
    ∃ logged, logged.map Event.activated = asks.map (Host.open? features catalogue) ∧
      EventLog.Accounts (asks.foldl (Host.next features) host).events (history ++ logged) := by
  induction asks generalizing host history with
  | nil => exact ⟨[], rfl, by rwa [List.append_nil]⟩
  | cons ask asks ih =>
    rw [List.length_cons] at hfew
    have hrecord := EventLog.accounts_record h (by omega) (host.entry features ask.request ask.context)
    rw [← Host.next_events] at hrecord
    obtain ⟨logged, hlogged, haccounts⟩ := ih hrecord (by rw [List.length_append, List.length_singleton]; omega)
    refine ⟨(host.entry features ask.request ask.context).event host.events.nextSequence :: logged, ?_, ?_⟩
    · rw [List.map_cons, hlogged, List.map_cons, activated_entry]
    · rwa [List.foldl_cons, List.append_cons]

/-- The numbers of a scrape: every request is held, was evicted or has aged, and those held
that were granted are counted. -/
structure Accounted (context : WebContext) (asks : List Ask) (granted : Ask → Bool) (lines : List Exposition.Line)
    (held evicted aged : ℕ) : Prop where
  every : asks.length = held + evicted + aged
  room : held ≤ defaultCapacity
  requests : Exposition.value? lines "kmsrsos_requests_total".toList = some asks.length
  activations : Exposition.value? lines "kmsrsos_activations_total".toList = some ((asks.drop (evicted + aged)).countP granted)
  window : Exposition.value? lines "kmsrsos_events_held".toList = some held
  byCapacity : Exposition.value? lines "kmsrsos_events_dropped_by_capacity_total".toList = some evicted
  byRetention : Exposition.value? lines "kmsrsos_events_dropped_by_retention_total".toList = some aged
  listener : Exposition.value? lines "kmsrsos_listener_up".toList = some (!context.kmsPorts.isEmpty).toNat
  entropy : Exposition.value? lines "kmsrsos_entropy_healthy".toList = some context.entropyHealthy.toNat
  build : Exposition.labels? lines "kmsrsos_build_info".toList = some (buildLabels context.stamp)

theorem reply_of_get {context : WebContext} {host : Host catalogue} {buffer : List UInt8} {request : Request}
    (hparse : parse buffer = .complete request) (hget : request.method = .get) :
    replyTo context.pages host buffer = some ((context.pages host request).write true) := by
  rw [replyTo, answer, hparse]
  change some ((context.pages host request).write request.method.wantsBody) = _
  rw [hget]
  rfl

theorem scrape_metrics (stamp : BuildStamp) (snapshot : Snapshot catalogue) :
    scrape ((Response.metrics (metrics stamp snapshot)).write true) = some (exposition stamp snapshot) := by
  have hread := read_write (Response.metrics (metrics stamp snapshot)) false
  rw [Bool.not_false] at hread
  rw [scrape, hread, Option.bind_some, if_pos ⟨rfl, rfl⟩]
  change (fromUtf8 (toUtf8 (metrics stamp snapshot))).bind Exposition.read = _
  rw [fromUtf8_eq_some_iff.mpr rfl, Option.bind_some, read_metrics]

theorem accounted_exposition {context : WebContext} {host : Host catalogue} {asks : List Ask} {granted : Ask → Bool}
    {logged : List Event} (hlogged : logged.map Event.activated = asks.map granted)
    (haccounts : EventLog.Accounts host.events logged) (hcapacity : host.events.capacity = defaultCapacity) :
    Accounted context asks granted (exposition context.stamp (context.snapshot host)) host.events.events.length
      host.events.dropped.byCapacity.toNat host.events.dropped.byRetention.toNat := by
  obtain ⟨gone, hsplit, hgone⟩ := haccounts.split
  have hlength : logged.length = asks.length := by
    have := congrArg List.length hlogged
    rwa [List.length_map, List.length_map] at this
  have hheld := congrArg List.length hsplit
  rw [List.length_append, hlength, hgone] at hheld
  have hactivated : host.events.events.countP Event.activated = (asks.drop gone.length).countP granted := by
    have hdrop := congrArg (List.drop gone.length) hlogged
    rw [← List.map_drop, ← List.map_drop, hsplit, List.drop_left] at hdrop
    have hcount := congrArg (List.countP id) hdrop
    rwa [List.countP_map, List.countP_map, Function.id_comp, Function.id_comp] at hcount
  have hrecorded : host.events.recorded.toNat = asks.length := haccounts.recorded.trans hlength
  exact {
    every := by omega
    room := hcapacity ▸ haccounts.room
    requests := hrecorded ▸ rfl
    activations := by
      rw [← hgone, ← hactivated]
      rfl
    window := rfl
    byCapacity := rfl
    byRetention := rfl
    listener := rfl
    entropy := rfl
    build := rfl }

theorem capacity_asks (host : Host catalogue) (asks : List Ask) :
    (asks.foldl (Host.next features) host).events.capacity = host.events.capacity := by
  induction asks generalizing host with
  | nil => rfl
  | cons ask asks ih => rw [List.foldl_cons, ih, Host.next_events, EventLog.record_capacity]

/-- Whenever a running host is scraped, its accounts are in order: the requests are those put
to it so far, each of which is held or was dropped and is counted so, the activations are those
of the requests held that the gates let through, and the build is the stamp's. -/
theorem scrape_accounts (intervals : Kms.Intervals) (operational : Config.Operational) (identity : Policy.HostIdentity catalogue)
    (advertisesNdr64 : Bool) (entropy : ε) (wakes : List (Wake catalogue)) (context : WebContext)
    (hfew : (asksOf features digests rng (path (Driver.next features digests rng)
      (Driver.start (.new intervals operational identity) advertisesNdr64 entropy) wakes)).length < 2 ^ 64)
    {buffer : List UInt8} {request : Request} (hparse : parse buffer = .complete request) (hget : request.method = .get)
    (hpath : request.path = "/metrics".toList) :
    ∃ reply lines held evicted aged,
      replyTo context.pages (wakes.foldl (Driver.next features digests rng)
        (Driver.start (.new intervals operational identity) advertisesNdr64 entropy)).server.host buffer = some reply ∧
      scrape reply = some lines ∧
      Accounted context (asksOf features digests rng (path (Driver.next features digests rng)
        (Driver.start (.new intervals operational identity) advertisesNdr64 entropy) wakes)) (Host.open? features catalogue)
        lines held evicted aged := by
  generalize hstart : Driver.start (.new intervals operational identity) advertisesNdr64 entropy = driver at hfew ⊢
  have hlog : driver.server.host.events = .default := hstart ▸ rfl
  have hfresh : EventLog.Accounts driver.server.host.events [] := hlog ▸ ⟨rfl, ⟨[], rfl, rfl⟩, by decide, by decide⟩
  obtain ⟨logged, hlogged, haccounts⟩ := @accounts_asks catalogue features _ _ hfresh _ (by simpa using hfew)
  have hcapacity := capacity_asks features driver.server.host
    (asksOf features digests rng (path (Driver.next features digests rng) driver wakes))
  rw [hlog] at hcapacity
  have hhost := host_wakes features digests rng driver wakes
  rw [← hhost] at haccounts hcapacity
  refine ⟨_, _, _, _, _, reply_of_get hparse hget, ?_, accounted_exposition hlogged haccounts hcapacity⟩
  have hroute : context.pages (wakes.foldl (Driver.next features digests rng) driver).server.host request =
      .metrics (metrics context.stamp (context.snapshot (wakes.foldl (Driver.next features digests rng) driver).server.host)) := by
    rw [WebContext.pages, route, hpath]
    rfl
  rw [hroute, scrape_metrics]

/-- What a monitor sends. -/
def metricsHead : List UInt8 := "GET /metrics HTTP/1.1\r\nHost: kms\r\n\r\n".toUTF8.toList

/-- A stamp that is not careful with its characters. -/
def sampleContext : WebContext where
  kmsPorts := [1688]
  network := ⟨[], none⟩
  entropyHealthy := true
  hostBuild := ⟨20348, true, "Windows Server 2022"⟩
  lcid := ⟨1033, "en-US"⟩
  stamp := ⟨"1.0".toList, "a\"\\\n".toList, unknown⟩
  gvlks := []

open Driver Crypto in
/-- After one request. -/
theorem scrape_accounts_sample :
    ∃ reply lines held evicted aged,
      replyTo sampleContext.pages ((asking [office]).foldl (next .default Connection.denying.digests Connection.denying.rng)
        (start (.new .default .default twoIdentities) false ())).server.host metricsHead = some reply ∧
      scrape reply = some lines ∧
      Accounted sampleContext (asksOf .default Connection.denying.digests Connection.denying.rng
        (path (next .default Connection.denying.digests Connection.denying.rng)
          (start (.new .default .default twoIdentities) false ()) (asking [office]))) (Host.open? .default twoKeys)
        lines held evicted aged :=
  scrape_accounts .default Connection.denying.digests Connection.denying.rng .default .default twoIdentities false ()
    (asking [office]) sampleContext (by decide +kernel)
    (show parse metricsHead = .complete ⟨.get, "/metrics".toList, none, 36, some "kms".toList⟩ by decide +kernel) rfl rfl

end Kmsrs.Web
