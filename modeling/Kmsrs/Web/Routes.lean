import Kmsrs.Kms.WorkstationName
import Kmsrs.Lib.Html
import Kmsrs.Lib.IpText
import Kmsrs.Policy.Fleet
import Kmsrs.Policy.Identity
import Kmsrs.Server.Display
import Kmsrs.Web.Request

/-! The pages that show what clients sent: the status, the events and the instructions.
A format string and its arguments are a list of pieces, put one after the other. -/

namespace Kmsrs.Web

open Kms Policy Policy.Events Text

def eventsPerPage : ℕ := 100
def machinesPerPage : ℕ := 50
def kmsPort : UInt16 := 1688

/-- What a page says of the Windows build the host claims. -/
structure HostBuild where
  build : UInt32
  ndr64 : Bool
  description : String

structure Lcid where
  value : UInt32
  language : String

/-- What was learned from the DHCP lease. -/
structure Network where
  searchDomains : List Text
  address : Option Os.Ipv4Addr

/-- What a page is rendered from. The build and the locale are those of the identity;
the stamp is the program's own. -/
structure Snapshot (catalogue : Db.Catalogue) where
  listening : Bool
  entropyHealthy : Bool
  kmsPorts : List UInt16
  network : Network
  identity : HostIdentity catalogue
  hostBuild : HostBuild
  lcid : Lcid
  events : EventLog
  buildStamp : Text

variable {catalogue : Db.Catalogue}

/-! ### Text in a page -/

def escapeCharacter (c : Char) : Text :=
  if c ∈ Html.special then Html.reference c else if isControl c then [Char.ofNat 0xFFFD] else [c]

/-- Escape untrusted text. -/
def escape (text : Text) : Text := text.flatMap escapeCharacter

def style : Text :=
  ["body\x7bfont:14px/1.5 system-ui,sans-serif;margin:2rem auto;max-width:60rem;padding:0 1rem\x7d".toList,
    "h1\x7bfont-size:1.3rem\x7dh2\x7bfont-size:1.05rem;margin-top:2rem\x7d".toList,
    "nav a\x7bmargin-right:1rem\x7d".toList,
    "table\x7bborder-collapse:collapse;width:100%;font-size:13px\x7d".toList,
    "th,td\x7btext-align:left;padding:.25rem .5rem;border-bottom:1px solid #8884\x7d".toList,
    "th\x7bfont-weight:600\x7d".toList,
    "code\x7bfont-family:ui-monospace,monospace\x7d".toList,
    ".ok\x7bcolor:#2a7\x7d.no\x7bcolor:#c33\x7d".toList,
    "@media(prefers-color-scheme:dark)\x7bbody\x7bbackground:#111;color:#ddd\x7d\x7d".toList].flatten

/-- The page up to its body. -/
def pageHead (title : Text) : Text :=
  ["<!doctype html><html lang=\"en\"><head><meta charset=\"utf-8\">".toList,
    "<meta name=\"viewport\" content=\"width=device-width,initial-scale=1\">".toList,
    "<title>".toList, escape title, " — kmsrsos</title><style>".toList, style, "</style></head><body>".toList,
    "<nav><a href=\"/\">status</a><a href=\"/events\">events</a>".toList,
    "<a href=\"/instructions\">instructions</a><a href=\"/products\">products</a></nav>".toList,
    "<h1>".toList, escape title, "</h1>".toList].flatten

/-- Wrap a body in the page chrome. -/
def page (title body : Text) : Text := [pageHead title, body, "</body></html>".toList].flatten

/-- The class of a good or a bad value. -/
def okClass (good : Bool) : Text := if good then "ok".toList else "no".toList

/-! ### The status -/

/-- Join the bound ports for display. -/
def joinPorts (ports : List UInt16) : Text :=
  if ports.isEmpty then "none".toList
  else List.intercalate ", ".toList (ports.map fun port => decimal port.toNat)

/-- One row of the fleet view. -/
def machineRow (row : ClientView) : Text :=
  ["<tr><td>".toList, escape row.workstationName.text,
    "</td><td><code>".toList, escape row.clientMachineId.display,
    "</code></td><td><code>".toList, escape row.sku.display,
    "</code></td><td>".toList, decimal row.requests.toNat,
    "</td><td class=\"".toList ++ okClass row.activatedLast ++ "\">".toList, decimal row.activations.toNat,
    " / ".toList, decimal row.requests.toNat,
    "</td><td><code>".toList, escape (row.peer.elim "—".toList fun peer => peer.address.display),
    "</code></td></tr>".toList].flatten

/-- The fleet, one row for each machine and product. -/
def machinesTable (snapshot : Snapshot catalogue) : Text :=
  let rows := snapshot.events.clients machinesPerPage
  ["<h2>Machines seen</h2>".toList,
    "<p>One row per machine and product. A machine activating Windows and ".toList,
    "Office is two rows here and one entry in each of two counts.</p>".toList,
    "<table><tr><th>Name</th><th>Machine</th><th>Product</th>".toList,
    "<th>Requests</th><th>Activated</th><th>From</th></tr>".toList,
    if rows.isEmpty then "<tr><td colspan=\"6\">nothing yet</td></tr>".toList else [],
    rows.flatMap machineRow,
    "</table>".toList].flatten

/-- The host keys that answer, with the identity of each and how many products it
answers for, in the order in which they come up. -/
def countAnswer (index : UInt16) (epid : Text) : List (UInt16 × Text × ℕ) → List (UInt16 × Text × ℕ)
  | [] => [(index, epid, 1)]
  | (seen, shown, count) :: answered =>
    if seen = index then (seen, shown, count + 1) :: answered else (seen, shown, count) :: countAnswer index epid answered

/-- `Display` of a host identity. -/
def displayEpid (epid : EPid) : Text := decodeLossy epid.units

def answered (identity : HostIdentity catalogue) : List (UInt16 × Text × ℕ) :=
  catalogue.countedIds.foldl (fun rows counted =>
    match (counted.csvlks.head?.bind catalogue.csvlkAt).bind Db.Csvlk.application with
    | none => rows
    | some application =>
      let (selection, group) := identity.select application counted.guid
      countAnswer selection.index (displayEpid group.epid) rows) []

def answeredRow (catalogue : Db.Catalogue) : UInt16 × Text × ℕ → Text
  | (index, epid, count) =>
    ["<tr><td>".toList, escape ((catalogue.csvlkAt index).elim "unknown".toList fun csvlk => csvlk.description.toList),
      "</td><td>".toList, decimal count,
      "</td><td><code>".toList, escape epid,
      "</code></td></tr>".toList].flatten

/-- What this host is and whether it is working. -/
def statusTable (snapshot : Snapshot catalogue) : Text :=
  ["<table><tr><th>KMS listener</th><td class=\"".toList ++ okClass snapshot.listening ++ "\">".toList,
    if snapshot.listening then "accepting".toList else "not accepting".toList,
    "</td></tr><tr><th>Ports</th><td><code>".toList, escape (joinPorts snapshot.kmsPorts),
    "</code></td></tr><tr><th>Entropy self-test</th><td class=\"".toList ++ okClass snapshot.entropyHealthy ++ "\">".toList,
    if snapshot.entropyHealthy then "passing".toList else "FAILING".toList,
    "</td></tr><tr><th>Host build</th><td>".toList, escape snapshot.hostBuild.description.toList,
    " <code>".toList, decimal snapshot.hostBuild.build.toNat,
    "</code></td></tr><tr><th>Locale</th><td>".toList, escape snapshot.lcid.language.toList,
    " <code>".toList, decimal snapshot.lcid.value.toNat,
    "</code></td></tr><tr><th>NDR64</th><td>".toList, if snapshot.hostBuild.ndr64 then "yes".toList else "no".toList,
    "</td></tr><tr><th>Requests seen</th><td>".toList, decimal snapshot.events.recorded.toNat,
    "</td></tr><tr><th>Events held</th><td>".toList, decimal snapshot.events.events.length,
    "</td></tr><tr><th>Build</th><td><code>".toList, escape snapshot.buildStamp,
    "</code></td></tr></table>".toList].flatten

def statusBody (snapshot : Snapshot catalogue) : Text :=
  [statusTable snapshot,
    "<h2>What this host answers with</h2>".toList,
    "<table><tr><th>Host key</th><th>Products</th><th>ePID</th></tr>".toList,
    (answered snapshot.identity).flatMap (answeredRow catalogue),
    "</table>".toList,
    machinesTable snapshot].flatten

def statusPage (snapshot : Snapshot catalogue) : Text := page "Status".toList (statusBody snapshot)

/-! ### The events -/

/-- One line for an outcome. -/
def describeOutcome : Events.Outcome → Text
  | .activated activation => "activated, count ".toList ++ decimal activation.reportedCount.toNat
  | .refused refusal => "refused: ".toList ++ refusal.debug

def eventRow (catalogue : Db.Catalogue) (event : Event) : Text :=
  let product := (catalogue.product event.counted).elim event.counted.display fun product => product.description.toList
  ["<tr><td>".toList, decimal event.sequence.toNat,
    "</td><td><code>".toList, escape (event.peer.elim "—".toList fun peer => peer.address.display),
    "</code></td><td>".toList, escape (decimal event.version.major.toNat ++ ['.'] ++ decimal event.version.minor.toNat),
    "</td><td>".toList, escape product,
    "</td><td><code>".toList, escape event.clientMachineId.display,
    "</code></td><td>".toList, escape event.workstationName.text,
    "</td><td>".toList, escape (describeOutcome event.outcome),
    "</td></tr>".toList].flatten

/-- The events of the page, in the order in which they are shown. -/
def shownEvents (log : EventLog) : List Event := (log.recent eventsPerPage).reverse

def eventsBody (snapshot : Snapshot catalogue) : Text :=
  let log := snapshot.events
  ["<p>".toList, decimal log.events.length, " of ".toList, decimal log.recorded.toNat,
    " recorded, showing the most recent ".toList, decimal (min eventsPerPage log.events.length), ". ".toList,
    decimal log.dropped.byRetention.toNat, " aged out, ".toList, decimal log.dropped.byCapacity.toNat,
    " evicted for capacity.</p>".toList,
    "<table><tr><th>#</th><th>From</th><th>Ver</th><th>Product</th>".toList,
    "<th>Machine</th><th>Name</th><th>Outcome</th></tr>".toList,
    (shownEvents log).flatMap (eventRow catalogue),
    "</table>".toList].flatten

/-- The most recent page of the log. -/
def eventsPage (snapshot : Snapshot catalogue) : Text := page "Events".toList (eventsBody snapshot)

/-! ### The instructions -/

def hostPlaceholder : Text := "KMS-HOST".toList
def zonePlaceholder : Text := "EXAMPLE.COM".toList

/-- Whether an address is one Windows clients refuse to activate against. -/
def isLoopbackText (address : Text) : Bool :=
  let bare := trimEndMatches ']' (address.dropWhile (· == '['))
  eqIgnoreAsciiCase bare "localhost".toList || bare = "::1".toList ||
    (IpText.parse bare).elim false IpText.Address.isLoopback

/-- The warning of a page reached over loopback, and the address of the lease. -/
def loopbackNote (network : Network) : Text :=
  ["<h2 class=\"no\">This page was reached over loopback</h2>".toList,
    "<p><strong>A Windows client will not activate against ".toList,
    "<code>127.0.0.1</code> or <code>::1</code>.</strong> Software ".toList,
    "Protection Platform refuses a KMS host on the loopback interface, ".toList,
    "whatever the port, and reports a generic failure rather than ".toList,
    "saying so.</p>".toList,
    "<p>Give the clients an address that is not loopback: this ".toList,
    "machine's LAN address, a second interface, a container bridge ".toList,
    "address, or the host-side address of a Hyper-V or WSL virtual ".toList,
    "switch. The commands below will work once <code>".toList, hostPlaceholder, "</code> ".toList,
    "is one of those.</p>".toList,
    network.address.elim [] fun leased =>
      ["<p>This machine's DHCP lease says its address is ".toList,
        "<code>".toList, leased.display, "</code>. That is very likely the one you want.</p>".toList].flatten].flatten

/-- The further search domains of the lease. -/
def extraNote (extra : List Text) : Text :=
  if extra.isEmpty then []
  else
    ["<p>The lease lists further search domains: ".toList,
      List.intercalate ", ".toList (extra.map fun domain => ["<code>".toList, escape domain, "</code>".toList].flatten),
      ". A client ".toList,
      "tries each in turn, so publishing the record in any one of ".toList,
      "them works — the first is simply the one it tries first.</p>".toList].flatten

/-- Where the zone comes from, or that it has to be put in. -/
def substituteNote : List Text → Text
  | [] =>
    ["<p>Replace <code>".toList, zonePlaceholder, "</code> with the domain the ".toList,
      "clients search — their primary DNS suffix, which in a domain is ".toList,
      "the domain itself.</p>".toList].flatten
  | zone :: extra =>
    ["<p>The zone above is <code>".toList, escape zone, "</code> because that is what ".toList,
      "this machine's DHCP lease says the clients on this network ".toList,
      "search. Change it if the clients you mean to activate search ".toList,
      "something else.</p>".toList, extraNote extra].flatten

def clientSteps (address port : Text) : Text :=
  ["<h2>On each client</h2>".toList,
    "<p>Run as administrator:</p>".toList,
    "<pre><code>slmgr /skms ".toList, address, ":".toList, port, "\nslmgr /ato</code></pre>".toList,
    "<p>For Office, run the same two steps against <code>ospp.vbs</code> in ".toList,
    "the Office installation directory:</p>".toList,
    "<pre><code>cscript ospp.vbs /sethst:".toList, address, "\ncscript ospp.vbs /act</code></pre>".toList,
    "<p>A client must already be installed with the generic volume licence ".toList,
    "key for its edition, or it will not contact a KMS host at all. ".toList,
    "<a href=\"/products\">The product list</a> has them.</p>".toList].flatten

def dnsSteps (address port zone : Text) : Text :=
  ["<h2>Or by DNS, so no client needs configuring</h2>".toList,
    "<p>A client with no explicit host looks up ".toList,
    "<code>_vlmcs._tcp</code> in the domains it searches, which is how a ".toList,
    "real KMS deployment is found. Publish one of these; all three say the ".toList,
    "same thing.</p>".toList,
    "<h3>BIND-style zone file</h3>".toList,
    "<pre><code>_vlmcs._tcp  IN  SRV  0 0 ".toList, port, "  ".toList, address, ".</code></pre>".toList,
    "<p>The four numbers are priority, weight, port and target. Clients ".toList,
    "order by ascending priority, then by weighted random choice within a ".toList,
    "priority (RFC 2782), so a single host needs neither and zero for both ".toList,
    "is the convention.</p>".toList,
    "<h3>nsupdate</h3>".toList,
    "<pre><code>nsupdate &lt;&lt;'EOF'\n".toList,
    "update add _vlmcs._tcp.".toList, zone, ". 3600 SRV 0 0 ".toList, port, " ".toList, address, ".\n".toList,
    "send\n".toList,
    "EOF</code></pre>".toList,
    "<h3>Windows DNS, in an Active Directory domain</h3>".toList,
    "<pre><code>dnscmd . /RecordAdd ".toList, zone, " _vlmcs._tcp SRV 0 0 ".toList, port, " ".toList, address, "</code></pre>".toList,
    "<p>or the PowerShell equivalent:</p>".toList,
    "<pre><code>Add-DnsServerResourceRecord -ZoneName ".toList, zone, " ``\n".toList,
    "&nbsp; -Name _vlmcs._tcp -Srv -Priority 0 -Weight 0 ``\n".toList,
    "&nbsp; -Port ".toList, port, " -DomainName ".toList, address, "</code></pre>".toList].flatten

def checkSteps (zone : Text) : Text :=
  ["<h2>Checking it</h2>".toList,
    "<pre><code>nslookup -type=srv _vlmcs._tcp.".toList, zone, "\nslmgr /dlv</code></pre>".toList,
    "<p><code>/dlv</code> prints the host it used and the activation ".toList,
    "interval, which is the quickest way to tell &lsquo;the client never ".toList,
    "found a host&rsquo; from &lsquo;the client found one and did not like ".toList,
    "the answer&rsquo;.</p>".toList].flatten

def instructionsBody (snapshot : Snapshot catalogue) (host : Option Text) : Text :=
  let port := decimal (snapshot.kmsPorts.head?.getD kmsPort).toNat
  let address := host.elim hostPlaceholder escape
  let zone := snapshot.network.searchDomains.head?.elim zonePlaceholder escape
  [if isLoopbackText address then loopbackNote snapshot.network else [],
    clientSteps address port,
    dnsSteps address port zone,
    substituteNote snapshot.network.searchDomains,
    checkSteps zone].flatten

/-- How to point a client here. -/
def instructionsPage (snapshot : Snapshot catalogue) (host : Option Text) : Text :=
  page "Instructions".toList (instructionsBody snapshot host)

end Kmsrs.Web
