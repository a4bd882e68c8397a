import Kmsrs.Policy.Limits
import Kmsrs.Server.Instance

/-! The driver. It serves every connection in a loop of its own: a read is charged to
the source and the application of the request before, which the driver recovers from
the newest event of the log that all connections share. The pages of the web role are
a parameter. -/

namespace Kmsrs.Server

open Kmsrs.Bytes Kmsrs.Layout Kmsrs.Kms Kmsrs.Wire Kmsrs.Db Kmsrs.Policy Kmsrs.Policy.Access Kmsrs.Policy.Gate Kmsrs.Policy.Events

inductive Session where
  | kms (connection : Connection)
  | web (inbound : List UInt8)

/-- A connection being served, and the application its next read is charged to. -/
structure Client where
  peer : Peer
  session : Session
  lastApplication : Guid

/-- What the web role answers: to a head that is too long, and to the bytes of a
request so far, once they are enough. -/
structure Site (catalogue : Catalogue) where
  headersTooLarge : List UInt8
  answer : Host catalogue → List UInt8 → Option (List UInt8)

/-- The driver: its clock, what its connections share, and the connections, each
under a number of its own. -/
structure Driver (ε : Type) (catalogue : Catalogue) where
  elapsed : ℕ
  advertisesNdr64 : Bool
  server : Server catalogue
  entropy : ε
  accepted : ℕ
  clients : ℕ → Option Client

/-- What the driver wakes up for. A connection is dropped when its peer closes it, a
deadline passes or a write fails. -/
inductive Wake (catalogue : Catalogue) where
  | tick (nanos : ℕ)
  | acceptKms (peer : Peer) (port : UInt16)
  | acceptWeb (peer : Peer)
  | read (id : ℕ) (bytes : List UInt8) (hostTime : Option UInt64) (site : Site catalogue)
  | drop (id : ℕ)

/-- This wake is a read of the connection. -/
def Wake.reads {catalogue : Catalogue} (id : ℕ) : Wake catalogue → Bool
  | .read reader .. => reader = id
  | _ => false

def maxOutbound : ℕ := 8 * 1024
def maxWebOutbound : ℕ := 512 * 1024
def maxRequest : ℕ := 8 * 1024

/-- The most a session may be sent at once. -/
def Session.ceiling : Session → ℕ
  | .kms _ => maxOutbound
  | .web _ => maxWebOutbound

/-- Accumulate a web request, and answer it once its head is complete. -/
def serveWeb {catalogue : Catalogue} (site : Site catalogue) (host : Host catalogue) (inbound input : List UInt8) :
    List UInt8 × Handled :=
  if maxRequest < inbound.length + input.length then (inbound, ⟨site.headersTooLarge, true⟩)
  else
    match site.answer host (inbound ++ input) with
    | none => (inbound ++ input, ⟨[], false⟩)
    | some bytes => (inbound ++ input, ⟨bytes, true⟩)

/-- The application of the newest event. -/
def newest {catalogue : Catalogue} (host : Host catalogue) : Option Guid :=
  host.events.events.getLast?.map Event.application

namespace Driver

variable {ε : Type} {catalogue : Catalogue} (features : Features) (digests : Crypto.Digests) (rng : EntropySource ε)

/-- A driver of a new server. -/
def start (server : Server catalogue) (advertisesNdr64 : Bool) (entropy : ε) : Driver ε catalogue :=
  ⟨0, advertisesNdr64, server, entropy, 0, fun _ => none⟩

def now (driver : Driver ε catalogue) : Instant := saturateU64 driver.elapsed

/-- A connection's association group is drawn, or zero. -/
def associationGroup (entropy : ε) : UInt32 × ε :=
  match rng.fill entropy 4 with
  | (some bytes, entropy) => (u32.decode bytes.toList, entropy)
  | (none, entropy) => (0, entropy)

/-- Start serving a connection. Addresses are normalised before anything looks. -/
def accept (driver : Driver ε catalogue) (peer : Peer) (session : Session) : Driver ε catalogue :=
  let client := { peer := { peer with address := canonical peer.address }, session, lastApplication := Guid.zero }
  { driver with
    accepted := driver.accepted + 1
    clients := Function.update driver.clients driver.accepted (some client) }

/-- A read, as the server is handed it. -/
def handling (driver : Driver ε catalogue) (client : Client) (connection : Connection) (bytes : List UInt8)
    (hostTime : Option UInt64) : Handling ε :=
  ⟨connection, driver.entropy, ⟨bytes, some client.peer, driver.now, hostTime⟩⟩

/-- Serve a read that was admitted: the session after it and what to send. -/
def serveRead (driver : Driver ε catalogue) (client : Client) (bytes : List UInt8) (hostTime : Option UInt64)
    (site : Site catalogue) : Driver ε catalogue × Session × Handled :=
  match client.session with
  | .kms connection =>
    let call := driver.handling client connection bytes hostTime
    let turn := driver.server.handle features digests rng call
    ({ driver with server := driver.server.next features digests rng call, entropy := turn.machine.entropy },
      .kms turn.machine.connection, turn.handled)
  | .web inbound =>
    let (inbound, handled) := serveWeb site driver.server.host inbound bytes
    (driver, .web inbound, handled)

/-- A read of a connection: charge it, serve it, and remember what it was about. -/
def read (driver : Driver ε catalogue) (id : ℕ) (client : Client) (bytes : List UInt8) (hostTime : Option UInt64)
    (site : Site catalogue) : Driver ε catalogue :=
  match driver.server.limiter.admitFor client.peer.address client.lastApplication driver.now with
  | (.limited _, limiter) =>
    { driver with
      server := driver.server.withLimiter limiter
      clients := Function.update driver.clients id none }
  | (.allowed _, limiter) =>
    let (driver, session, handled) := serveRead features digests rng
      { driver with server := driver.server.withLimiter limiter } client bytes hostTime site
    let lastApplication := (newest driver.server.host).getD client.lastApplication
    let closes := session.ceiling < handled.response.length || handled.close
    { driver with
      clients := Function.update driver.clients id
        (if closes then none else some { client with session, lastApplication }) }

/-- A read of nothing is the peer's close. -/
def next (driver : Driver ε catalogue) : Wake catalogue → Driver ε catalogue
  | .tick nanos => { driver with elapsed := driver.elapsed + nanos }
  | .acceptKms peer port =>
    let (group, entropy) := associationGroup rng driver.entropy
    { driver with entropy }.accept peer (.kms (connection group driver.advertisesNdr64 port))
  | .acceptWeb peer => driver.accept peer (.web [])
  | .read id bytes hostTime site =>
    match driver.clients id with
    | none => driver
    | some client =>
      if bytes = [] then { driver with clients := Function.update driver.clients id none }
      else read features digests rng driver id client bytes hostTime site
  | .drop id => { driver with clients := Function.update driver.clients id none }

/-! ### What a read does -/

/-- What a wake asks of the limiter. -/
def attempt? (driver : Driver ε catalogue) : Wake catalogue → Option Attempt
  | .read id bytes _ _ =>
    if bytes = [] then none
    else (driver.clients id).map fun client => ⟨client.peer.address, client.lastApplication, driver.now⟩
  | _ => none

/-- What a wake puts to the host, and so has logged. -/
def asks (driver : Driver ε catalogue) : Wake catalogue → List Ask
  | .read id bytes hostTime _ =>
    match driver.clients id with
    | none => []
    | some client =>
      match client.session with
      | .web _ => []
      | .kms connection =>
        if bytes ≠ [] ∧ (driver.server.limiter.attempt ⟨client.peer.address, client.lastApplication, driver.now⟩).1.isAllowed then
          driver.server.asks features digests rng (driver.handling client connection bytes hostTime)
        else []
  | _ => []

variable {features digests rng}

section
variable (features digests rng) (driver : Driver ε catalogue) (id : ℕ) (client : Client) (bytes : List UInt8)
  (hostTime : Option UInt64) (site : Site catalogue)

/-- Serving a read puts its requests to the host. -/
theorem serveRead_spec :
    ∃ session handled entropy host, serveRead features digests rng driver client bytes hostTime site =
        ({ driver with server := { driver.server with host }, entropy }, session, handled) ∧
      host = (match client.session with
        | .web _ => []
        | .kms connection =>
          driver.server.asks features digests rng (driver.handling client connection bytes hostTime)).foldl
        (Host.next features) driver.server.host := by
  unfold serveRead
  cases client.session with
  | kms connection => exact ⟨_, _, _, _, rfl, Server.host_next driver.server _⟩
  | web inbound => exact ⟨_, _, driver.entropy, driver.server.host, rfl, rfl⟩

/-- A read that the limiter lets through is put to the host by the session it is on. -/
theorem asks_read (hclient : driver.clients id = some client) (hbytes : bytes ≠ []) :
    driver.asks features digests rng (.read id bytes hostTime site) =
      if (driver.server.limiter.attempt ⟨client.peer.address, client.lastApplication, driver.now⟩).1.isAllowed then
        match client.session with
        | .web _ => []
        | .kms connection =>
          driver.server.asks features digests rng (driver.handling client connection bytes hostTime)
      else [] := by
  simp only [asks, hclient, hbytes, ne_eq, not_false_eq_true, true_and]
  cases client.session with
  | kms connection => rfl
  | web inbound => exact (ite_self _).symm

/-- A read charges the limiter, puts its requests to the host, and leaves its
connection, if it stays open, with the application of the newest event. -/
theorem read_spec (hclient : driver.clients id = some client) (hbytes : bytes ≠ []) :
    ∃ entropy kept host,
      read features digests rng driver id client bytes hostTime site =
        { driver with
          server :=
            { driver.server with
              host
              limiter := (driver.server.limiter.attempt
                ⟨client.peer.address, client.lastApplication, driver.now⟩).2 }
          entropy
          clients := Function.update driver.clients id kept } ∧
      host = (driver.asks features digests rng (.read id bytes hostTime site)).foldl (Host.next features)
        driver.server.host ∧
      ∀ client', kept = some client' → client'.peer = client.peer ∧
        client'.lastApplication = (newest host).getD client.lastApplication := by
  have hasks := asks_read features digests rng driver id client bytes hostTime site hclient hbytes
  rw [hasks, RateLimiter.attempt]
  unfold read
  cases driver.server.limiter.admitFor client.peer.address client.lastApplication driver.now with
  | mk admission limiter =>
    cases admission with
    | limited retryAfter => exact ⟨driver.entropy, none, driver.server.host, rfl, rfl, by simp⟩
    | allowed remaining =>
      obtain ⟨session, handled, entropy, host, hserve, hhost⟩ :=
        serveRead_spec features digests rng
          { driver with server := driver.server.withLimiter limiter } client bytes hostTime site
      dsimp only
      rw [hserve]
      refine ⟨entropy, _, host, rfl, hhost, ?_⟩
      intro client' hkept
      split_ifs at hkept
      cases hkept
      exact ⟨rfl, rfl⟩

end

/-! ### What a wake does -/

theorem newest_next (host : Host catalogue) (ask : Ask) :
    newest (host.next features ask) = some ask.request.application := by
  obtain ⟨kept, -, hafter⟩ := host.events.record_appends (host.entry features ask.request ask.context)
  rw [newest, Host.next_events, hafter, List.getLast?_concat]
  rfl

/-- The newest event is of the last request put to the host, if there was one. -/
theorem newest_run (host : Host catalogue) (asks : List Ask) :
    newest (asks.foldl (Host.next features) host) =
      (asks.getLast?.map fun ask => ask.request.application).or (newest host) := by
  induction asks using List.reverseRecOn with
  | nil => rfl
  | append_singleton asks ask ih =>
    rw [List.foldl_append, List.foldl_cons, List.foldl_nil, newest_next, List.getLast?_concat]
    rfl

variable (features digests rng) in
/-- The host after a wake is the host after what was put to it. -/
theorem host_next (driver : Driver ε catalogue) (wake : Wake catalogue) :
    (driver.next features digests rng wake).server.host =
      (driver.asks features digests rng wake).foldl (Host.next features) driver.server.host := by
  cases wake with
  | read id bytes hostTime site =>
    rw [next]
    cases hclient : driver.clients id with
    | none => simp [asks, hclient]
    | some client =>
      by_cases hbytes : bytes = []
      · cases hsession : client.session <;> simp [asks, hclient, hbytes, hsession]
      · obtain ⟨entropy, kept, host, hread, hhost, -⟩ :=
          read_spec features digests rng driver id client bytes hostTime site hclient hbytes
        simp only [if_neg hbytes, hread, hhost]
  | tick nanos => rfl
  | acceptKms peer port => rfl
  | acceptWeb peer => rfl
  | drop id => rfl

variable (features digests rng) in
/-- The limiter after a wake is the limiter after what was asked of it. -/
theorem limiter_next (driver : Driver ε catalogue) (wake : Wake catalogue) :
    (driver.next features digests rng wake).server.limiter =
      driver.server.limiter.run (driver.attempt? wake).toList := by
  cases wake with
  | read id bytes hostTime site =>
    rw [next, attempt?]
    cases hclient : driver.clients id with
    | none => simp
    | some client =>
      by_cases hbytes : bytes = []
      · simp [hbytes]
      · obtain ⟨entropy, kept, host, hread, -, -⟩ :=
          read_spec features digests rng driver id client bytes hostTime site hclient hbytes
        simp only [if_neg hbytes, hread]
        rfl
  | tick nanos => rfl
  | acceptKms peer port => rfl
  | acceptWeb peer => rfl
  | drop id => rfl

variable (features digests rng) in
/-- The clock goes forward, and connections are numbered upward. -/
theorem next_grows (driver : Driver ε catalogue) (wake : Wake catalogue) :
    driver.elapsed ≤ (driver.next features digests rng wake).elapsed ∧
      driver.accepted ≤ (driver.next features digests rng wake).accepted := by
  cases wake with
  | read id bytes hostTime site =>
    rw [next]
    cases hclient : driver.clients id with
    | none => exact ⟨le_rfl, le_rfl⟩
    | some client =>
      by_cases hbytes : bytes = []
      · simp [hbytes]
      · obtain ⟨entropy, kept, host, hread, -, -⟩ :=
          read_spec features digests rng driver id client bytes hostTime site hclient hbytes
        simp only [if_neg hbytes, hread, le_refl, and_self]
  | tick nanos => exact ⟨Nat.le_add_right _ _, le_rfl⟩
  | acceptKms peer port => exact ⟨le_rfl, Nat.le_succ _⟩
  | acceptWeb peer => exact ⟨le_rfl, Nat.le_succ _⟩
  | drop id => exact ⟨le_rfl, le_rfl⟩

/-- A read of a connection that is not open puts nothing to the host. -/
theorem asks_of_none {driver : Driver ε catalogue} {wake : Wake catalogue} {id : ℕ} (hreads : wake.reads id = true)
    (hclient : driver.clients id = none) : driver.asks features digests rng wake = [] := by
  cases wake with
  | read reader bytes hostTime site =>
    obtain rfl : reader = id := by simpa [Wake.reads] using hreads
    simp [asks, hclient]
  | tick nanos => rfl
  | acceptKms peer port => rfl
  | acceptWeb peer => rfl
  | drop other => rfl

variable (features digests rng) in
/-- Where an open connection comes from: it was open and this was not its read, or it
was just accepted, or this was its read. -/
theorem clients_next (driver : Driver ε catalogue) (wake : Wake catalogue) {id : ℕ} {client' : Client}
    (h : (driver.next features digests rng wake).clients id = some client') :
    (driver.clients id = some client' ∧ wake.reads id = false) ∨
    (id = driver.accepted ∧ (driver.next features digests rng wake).accepted = driver.accepted + 1 ∧
      client'.lastApplication = Guid.zero ∧ wake.reads id = false) ∨
    ∃ client, driver.clients id = some client ∧ wake.reads id = true ∧ client'.peer = client.peer ∧
      client'.lastApplication =
        (newest (driver.next features digests rng wake).server.host).getD client.lastApplication := by
  have hupdate : ∀ (clients : ℕ → Option Client) (other : ℕ) (kept : Option Client),
      Function.update clients other kept id = some client' →
        (id ≠ other ∧ clients id = some client') ∨ (id = other ∧ kept = some client') := by
    intro clients other kept hsome
    by_cases hid : id = other
    · subst hid
      rw [Function.update_self] at hsome
      exact .inr ⟨rfl, hsome⟩
    · rw [Function.update_of_ne hid] at hsome
      exact .inl ⟨hid, hsome⟩
  cases wake with
  | tick nanos => exact .inl ⟨h, rfl⟩
  | acceptKms peer port =>
    rcases hupdate _ _ _ h with ⟨-, hold⟩ | ⟨hid, hnew⟩
    · exact .inl ⟨hold, rfl⟩
    · cases hnew
      exact .inr (.inl ⟨hid, rfl, rfl, rfl⟩)
  | acceptWeb peer =>
    rcases hupdate _ _ _ h with ⟨-, hold⟩ | ⟨hid, hnew⟩
    · exact .inl ⟨hold, rfl⟩
    · cases hnew
      exact .inr (.inl ⟨hid, rfl, rfl, rfl⟩)
  | drop other =>
    rcases hupdate _ _ _ h with ⟨-, hold⟩ | ⟨-, hnew⟩
    · exact .inl ⟨hold, rfl⟩
    · cases hnew
  | read reader bytes hostTime site =>
    rw [next] at h ⊢
    cases hclient : driver.clients reader with
    | none =>
      rw [hclient] at h
      have hother : reader ≠ id := by
        rintro rfl
        rw [hclient] at h
        cases h
      exact .inl ⟨h, by simpa [Wake.reads] using hother⟩
    | some client =>
      rw [hclient] at h
      by_cases hbytes : bytes = []
      · simp only [if_pos hbytes] at h
        rcases hupdate _ _ _ h with ⟨hid, hold⟩ | ⟨-, hnew⟩
        · exact .inl ⟨hold, by simpa [Wake.reads] using Ne.symm hid⟩
        · cases hnew
      · obtain ⟨entropy, kept, host, hread, -, hkept⟩ :=
          read_spec features digests rng driver reader client bytes hostTime site hclient hbytes
        simp only [if_neg hbytes, hread] at h ⊢
        rcases hupdate _ _ _ h with ⟨hid, hold⟩ | ⟨hid, hnew⟩
        · exact .inl ⟨hold, by simpa [Wake.reads] using Ne.symm hid⟩
        · subst hid
          exact .inr (.inr ⟨client, hclient, by simp [Wake.reads], hkept client' hnew⟩)

end Driver

end Kmsrs.Server
