import Kmsrs.Server.Driver

/-! The key a connection's reads are charged to. It is meant to be the application of
the last request the connection itself made. A read that makes no request takes it
from whatever event is newest in the shared log, so it stays the connection's own
exactly as long as such a read finds no other application there. -/

namespace Kmsrs.Server.Driver

open Kmsrs.Kms Kmsrs.Wire Kmsrs.Db Kmsrs.Policy Kmsrs.Policy.Access Kmsrs.Policy.Gate Kmsrs.Policy.Events

variable {ε : Type} {catalogue : Catalogue} (features : Features) (digests : Crypto.Digests) (rng : EntropySource ε)

/-- What the reads of a connection have put to the host. -/
def ownAsks (id : ℕ) (past : List (Driver ε catalogue × Wake catalogue)) : List Ask :=
  (past.filter fun turn => turn.2.reads id).flatMap fun turn => turn.1.asks features digests rng turn.2

/-- The application of the last request a connection had logged, or zero. -/
def ownKey (id : ℕ) (past : List (Driver ε catalogue × Wake catalogue)) : Guid :=
  ((ownAsks features digests rng id past).getLast?.map fun ask => ask.request.application).getD Guid.zero

/-- Whatever wakes the driver next, a read is charged to its own connection's key. -/
def KeysOwn (past : List (Driver ε catalogue × Wake catalogue)) (driver : Driver ε catalogue) : Prop :=
  ∀ wake id attempt, Wake.reads id wake = true → driver.attempt? wake = some attempt →
    attempt.application = ownKey features digests rng id past

/-- A read that puts nothing to the host, and leaves its connection open, finds
nothing in the log but its own key. -/
def Undisturbed (driver : Driver ε catalogue) (wake : Wake catalogue) : Prop :=
  ∀ id client, wake.reads id = true → driver.clients id = some client →
    ((driver.next features digests rng wake).clients id).isSome → driver.asks features digests rng wake = [] →
      ∀ application, newest driver.server.host = some application → application = client.lastApplication

/-- A connection that was not accepted yet is not there, and has put nothing to the
host. -/
structure Numbered (past : List (Driver ε catalogue × Wake catalogue)) (driver : Driver ε catalogue) : Prop where
  absent : ∀ id, driver.accepted ≤ id → driver.clients id = none
  silent : ∀ id, driver.accepted ≤ id → ownAsks features digests rng id past = []

variable {features digests rng} {past : List (Driver ε catalogue × Wake catalogue)} {driver : Driver ε catalogue}

theorem ownAsks_concat (id : ℕ) (past : List (Driver ε catalogue × Wake catalogue)) (driver : Driver ε catalogue)
    (wake : Wake catalogue) :
    ownAsks features digests rng id (past ++ [(driver, wake)]) = ownAsks features digests rng id past ++
      if wake.reads id then driver.asks features digests rng wake else [] := by
  rw [ownAsks, List.filter_append, List.flatMap_append, ← ownAsks]
  cases hreads : wake.reads id <;> simp [hreads]

theorem ownKey_of_not_reads {id : ℕ} {wake : Wake catalogue} (h : wake.reads id = false) :
    ownKey features digests rng id (past ++ [(driver, wake)]) = ownKey features digests rng id past := by
  rw [ownKey, ownAsks_concat, h, ownKey]
  simp

theorem keysOwn_iff :
    KeysOwn features digests rng past driver ↔
      ∀ id client, driver.clients id = some client → client.lastApplication = ownKey features digests rng id past := by
  constructor
  · intro h id client hclient
    exact h (.read id [0] none ⟨[], fun _ _ => none⟩) id
      ⟨client.peer.address, client.lastApplication, driver.now⟩ (by simp [Wake.reads]) (by simp [attempt?, hclient])
  · intro h wake id attempt hreads hattempt
    cases wake with
    | read reader bytes hostTime site =>
      obtain rfl : reader = id := by simpa [Wake.reads] using hreads
      rw [attempt?] at hattempt
      split_ifs at hattempt
      obtain ⟨client, hclient, rfl⟩ := Option.map_eq_some_iff.mp hattempt
      exact h reader client hclient
    | tick nanos => cases hreads
    | acceptKms peer port => cases hreads
    | acceptWeb peer => cases hreads
    | drop other => cases hreads

/-- The key after a read of one's own. -/
theorem ownKey_of_reads {id : ℕ} {wake : Wake catalogue} (h : wake.reads id = true) :
    ownKey features digests rng id (past ++ [(driver, wake)]) =
      ((driver.asks features digests rng wake).getLast?.map fun ask => ask.request.application).getD
        (ownKey features digests rng id past) := by
  rw [ownKey, ownAsks_concat, if_pos h, List.getLast?_append, ownKey]
  cases (driver.asks features digests rng wake).getLast? <;> rfl

theorem numbered_next (h : Numbered features digests rng past driver) (wake : Wake catalogue) :
    Numbered features digests rng (past ++ [(driver, wake)]) (driver.next features digests rng wake) := by
  have hle := (next_grows features digests rng driver wake).2
  refine ⟨fun id hid => ?_, fun id hid => ?_⟩
  · cases hclient : (driver.next features digests rng wake).clients id with
    | none => rfl
    | some client' =>
      have habsent := h.absent id (hle.trans hid)
      rcases clients_next features digests rng driver wake hclient with
        ⟨hold, -⟩ | ⟨hnew, haccepted, -, -⟩ | ⟨client, hold, -⟩
      · rw [habsent] at hold
        cases hold
      · omega
      · rw [habsent] at hold
        cases hold
  · rw [ownAsks_concat, h.silent id (hle.trans hid)]
    split_ifs with hreads
    · exact asks_of_none hreads (h.absent id (hle.trans hid))
    · rfl

/-- One wake keeps the keys exactly when it disturbs none. -/
theorem keysOwn_next_iff (hkeys : KeysOwn features digests rng past driver) (wake : Wake catalogue)
    (hnumbered : Numbered features digests rng past driver) :
    KeysOwn features digests rng (past ++ [(driver, wake)]) (driver.next features digests rng wake) ↔
      Undisturbed features digests rng driver wake := by
  rw [keysOwn_iff] at hkeys ⊢
  constructor
  · intro h id client hreads hclient hopen hsilent application hnewest
    obtain ⟨client', hclient'⟩ := Option.isSome_iff_exists.mp hopen
    have hkey := h id client' hclient'
    rw [ownKey_of_reads hreads, hsilent, ← hkeys id client hclient] at hkey
    rcases clients_next features digests rng driver wake hclient' with
      ⟨-, hnot⟩ | ⟨-, -, -, hnot⟩ | ⟨before, hbefore, -, -, hlast⟩
    · rw [hreads] at hnot
      cases hnot
    · rw [hreads] at hnot
      cases hnot
    · rw [host_next, hsilent, List.foldl_nil, hnewest] at hlast
      exact hlast.symm.trans hkey
  · intro h id client' hclient'
    rcases clients_next features digests rng driver wake hclient' with
      ⟨hold, hnot⟩ | ⟨hid, -, hzero, hnot⟩ | ⟨client, hclient, hreads, -, hlast⟩
    · rw [ownKey_of_not_reads hnot]
      exact hkeys id client' hold
    · rw [ownKey_of_not_reads hnot, ownKey, hnumbered.silent id hid.ge, hzero]
      rfl
    · rw [ownKey_of_reads hreads, ← hkeys id client hclient, hlast, host_next, newest_run]
      cases hasks : (driver.asks features digests rng wake).getLast? with
      | some ask => rfl
      | none =>
        have hsilent : driver.asks features digests rng wake = [] := List.getLast?_eq_none_iff.mp hasks
        have hundisturbed := h id client hreads hclient (by rw [hclient']; rfl) hsilent
        cases hnewest : newest driver.server.host with
        | none => rfl
        | some application => exact hundisturbed application hnewest

theorem keysOwn_start (server : Server catalogue) (advertisesNdr64 : Bool) (entropy : ε) :
    KeysOwn features digests rng [] (start server advertisesNdr64 entropy) := by
  rw [keysOwn_iff]
  intro id client hclient
  cases hclient

variable (features digests rng) in
theorem numbered_run (server : Server catalogue) (advertisesNdr64 : Bool) (entropy : ε) (wakes : List (Wake catalogue)) :
    Numbered features digests rng (path (next features digests rng) (start server advertisesNdr64 entropy) wakes)
      (wakes.foldl (next features digests rng) (start server advertisesNdr64 entropy)) := by
  refine (Runs.of_path wakes).history (Numbered features digests rng) ⟨fun _ _ => rfl, fun _ _ => rfl⟩ ?_
  intro past driver wake _ h
  exact numbered_next h wake

/-- In every run, whatever the interleaving: every read is charged to the application
its own connection asked about last, exactly when every read that makes no request
finds no other application in the log. -/
theorem own_keys_iff (features : Features) (digests : Crypto.Digests) (rng : EntropySource ε)
    (server : Server catalogue) (advertisesNdr64 : Bool) (entropy : ε) (wakes : List (Wake catalogue)) :
    (∀ before, before <+: wakes →
      KeysOwn features digests rng
        (path (next features digests rng) (start server advertisesNdr64 entropy) before)
        (before.foldl (next features digests rng) (start server advertisesNdr64 entropy))) ↔
      ∀ turn ∈ path (next features digests rng) (start server advertisesNdr64 entropy) wakes,
        Undisturbed features digests rng turn.1 turn.2 := by
  induction wakes using List.reverseRecOn with
  | nil =>
    constructor
    · intro _ turn hturn
      cases hturn
    · intro _ before hbefore
      rw [List.prefix_nil.mp hbefore]
      exact keysOwn_start server advertisesNdr64 entropy
  | append_singleton wakes wake ih =>
    have hpath := path_append (next features digests rng) (start server advertisesNdr64 entropy) wakes [wake]
    have hnumbered := numbered_run features digests rng server advertisesNdr64 entropy wakes
    have hstep : KeysOwn features digests rng
          (path (next features digests rng) (start server advertisesNdr64 entropy) wakes)
          (wakes.foldl (next features digests rng) (start server advertisesNdr64 entropy)) →
        (KeysOwn features digests rng
            (path (next features digests rng) (start server advertisesNdr64 entropy) (wakes ++ [wake]))
            ((wakes ++ [wake]).foldl (next features digests rng) (start server advertisesNdr64 entropy)) ↔
          Undisturbed features digests rng
            (wakes.foldl (next features digests rng) (start server advertisesNdr64 entropy)) wake) := by
      intro hkeys
      rw [hpath, List.foldl_append]
      exact keysOwn_next_iff hkeys wake hnumbered
    constructor
    · intro h turn hturn
      rw [hpath, List.mem_append] at hturn
      rcases hturn with hmem | hmem
      · exact ih.mp (fun before hbefore => h before (hbefore.trans (List.prefix_append _ _))) turn hmem
      · obtain rfl := List.mem_singleton.mp hmem
        exact (hstep (h wakes (List.prefix_append _ _))).mp (h _ List.prefix_rfl)
    · intro h before hbefore
      have hearlier := ih.mpr fun turn hturn => h turn (by rw [hpath]; exact List.mem_append_left _ hturn)
      rcases List.prefix_concat_iff.mp hbefore with rfl | hshorter
      · exact (hstep (hearlier wakes List.prefix_rfl)).mpr (h _ (by rw [hpath]; exact List.mem_append_right _ (List.mem_singleton_self _)))
      · exact hearlier before hshorter

def samplePeer (port : UInt16) : Peer := ⟨.v4 (.replicate 4 10), port⟩

def sampleSite : Site twoKeys := ⟨[], fun _ _ => none⟩

def sampleDriver : Driver Unit twoKeys := start (.new .default .default twoIdentities) false ()

/-- One connection asks about Office; the other has sent a byte of its bind. -/
def askedBesideAByte : List (Wake twoKeys) :=
  [.acceptKms (samplePeer 1) 1688, .acceptKms (samplePeer 2) 1688, .read 0 bindBytes none sampleSite,
    .read 0 (callBytes office) none sampleSite, .read 1 [5] none sampleSite]

/-- The other connection's next read is charged to Office, and it has asked nothing. -/
theorem key_of_other_connection :
    ((askedBesideAByte.foldl (next .default Connection.denying.digests Connection.denying.rng) sampleDriver).attempt?
        (.read 1 [0] none sampleSite)).map Attempt.application = some office ∧
      ownKey .default Connection.denying.digests Connection.denying.rng 1
        (path (next .default Connection.denying.digests Connection.denying.rng) sampleDriver askedBesideAByte) =
        Guid.zero ∧ office ≠ Guid.zero := by
  refine ⟨?_, ?_, ?_⟩ <;> decide +kernel

end Kmsrs.Server.Driver
