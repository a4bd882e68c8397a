import Kmsrs.Lib.Split
import Kmsrs.Web.Request

/-! The host of a request. The loop looks on until a header gives it one, so that a later
`Host` decides where the first was not worth repeating. -/

namespace Kmsrs.Web

open Text

/-! ### The rule -/

/-- The value of a header line named `Host`. -/
def hostValue (line : Text) : Option Text :=
  (splitOnce ':' line).bind fun header =>
    if eqIgnoreAsciiCase header.1 "Host".toList then some (trim header.2) else none

/-- The values of the `Host` headers among some lines, up to the blank one. -/
def hostsOf (lines : List Text) : List Text := (lines.takeWhile fun line => !line.isEmpty).filterMap hostValue

/-- The values of the `Host` headers of a head, in their order. -/
def hostValues (head : Text) : List Text := hostsOf (splitLines [] head).tail

/-- A host, as it stands at the front of a value, without the port. -/
structure HostPart (value host : Text) : Prop where
  length : 1 ≤ host.length ∧ host.length ≤ 255
  characters : ∀ c ∈ host, c.isAlphanum ∨ c ∈ ['.', '-', ':', '[', ']', '_']
  portless : ∃ rest, value = host ++ rest ∧
    ((∃ address, host = '[' :: address ++ [']'] ∧ ']' ∉ address) ∨
      (value.head? ≠ some '[' ∧ ':' ∉ host ∧ (rest = [] ∨ rest.head? = some ':')))

/-- The first `Host` header decides. -/
structure FirstDecides (head : Text) (host : Option Text) : Prop where
  decides : host = (hostValues head).head?.bind plausibleHost
  part : ∀ found, host = some found → ∃ value, (hostValues head).head? = some value ∧ HostPart value found

/-! ### One header -/

theorem length_le_utf8Len (text : Text) : text.length ≤ utf8Len text := by
  induction text with
  | nil => exact le_rfl
  | cons c text ih =>
    have hpos : 0 < c.utf8Size := Char.utf8Size_pos c
    rw [utf8Len, List.map_cons, List.sum_cons, List.length_cons]
    rw [utf8Len] at ih
    omega

theorem hostPart_of_plausibleHost {value host : Text} (h : plausibleHost value = some host) : HostPart value host := by
  unfold plausibleHost at h
  dsimp only at h
  rw [Option.bind_eq_some_iff] at h
  obtain ⟨part, hpart, h⟩ := h
  split_ifs at h with hlength hall
  cases h
  rw [not_or, List.isEmpty_iff, not_lt] at hlength
  have hle := length_le_utf8Len host
  have hlimit : maxHost = 255 := rfl
  refine ⟨⟨List.length_pos_of_ne_nil hlength.1, by omega⟩, fun c hc => ?_, ?_⟩
  · have hcharacter := List.all_eq_true.mp hall c hc
    simpa [hostCharacter, Bool.or_eq_true] using hcharacter
  · split at hpart
    next rest =>
      split_ifs at hpart with hclose
      obtain ⟨address, after, rfl, hfirst⟩ := List.eq_append_cons_of_mem hclose
      have hpass : ∀ c ∈ address, decide (c ≠ ']') = true := fun c hc => decide_eq_true fun hsame => hfirst (hsame ▸ hc)
      have hinside : (address ++ ']' :: after).takeWhile (· ≠ ']') = address := by
        rw [List.takeWhile_append_of_pos hpass]
        simp
      rw [hinside] at hpart
      cases hpart
      exact ⟨after, by simp, .inl ⟨address, rfl, hfirst⟩⟩
    next hplain =>
      have hopen : value.head? ≠ some '[' := by
        intro hhead
        obtain ⟨rest, hrest⟩ := List.head?_eq_some_iff.mp hhead
        exact hplain rest hrest
      cases honce : splitOnce ':' value with
      | none =>
        rw [honce] at hpart
        cases hpart
        have hcolon : ':' ∉ value := by
          intro hmem
          rw [splitOnce, if_pos hmem] at honce
          cases honce
        exact ⟨[], (List.append_nil value).symm, .inr ⟨hopen, hcolon, .inl rfl⟩⟩
      | some parts =>
        rw [honce] at hpart
        cases hpart
        obtain ⟨hcut, hcolon⟩ := splitOnce_eq_some_iff.mp honce
        exact ⟨':' :: parts.2, hcut, .inr ⟨hopen, hcolon, .inr rfl⟩⟩

/-! ### The loop -/

theorem hostsOf_cons {line : Text} (hne : ¬ line.isEmpty = true) (lines : List Text) :
    hostsOf (line :: lines) = (hostValue line).elim (hostsOf lines) fun value => value :: hostsOf lines := by
  have hkept : (!line.isEmpty) = true := by simpa using hne
  rw [hostsOf, List.takeWhile_cons_of_pos (p := fun line : Text => !line.isEmpty) hkept]
  cases hvalue : hostValue line with
  | none => rw [List.filterMap_cons_none hvalue, Option.elim_none, hostsOf]
  | some value => rw [List.filterMap_cons_some hvalue, Option.elim_some, hostsOf]

/-- The loop finds the first host there is. -/
theorem parseHeaders_host {lines : List Text} {count : ℕ} {host found : Option Text}
    (h : parseHeaders count host lines = .ok found) : found = host.or ((hostsOf lines).findSome? plausibleHost) := by
  induction lines generalizing count host with
  | nil =>
    cases h
    simp [hostsOf]
  | cons line lines ih =>
    rw [parseHeaders] at h
    split_ifs at h with hempty hmany hlong
    · cases h
      simp [hostsOf, hempty]
    · cases honce : splitOnce ':' line with
      | none =>
        rw [honce] at h
        cases h
      | some header =>
        obtain ⟨name, value⟩ := header
        rw [honce] at h
        dsimp only at h
        split_ifs at h with hname hbody hhost
        · -- a host is wanted, and the header is one
          obtain ⟨hwanted, hnamed⟩ := hhost
          have hvalue : hostValue line = some (trim value) := by rw [hostValue, honce, Option.bind_some, if_pos hnamed]
          rw [ih h, Option.isNone_iff_eq_none.mp hwanted, hostsOf_cons hempty, hvalue, Option.elim_some, List.findSome?_cons,
            Option.none_or]
          cases plausibleHost (trim value) <;> rfl
        · rw [ih h]
          cases host with
          | some host => rfl
          | none =>
            have hvalue : hostValue line = none := by
              rw [hostValue, honce, Option.bind_some, if_neg fun hnamed => hhost ⟨rfl, hnamed⟩]
            rw [hostsOf_cons hempty, hvalue, Option.elim_none]

theorem host_of_complete {buffer : List UInt8} {request : Request} (h : parse buffer = .complete request) {head : Text}
    (hhead : fromUtf8 (buffer.take request.headLen) = some head) : request.host = (hostValues head).findSome? plausibleHost := by
  rw [parse] at h
  split at h
  · split_ifs at h
  next headLen hend =>
    split_ifs at h
    unfold parseHead at h
    split at h
    · cases h
    next text htext =>
      split at h
      · cases h
      next requestLine lines hlines =>
        split_ifs at h
        split at h
        · cases h
        next method target hparts =>
          split at h
          · cases h
          next host hhost =>
            cases h
            rw [htext, Option.some.injEq] at hhead
            rw [hostValues, ← hhead, hlines, List.tail_cons, parseHeaders_host hhost, Option.none_or]

/-- The first `Host` header decides just when it has a host, or no other has one. -/
theorem firstDecides_iff {buffer : List UInt8} {request : Request} (h : parse buffer = .complete request) {head : Text}
    (hhead : fromUtf8 (buffer.take request.headLen) = some head) : FirstDecides head request.host ↔
      ∀ first, (hostValues head).head? = some first → plausibleHost first = none →
        ∀ value ∈ hostValues head, plausibleHost value = none := by
  have hfound := host_of_complete h hhead
  constructor
  · intro hdecides first hfirst hnone
    rw [hdecides.decides, hfirst, Option.bind_some, hnone] at hfound
    exact List.findSome?_eq_none_iff.mp hfound.symm
  · intro hrule
    have hsame : request.host = (hostValues head).head?.bind plausibleHost := by
      rw [hfound]
      cases hvalues : hostValues head with
      | nil => rfl
      | cons first values =>
        rw [List.head?_cons, Option.bind_some]
        cases hplausible : plausibleHost first with
        | some host => rw [List.findSome?_cons, hplausible]
        | none =>
          have hall := hrule first (by rw [hvalues, List.head?_cons]) hplausible
          rw [hvalues] at hall
          exact List.findSome?_eq_none_iff.mpr hall
    refine ⟨hsame, fun found hsome => ?_⟩
    rw [hsame, Option.bind_eq_some_iff] at hsome
    obtain ⟨value, hvalue, hplausible⟩ := hsome
    exact ⟨value, hvalue, hostPart_of_plausibleHost hplausible⟩

/-- `GET / HTTP/1.1` with one `Host` and then another, which is `b`. -/
def twoHostLines (first : Char) : List UInt8 :=
  ("GET / HTTP/1.1\r\nHost: ".toList ++ first :: "\r\nHost: b\r\n\r\n".toList).map fun c => .ofNat c.toNat

/-- A plausible first host stands. -/
theorem firstDecides_twoHostLines : FirstDecides ("GET / HTTP/1.1\r\nHost: a\r\nHost: b\r\n\r\n".toList) (some ['a']) := by
  have hparse : parse (twoHostLines 'a') = .complete ⟨.get, ['/'], none, 36, some ['a']⟩ := by decide +kernel
  refine (firstDecides_iff hparse (by decide +kernel)).mpr ?_
  decide +kernel

theorem second_host_decides : ∃ request head, parse (twoHostLines '!') = .complete request ∧
    fromUtf8 ((twoHostLines '!').take request.headLen) = some head ∧ ¬ FirstDecides head request.host := by
  have hparse : parse (twoHostLines '!') = .complete ⟨.get, ['/'], none, 36, some ['b']⟩ := by decide +kernel
  refine ⟨_, "GET / HTTP/1.1\r\nHost: !\r\nHost: b\r\n\r\n".toList, hparse, by decide +kernel, fun h => ?_⟩
  have hnone : ((hostValues "GET / HTTP/1.1\r\nHost: !\r\nHost: b\r\n\r\n".toList).head?.bind plausibleHost) = none := by
    decide +kernel
  have hdecides := h.decides
  rw [hnone] at hdecides
  cases hdecides

end Kmsrs.Web
