import Kmsrs.Lib.Bytes
import Kmsrs.Lib.Duration
import Mathlib.Data.Nat.Bitwise

/-! One SNTP exchange: the request, the checks on a reply, the conversion
between nanoseconds and NTP timestamps, and the reading computed from the four
timestamps. -/

namespace Kmsrs.Os.Sntp

open Bytes

/-- Seconds between 1900-01-01 and 1970-01-01. -/
def ntpToUnix : ℤ := 2208988800

def nanos : ℤ := 1000000000

/-- The divisor of an NTP fraction and the width of an era. -/
def era : ℤ := 4294967296

structure Reading where
  /-- How far this host's clock is behind the server's. -/
  offsetNanos : ℤ
  /-- The round trip. -/
  delayNanos : ℤ
  stratum : UInt8
deriving DecidableEq

inductive Unusable where
  | wrongLength
  | notAServerReply
  | unsynchronised
  | stratum (stratum : UInt8)
  | notOurRequest
  | noTimestamp
deriving DecidableEq

/-- The 48 bytes of a client request. -/
def request (transmit : UInt64) : List UInt8 := 0x23 :: List.replicate 39 0 ++ (ofNatLE 8 transmit.toNat).reverse

/-- The 64-bit NTP timestamp at a byte offset. -/
def timestampAt (reply : List UInt8) (offset : ℕ) : Option UInt64 :=
  let field := (reply.drop offset).take 8
  if field.length = 8 then some (.ofNat (toNatLE field.reverse)) else none

/-- An NTP timestamp as nanoseconds since the Unix epoch; a clear high bit means
the era that starts in 2036. -/
def unixNanos (timestamp : UInt64) : ℤ :=
  let seconds : ℤ := (timestamp >>> 32).toNat
  let fraction : ℤ := (timestamp &&& 0xFFFFFFFF).toNat
  let eraSeconds := if (timestamp >>> 32) &&& 0x80000000 = 0 then seconds + era else seconds
  let unixSeconds := eraSeconds - ntpToUnix
  unixSeconds * nanos + (fraction * nanos).tdiv era

/-- Nanoseconds since the Unix epoch as an NTP timestamp. -/
def ntpTimestamp (unixNanosNow : ℤ) : UInt64 :=
  let unixSeconds := unixNanosNow.tdiv nanos
  let remainder := max 0 (min (unixNanosNow.tmod nanos) nanos)
  let eraSeconds := (unixSeconds + ntpToUnix).tmod era
  let fraction := (remainder * era).tdiv nanos
  let high : UInt64 := if 0 ≤ eraSeconds then .ofNat eraSeconds.toNat else 0
  let low : UInt64 := if 0 ≤ fraction then .ofNat fraction.toNat else 0
  (high <<< 32) ||| (low &&& 0xFFFFFFFF)

/-- Turn a reply into a reading, or say why it is not one. -/
def reading (reply : List UInt8) (sent received : UInt64) : Except Unusable Reading :=
  if reply.length ≠ 48 then .error .wrongLength
  else
    let first := reply.headD 0
    let leap := first >>> 6
    let mode := first &&& 7
    let stratum := reply.getD 1 0
    if mode ≠ 4 then .error .notAServerReply
    else if leap = 3 then .error .unsynchronised
    else if ¬ (1 ≤ stratum ∧ stratum ≤ 15) then .error (.stratum stratum)
    else
      match timestampAt reply 24, timestampAt reply 32, timestampAt reply 40 with
      | some originate, some serverReceived, some serverTransmit =>
        if originate ≠ sent then .error .notOurRequest
        else if serverTransmit = 0 ∨ serverReceived = 0 then .error .noTimestamp
        else
          let t1 := unixNanos sent
          let t2 := unixNanos serverReceived
          let t3 := unixNanos serverTransmit
          let t4 := unixNanos received
          .ok { offsetNanos := ((t2 - t1) + (t3 - t4)).tdiv 2, delayNanos := (t4 - t1) - (t3 - t2), stratum }
      | _, _, _ => .error .noTimestamp

/-- The nonce that goes into the transmit timestamp. -/
def nonceNanos (random : Option UInt32) : ℤ := ((random.getD 1).toNat : ℤ).tmod nanos

/-- One exchange: the clock at departure, the random draw, what comes back for
the request, and the clock at arrival. -/
def ask (departure : ℤ) (random : Option UInt32) (answer : List UInt8 → List UInt8) (arrival : ℤ) :
    Except Unusable Reading :=
  let sent := ntpTimestamp (departure + nonceNanos random)
  reading (answer (request sent)) sent (ntpTimestamp arrival)

/-! ### Conversions -/

/-- From the Unix epoch to the end of the era window: the times whose timestamps
are read back in the right era. -/
def InWindow (t : ℤ) : Prop := 0 ≤ t ∧ t < (2 ^ 31 + 2 ^ 32 - 2208988800) * 10 ^ 9

theorem toNat_packed {high low : ℕ} (hhigh : high < 2 ^ 32) (hlow : low < 2 ^ 32) :
    (((UInt64.ofNat high) <<< 32) ||| (UInt64.ofNat low &&& 0xFFFFFFFF)).toNat = high * 2 ^ 32 + low := by
  have hmask : low &&& 0xFFFFFFFF = low := by
    rw [show 0xFFFFFFFF = 2 ^ 32 - 1 from rfl, Nat.and_two_pow_sub_one_eq_mod, Nat.mod_eq_of_lt hlow]
  have hshift : high <<< 32 = high * 2 ^ 32 := Nat.shiftLeft_eq _ _
  have hhigh64 : (UInt64.ofNat high).toNat = high := by
    rw [UInt64.toNat_ofNat', Nat.mod_eq_of_lt (by omega)]
  have hlow64 : (UInt64.ofNat low).toNat = low := by
    rw [UInt64.toNat_ofNat', Nat.mod_eq_of_lt (by omega)]
  rw [UInt64.toNat_or, UInt64.toNat_shiftLeft, UInt64.toNat_and, hhigh64, hlow64,
    show (32 : UInt64).toNat % 64 = 32 from rfl, show (0xFFFFFFFF : UInt64).toNat = 0xFFFFFFFF from rfl, hmask,
    Nat.mod_eq_of_lt (by omega), ← Nat.shiftLeft_add_eq_or_of_lt hlow, hshift]

theorem ntpTimestamp_of_fields {t : ℤ} {seconds fraction : ℕ} (hseconds : seconds < 2 ^ 32)
    (hfraction : fraction < 2 ^ 32) (hs : (t.tdiv nanos + ntpToUnix).tmod era = seconds)
    (hf : (max 0 (min (t.tmod nanos) nanos) * era).tdiv nanos = fraction) :
    (ntpTimestamp t).toNat = seconds * 2 ^ 32 + fraction := by
  simp only [ntpTimestamp, hs, hf, Int.natCast_nonneg, if_true, Int.toNat_natCast]
  exact toNat_packed hseconds hfraction

/-- The timestamp of a time from the epoch on, field by field. -/
theorem ntpTimestamp_toNat (n : ℕ) :
    (ntpTimestamp n).toNat = ((n / 10 ^ 9 + 2208988800) % 2 ^ 32) * 2 ^ 32 +
      FixedPoint.rescale (n % 10 ^ 9) (10 ^ 9) (2 ^ 32) := by
  have hremainder : max 0 (min ((n : ℤ).tmod nanos) nanos) = ((n % 10 ^ 9 : ℕ) : ℤ) := by
    rw [nanos, Int.tmod_eq_emod_of_nonneg (by omega)]
    omega
  refine ntpTimestamp_of_fields (Nat.mod_lt _ (by norm_num))
    (FixedPoint.rescale_lt (by norm_num) (Nat.mod_lt _ (by norm_num))) ?_ ?_
  · rw [nanos, ntpToUnix, era, Int.tdiv_eq_ediv_of_nonneg (by omega), Int.tmod_eq_emod_of_nonneg (by omega)]
    omega
  · rw [hremainder, era, nanos, Int.tdiv_eq_ediv_of_nonneg (by omega), FixedPoint.rescale, Int.natCast_ediv,
      Int.natCast_mul]
    norm_num

theorem unixNanos_of_fields {timestamp : UInt64} {seconds fraction : ℕ} (hseconds : seconds < 2 ^ 32)
    (hfraction : fraction < 2 ^ 32) (h : timestamp.toNat = seconds * 2 ^ 32 + fraction) :
    unixNanos timestamp = ((if seconds < 2 ^ 31 then seconds + 2 ^ 32 else seconds : ℕ) - 2208988800) * 10 ^ 9 +
      (FixedPoint.rescale fraction (2 ^ 32) (10 ^ 9) : ℕ) := by
  have hhigh : (timestamp >>> 32).toNat = seconds := by
    rw [UInt64.toNat_shiftRight, h, show (32 : UInt64).toNat % 64 = 32 from rfl, Nat.shiftRight_eq_div_pow]
    omega
  have hlow : (timestamp &&& 0xFFFFFFFF).toNat = fraction := by
    rw [UInt64.toNat_and, h, show (0xFFFFFFFF : UInt64).toNat = 2 ^ 32 - 1 from rfl, Nat.and_two_pow_sub_one_eq_mod]
    omega
  have hbit : (timestamp >>> 32) &&& 0x80000000 = 0 ↔ seconds < 2 ^ 31 := by
    rw [← UInt64.toNat_inj, UInt64.toNat_and, hhigh, show (0x80000000 : UInt64).toNat = 2 ^ 31 from rfl,
      Nat.and_two_pow, show (0 : UInt64).toNat = 0 from rfl, Nat.mul_eq_zero, or_iff_left (by norm_num),
      Bool.toNat_eq_zero, Nat.testBit_eq_decide_div_mod_eq, decide_eq_false_iff_not]
    omega
  have hpart : ((fraction : ℤ) * nanos).tdiv era = (FixedPoint.rescale fraction (2 ^ 32) (10 ^ 9) : ℕ) := by
    rw [era, nanos, Int.tdiv_eq_ediv_of_nonneg (by omega), FixedPoint.rescale, Int.natCast_ediv, Int.natCast_mul]
    norm_num
  simp only [unixNanos, hhigh, hlow, hbit, hpart]
  generalize (FixedPoint.rescale fraction (2 ^ 32) (10 ^ 9) : ℕ) = part
  rw [era, nanos, ntpToUnix]
  split_ifs <;> push_cast <;> ring

/-- What is left of the nanoseconds of a second after a timestamp. -/
def kept (r : ℕ) : ℕ := FixedPoint.rescale (FixedPoint.rescale r (10 ^ 9) (2 ^ 32)) (2 ^ 32) (10 ^ 9)

theorem kept_le (r : ℕ) : kept r ≤ r := FixedPoint.rescale_rescale_le

theorem le_kept (r : ℕ) : r ≤ kept r + 1 := FixedPoint.le_rescale_rescale (by norm_num) (by norm_num)

theorem kept_mono {r r' : ℕ} (h : r ≤ r') : kept r ≤ kept r' := FixedPoint.rescale_mono (FixedPoint.rescale_mono h)

/-- A time is read back with its seconds and what is kept of the rest. -/
theorem unixNanos_ntpTimestamp_eq {n : ℕ} (h : InWindow n) :
    unixNanos (ntpTimestamp n) = ((n / 10 ^ 9 * 10 ^ 9 + kept (n % 10 ^ 9) : ℕ) : ℤ) := by
  have hend : n / 10 ^ 9 < 2 ^ 31 + 2 ^ 32 - 2208988800 := by
    have := h.2
    omega
  have hlow : FixedPoint.rescale (n % 10 ^ 9) (10 ^ 9) (2 ^ 32) < 2 ^ 32 :=
    FixedPoint.rescale_lt (by norm_num) (Nat.mod_lt _ (by norm_num))
  rw [unixNanos_of_fields (Nat.mod_lt _ (by norm_num)) hlow (ntpTimestamp_toNat n), kept]
  generalize FixedPoint.rescale (FixedPoint.rescale (n % 10 ^ 9) (10 ^ 9) (2 ^ 32)) (2 ^ 32) (10 ^ 9) = part
  split_ifs with hera <;> push_cast <;> omega

/-- Through a timestamp at most one nanosecond is lost. -/
theorem unixNanos_ntpTimestamp {t : ℤ} (h : InWindow t) :
    unixNanos (ntpTimestamp t) ≤ t ∧ t ≤ unixNanos (ntpTimestamp t) + 1 := by
  obtain ⟨n, rfl⟩ := Int.eq_ofNat_of_zero_le h.1
  have hle := kept_le (n % 10 ^ 9)
  have hge := le_kept (n % 10 ^ 9)
  rw [unixNanos_ntpTimestamp_eq h]
  omega

/-! ### An honest server -/

/-- A synchronised server, and what it puts in the fields no client reads. -/
structure Server where
  first : UInt8
  stratum : UInt8
  rest : Vector UInt8 22
  mode : first &&& 7 = 4
  synchronised : first >>> 6 ≠ 3
  usable : 1 ≤ stratum ∧ stratum ≤ 15

/-- A timestamp on the wire. -/
def wire (timestamp : UInt64) : List UInt8 := (ofNatLE 8 timestamp.toNat).reverse

/-- It echoes the transmit timestamp and stamps what its own clock shows. -/
def Server.answer (server : Server) (received transmitted : ℤ) (request : List UInt8) : List UInt8 :=
  (server.first :: server.stratum :: server.rest.toList) ++ (request.drop 40).take 8 ++
    wire (ntpTimestamp received) ++ wire (ntpTimestamp transmitted)

/-- One exchange as it happens: the host's clock at departure, how far it is
behind, and the three stretches of time until the reply is back. -/
structure Exchange where
  server : Server
  departure : ℤ
  offset : ℤ
  outbound : ℕ
  served : ℕ
  inbound : ℕ

namespace Exchange

/-- The server's clock at the request. -/
def received (e : Exchange) : ℤ := e.departure + e.offset + e.outbound

/-- The server's clock at the reply. -/
def transmitted (e : Exchange) : ℤ := e.received + e.served

/-- The host's clock at the reply. -/
def arrival (e : Exchange) : ℤ := e.departure + e.outbound + e.served + e.inbound

def result (e : Exchange) (random : Option UInt32) : Except Unusable Reading :=
  ask e.departure random (e.server.answer e.received e.transmitted) e.arrival

/-- Everything that is stamped lies in the era window. -/
structure Within (e : Exchange) (random : Option UInt32) : Prop where
  sent : InWindow (e.departure + nonceNanos random)
  received : InWindow e.received
  transmitted : InWindow e.transmitted
  arrival : InWindow e.arrival

/-- The reading is as good as it claims, to one nanosecond for each conversion.
The one instant whose timestamp is zero cannot be stamped, and is refused. -/
def Accurate (e : Exchange) (random : Option UInt32) : Prop :=
  match e.result random with
  | .ok reading =>
    |reading.delayNanos - (e.outbound + e.inbound)| ≤ 4 ∧
      2 * |reading.offsetNanos - e.offset| ≤ reading.delayNanos + 2 * 4
  | .error why =>
    why = .noTimestamp ∧ (ntpTimestamp e.received = 0 ∨ ntpTimestamp e.transmitted = 0)

end Exchange

@[simp] theorem length_wire (timestamp : UInt64) : (wire timestamp).length = 8 := by
  rw [wire, List.length_reverse, length_ofNatLE]

theorem timestampAt_wire {before after : List UInt8} {offset : ℕ} (h : before.length = offset) (timestamp : UInt64) :
    timestampAt (before ++ wire timestamp ++ after) offset = some timestamp := by
  have hfield : ((before ++ wire timestamp ++ after).drop offset).take 8 = wire timestamp := by
    rw [List.append_assoc, List.drop_left' h, List.take_left' (length_wire timestamp)]
  rw [timestampAt, hfield, length_wire, if_pos rfl, wire, List.reverse_reverse, toNatLE_ofNatLE,
    Nat.mod_eq_of_lt (timestamp.toNat_lt.trans_eq (by norm_num)), UInt64.ofNat_toNat]

/-- What the client makes of an honest reply. -/
theorem reading_answer (server : Server) (received transmitted : ℤ) (sent arrival : UInt64) :
    reading (server.answer received transmitted (request sent)) sent arrival =
      if ntpTimestamp transmitted = 0 ∨ ntpTimestamp received = 0 then .error .noTimestamp
      else .ok
        { offsetNanos := ((unixNanos (ntpTimestamp received) - unixNanos sent) +
            (unixNanos (ntpTimestamp transmitted) - unixNanos arrival)).tdiv 2
          delayNanos := (unixNanos arrival - unixNanos sent) -
            (unixNanos (ntpTimestamp transmitted) - unixNanos (ntpTimestamp received))
          stratum := server.stratum } := by
  have hecho : ((request sent).drop 40).take 8 = wire sent := by
    rw [request, List.drop_left' (by simp), List.take_of_length_le (by simp), wire]
  have hanswer : server.answer received transmitted (request sent) =
      (server.first :: server.stratum :: server.rest.toList) ++ wire sent ++ wire (ntpTimestamp received) ++
        wire (ntpTimestamp transmitted) := by rw [Server.answer, hecho]
  have horiginate : timestampAt (server.answer received transmitted (request sent)) 24 = some sent := by
    rw [hanswer, List.append_assoc]
    exact timestampAt_wire (by simp) sent
  have hreceived : timestampAt (server.answer received transmitted (request sent)) 32 =
      some (ntpTimestamp received) := by
    rw [hanswer]
    exact timestampAt_wire (by simp) _
  have htransmitted : timestampAt (server.answer received transmitted (request sent)) 40 =
      some (ntpTimestamp transmitted) := by
    rw [hanswer, ← List.append_nil (_ ++ wire (ntpTimestamp transmitted))]
    exact timestampAt_wire (by simp) _
  have hlength : (server.answer received transmitted (request sent)).length = 48 := by
    rw [hanswer]
    simp
  have hfirst : (server.answer received transmitted (request sent)).headD 0 = server.first := by
    rw [hanswer]
    rfl
  have hstratum : (server.answer received transmitted (request sent)).getD 1 0 = server.stratum := by
    rw [hanswer]
    rfl
  simp only [reading, hlength, hfirst, hstratum, server.mode, horiginate, hreceived, htransmitted, ne_eq,
    not_true_eq_false, if_false, server.synchronised, server.usable,
    and_self]

theorem nonceNanos_bounds (random : Option UInt32) : 0 ≤ nonceNanos random ∧ nonceNanos random < 10 ^ 9 := by
  rw [nonceNanos, nanos, Int.tmod_eq_emod_of_nonneg (by omega)]
  omega

/-- Halving towards zero. -/
theorem two_mul_tdiv (s : ℤ) : s - 1 ≤ 2 * s.tdiv 2 ∧ 2 * s.tdiv 2 ≤ s + 1 := by
  rcases le_total 0 s with h | h
  · rw [Int.tdiv_eq_ediv_of_nonneg h]
    omega
  · have hneg := Int.neg_tdiv (a := -s) (b := 2)
    rw [neg_neg, Int.tdiv_eq_ediv_of_nonneg (show 0 ≤ -s by omega)] at hneg
    omega

namespace Exchange

variable {e : Exchange} {random : Option UInt32}

/-- The four times as the client computes with them: each rounded down by at
most a nanosecond, the first one after the nonce is added. -/
theorem rounded (h : e.Within random) : ∃ e₁ e₂ e₃ e₄ : ℤ,
    (0 ≤ e₁ ∧ e₁ ≤ 1) ∧ (0 ≤ e₂ ∧ e₂ ≤ 1) ∧ (0 ≤ e₃ ∧ e₃ ≤ 1) ∧ (0 ≤ e₄ ∧ e₄ ≤ 1) ∧
      unixNanos (ntpTimestamp (e.departure + nonceNanos random)) = e.departure + nonceNanos random - e₁ ∧
      unixNanos (ntpTimestamp e.received) = e.received - e₂ ∧
      unixNanos (ntpTimestamp e.transmitted) = e.transmitted - e₃ ∧
      unixNanos (ntpTimestamp e.arrival) = e.arrival - e₄ := by
  have h₁ := unixNanos_ntpTimestamp h.sent
  have h₂ := unixNanos_ntpTimestamp h.received
  have h₃ := unixNanos_ntpTimestamp h.transmitted
  have h₄ := unixNanos_ntpTimestamp h.arrival
  exact ⟨e.departure + nonceNanos random - unixNanos (ntpTimestamp (e.departure + nonceNanos random)),
    e.received - unixNanos (ntpTimestamp e.received), e.transmitted - unixNanos (ntpTimestamp e.transmitted),
    e.arrival - unixNanos (ntpTimestamp e.arrival), by omega, by omega, by omega, by omega, by omega, by omega,
    by omega, by omega⟩

theorem result_eq (e : Exchange) (random : Option UInt32) :
    e.result random =
      if ntpTimestamp e.transmitted = 0 ∨ ntpTimestamp e.received = 0 then .error .noTimestamp
      else .ok
        { offsetNanos := ((unixNanos (ntpTimestamp e.received) -
              unixNanos (ntpTimestamp (e.departure + nonceNanos random))) +
            (unixNanos (ntpTimestamp e.transmitted) - unixNanos (ntpTimestamp e.arrival))).tdiv 2
          delayNanos := (unixNanos (ntpTimestamp e.arrival) -
              unixNanos (ntpTimestamp (e.departure + nonceNanos random))) -
            (unixNanos (ntpTimestamp e.transmitted) - unixNanos (ntpTimestamp e.received))
          stratum := e.server.stratum } :=
  reading_answer e.server e.received e.transmitted _ _

/-- A nonce of up to two nanoseconds drowns in the rounding. -/
theorem accurate_of_small (h : e.Within random) (hnonce : nonceNanos random ≤ 2) : e.Accurate random := by
  have hpos := (nonceNanos_bounds random).1
  obtain ⟨e₁, e₂, e₃, e₄, h₁, h₂, h₃, h₄, ht₁, ht₂, ht₃, ht₄⟩ := rounded h
  rw [Accurate, result_eq]
  split_ifs with hzero
  · exact ⟨rfl, hzero.symm⟩
  · simp only [ht₁, ht₂, ht₃, ht₄]
    have hhalf := two_mul_tdiv ((e.received - e₂ - (e.departure + nonceNanos random - e₁)) +
      (e.transmitted - e₃ - (e.arrival - e₄)))
    generalize Int.tdiv _ 2 = half at hhalf ⊢
    simp only [transmitted, arrival, received] at hhalf ⊢
    refine ⟨abs_le.mpr ⟨by omega, by omega⟩, ?_⟩
    have habs : |half - e.offset| = half - e.offset ∨ |half - e.offset| = -(half - e.offset) := abs_choice _
    omega

/-- The delay is short by the nonce, to two nanoseconds. -/
theorem not_accurate_of_large (h : e.Within random) (hnonce : 6 < nonceNanos random)
    (hstamped : ntpTimestamp e.received ≠ 0 ∧ ntpTimestamp e.transmitted ≠ 0) : ¬ e.Accurate random := by
  obtain ⟨e₁, e₂, e₃, e₄, h₁, h₂, h₃, h₄, ht₁, ht₂, ht₃, ht₄⟩ := rounded h
  rw [Accurate, result_eq, if_neg (not_or.mpr hstamped.symm)]
  simp only [ht₁, ht₂, ht₃, ht₄]
  simp only [transmitted, arrival, received]
  rintro ⟨hdelay, -⟩
  have hlow := (abs_le.mp hdelay).1
  omega

/-- An exchange of about a second in which every rounding works against the
reading. -/
def unlucky (server : Server) (random : Option UInt32) : Exchange :=
  { server
    departure := 1000000000 - nonceNanos random
    offset := 0
    outbound := 999999999 + (nonceNanos random).toNat
    served := 1
    inbound := 1 }

theorem unlucky_within (server : Server) (random : Option UInt32) : (unlucky server random).Within random := by
  have hbounds := nonceNanos_bounds random
  constructor <;> simp only [InWindow, unlucky, received, transmitted, arrival] <;> omega

theorem unlucky_not_accurate (server : Server) {random : Option UInt32} (hnonce : 2 < nonceNanos random) :
    ¬ (unlucky server random).Accurate random := by
  have hsent : (unlucky server random).departure + nonceNanos random = 1000000000 := by
    simp only [unlucky]
    omega
  have hreceived : (unlucky server random).received = 1999999999 := by
    simp only [unlucky, received]
    omega
  have htransmitted : (unlucky server random).transmitted = 2000000000 := by
    rw [transmitted, hreceived]
    rfl
  have harrival : (unlucky server random).arrival = 2000000001 := by
    simp only [unlucky, arrival]
    omega
  have hstamps : unixNanos (ntpTimestamp 1000000000) = 1000000000 ∧ unixNanos (ntpTimestamp 1999999999) = 1999999998 ∧
      unixNanos (ntpTimestamp 2000000000) = 2000000000 ∧ unixNanos (ntpTimestamp 2000000001) = 2000000000 ∧
      ¬ (ntpTimestamp 2000000000 = 0 ∨ ntpTimestamp 1999999999 = 0) := by decide +kernel
  obtain ⟨h₁, h₂, h₃, h₄, hzero⟩ := hstamps
  rw [Accurate, result_eq, hsent, hreceived, htransmitted, harrival, if_neg hzero]
  simp only [h₁, h₂, h₃, h₄, unlucky]
  rintro ⟨hdelay, -⟩
  have hlow := (abs_le.mp hdelay).1
  omega

/-- A client's readings are as accurate as they claim exactly when its nonce is
at most two nanoseconds; with a nonce above six no reading is. -/
theorem accurate_iff (server : Server) (random : Option UInt32) :
    ((∀ e : Exchange, e.server = server → e.Within random → e.Accurate random) ↔ nonceNanos random ≤ 2) ∧
      (6 < nonceNanos random → ∀ e : Exchange, e.Within random →
        ntpTimestamp e.received ≠ 0 ∧ ntpTimestamp e.transmitted ≠ 0 → ¬ e.Accurate random) := by
  refine ⟨⟨fun h => ?_, fun hnonce e _ hwithin => accurate_of_small hwithin hnonce⟩,
    fun hnonce e hwithin hstamped => not_accurate_of_large hwithin hnonce hstamped⟩
  by_contra hnonce
  exact unlucky_not_accurate server (not_le.mp hnonce) (h _ rfl (unlucky_within server random))

/-- A server of stratum two. -/
def stratumTwo : Server :=
  { first := 0x24, stratum := 2, rest := .replicate 22 0, mode := by decide, synchronised := by decide,
    usable := by decide }

/-- With half a second of nonce the reading is wrong by a quarter, although the
clocks agree and the reply comes back at once. -/
theorem half_second_nonce :
    ¬ ∀ (e : Exchange) (random : Option UInt32), e.Within random → e.Accurate random := by
  intro h
  let e : Exchange :=
    { server := stratumTwo, departure := 10 ^ 18, offset := 0, outbound := 0, served := 0, inbound := 0 }
  have hwithin : e.Within (some 500000000) := by constructor <;> (unfold InWindow; decide +kernel)
  exact not_accurate_of_large hwithin (by decide +kernel) (by decide +kernel) (h e _ hwithin)

end Exchange

end Kmsrs.Os.Sntp
