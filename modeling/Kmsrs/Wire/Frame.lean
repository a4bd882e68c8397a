import Kmsrs.Lib.Feed
import Kmsrs.Wire.Connection

/-! What one step sees of the inbound buffer. A frame is a whole PDU of an
acceptable length, or a header that declares an unacceptable one; a step either
finds no frame and waits, or handles the first one without looking behind it. -/

namespace Kmsrs.Wire

open Kmsrs.Layout Kmsrs.Bytes

inductive Frame where
  | pdu (header : RpcHeader) (body : List UInt8)
  | malformed (reason : RejectReason)

namespace Frame

/-- The first frame of a buffer, and what follows it. -/
def next (inbound : List UInt8) : Option (Frame × List UInt8) :=
  match RpcHeader.layout.readFromPrefix inbound with
  | none => none
  | some (header, rest) =>
    let declared := header.fragLength.toNat
    if declared < headerLen then some (.malformed (.fragmentTooShort declared), rest)
    else if maxPduLen < declared then some (.malformed (.fragmentTooLong declared), rest)
    else if inbound.length < declared then none
    else some (.pdu header ((inbound.take declared).drop headerLen), inbound.drop declared)

theorem readHeader_append {inbound rest : List UInt8} {header : RpcHeader}
    (h : RpcHeader.layout.readFromPrefix inbound = some (header, rest)) (more : List UInt8) :
    RpcHeader.layout.readFromPrefix (inbound ++ more) = some (header, rest ++ more) := by
  unfold readFromPrefix at h ⊢
  split at h
  next hlen =>
    cases h
    rw [if_pos (by rw [List.length_append]; omega), List.take_append_of_le_length hlen,
      List.drop_append_of_le_length hlen]
  next => cases h

/-- More bytes do not change the frame that was found. -/
theorem next_append {inbound rest : List UInt8} {frame : Frame} (h : next inbound = some (frame, rest))
    (more : List UInt8) : next (inbound ++ more) = some (frame, rest ++ more) := by
  unfold next at h
  split at h
  · cases h
  next header behind hread =>
    unfold next
    rw [readHeader_append hread more]
    simp only at h ⊢
    split_ifs at h with hshort hlong hmissing
    · cases h
      rw [if_pos hshort]
    · cases h
      rw [if_neg hshort, if_pos hlong]
    · cases h
      have hlen : header.fragLength.toNat ≤ inbound.length := Nat.le_of_not_lt hmissing
      rw [if_neg hshort, if_neg hlong, if_neg (by rw [List.length_append]; omega),
        List.take_append_of_le_length hlen, List.drop_append_of_le_length hlen]

theorem next_shorter {inbound rest : List UInt8} {frame : Frame} (h : next inbound = some (frame, rest)) :
    rest.length < inbound.length := by
  unfold next at h
  split at h
  · cases h
  next header behind hread =>
    have hbehind : behind.length < inbound.length := by
      unfold readFromPrefix at hread
      split at hread
      next hlen =>
        cases hread
        have hsize : RpcHeader.layout.size = 16 := rfl
        rw [List.length_drop]
        omega
      next => cases hread
    simp only at h
    split_ifs at h with hshort hlong hmissing
    · cases h
      exact hbehind
    · cases h
      exact hbehind
    · cases h
      rw [List.length_drop]
      simp only [headerLen] at hshort
      omega

/-- Frames cut off the front of a byte stream. -/
def framer : Feed.Framer UInt8 Frame where
  next := next
  next_append := next_append
  next_shorter := next_shorter

/-- What is found in a buffer that holds a PDU. -/
theorem next_eq_pdu {inbound body rest : List UInt8} {header : RpcHeader}
    (h : next inbound = some (.pdu header body, rest)) :
    (∃ behind, RpcHeader.layout.readFromPrefix inbound = some (header, behind)) ∧
      headerLen ≤ header.fragLength.toNat ∧ header.fragLength.toNat ≤ maxPduLen ∧
      header.fragLength.toNat ≤ inbound.length ∧
      body = (inbound.take header.fragLength.toNat).drop headerLen ∧
      rest = inbound.drop header.fragLength.toNat := by
  unfold next at h
  split at h
  · cases h
  next found behind hread =>
    simp only at h
    split_ifs at h with hshort hlong hmissing
    · cases h
    · cases h
    · cases h
      exact ⟨⟨behind, hread⟩, Nat.le_of_not_lt hshort, Nat.le_of_not_lt hlong, Nat.le_of_not_lt hmissing,
        rfl, rfl⟩

end Frame

namespace Connection

variable {ε σ : Type} (env : Env ε σ) (connection : Connection) (now : Instant) (entropy : ε) (host : σ)
  (out : List UInt8)

/-- Every step first moves the deadline. -/
def touched : Connection := { connection with deadline := now.checkedAdd idleTimeout }

/-- The connection that a PDU is dispatched on. -/
def consumed (header : RpcHeader) : Connection :=
  { connection.touched now with inbound := connection.inbound.drop header.fragLength.toNat }

variable {connection}

/-- Without a frame a step waits. -/
theorem step_of_none (h : Frame.next connection.inbound.items = none) :
    connection.step env now entropy host out =
      (⟨.needMore, connection.touched now, out⟩ : Reply).unasked entropy host := by
  unfold Frame.next at h
  unfold step
  simp only
  split_ifs with hshort
  · rfl
  · cases hread : RpcHeader.layout.readFromPrefix connection.inbound.items with
    | none => rfl
    | some found =>
      obtain ⟨header, behind⟩ := found
      rw [hread] at h
      simp only at h ⊢
      split_ifs at h with h₁ h₂ h₃
      have hmissing : connection.inbound.length < header.fragLength.toNat := h₃
      rw [if_neg h₁, if_neg h₂, if_pos hmissing]
      rfl

theorem step_of_malformed {reason : RejectReason} {rest : List UInt8}
    (h : Frame.next connection.inbound.items = some (.malformed reason, rest)) :
    connection.step env now entropy host out =
      ((connection.touched now).reject reason out).unasked entropy host := by
  unfold Frame.next at h
  split at h
  · cases h
  next header behind hread =>
    have hlen : ¬ connection.inbound.length < headerLen := by
      intro hshort
      rw [RpcHeader.layout.readFromPrefix_eq_none hshort] at hread
      cases hread
    unfold step
    simp only [if_neg hlen, hread] at h ⊢
    split_ifs at h with h₁ h₂ h₃
    · cases h
      rw [if_pos h₁]
      rfl
    · cases h
      rw [if_neg h₁, if_pos h₂]
      rfl
    · cases h

/-- A PDU is taken off and dispatched. -/
theorem step_of_pdu {header : RpcHeader} {body rest : List UInt8}
    (h : Frame.next connection.inbound.items = some (.pdu header body, rest)) :
    connection.step env now entropy host out =
      (connection.consumed now header).dispatch env header body entropy host out := by
  obtain ⟨⟨behind, hread⟩, hmin, hmax, hfits, rfl, -⟩ := Frame.next_eq_pdu h
  have hpresent : ¬ connection.inbound.length < header.fragLength.toNat := Nat.not_lt.mpr hfits
  have hlen : ¬ connection.inbound.length < headerLen := by omega
  have hpdu : (range connection.inbound.items 0 header.fragLength.toNat).getD [] =
      connection.inbound.items.take header.fragLength.toNat := by
    rw [range_eq_some (Nat.zero_le _) hfits]
    rfl
  have hbehind : (range connection.inbound.items header.fragLength.toNat
      connection.inbound.items.length).getD [] = connection.inbound.items.drop header.fragLength.toNat := by
    rw [range_eq_some hfits le_rfl, Option.getD_some, List.take_of_length_le (by simp)]
  have hbody : (range (connection.inbound.items.take header.fragLength.toNat) headerLen
      header.fragLength.toNat).getD [] =
        (connection.inbound.items.take header.fragLength.toNat).drop headerLen := by
    rw [range_eq_some hmin (by simpa using hfits), Option.getD_some, List.take_of_length_le (by simp; omega)]
  have htake : (connection.inbound.items.take header.fragLength.toNat).length ≤ maxPduLen := by
    rw [List.length_take]
    omega
  have hdrop : (connection.inbound.items.drop header.fragLength.toNat).length ≤ maxPduLen :=
    (connection.inbound.drop header.fragLength.toNat).le_cap
  unfold step
  simp only [if_neg hlen, hread, if_neg (Nat.not_lt.mpr hmin), if_neg (Nat.not_lt.mpr hmax),
    if_neg hpresent, hpdu, hbehind, ArrayVec.tryExtendFromSlice_empty htake,
    ArrayVec.tryExtendFromSlice_empty hdrop, hbody]
  rfl

end Connection

end Kmsrs.Wire
