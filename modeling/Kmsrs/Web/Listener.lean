import Mathlib.Data.List.Infix
import Kmsrs.Server.Driver
import Kmsrs.Web.Response

/-! The web listener against the way TCP cuts a request. The parser looks at the
head alone and keeps to its decision when more arrives; the listener bounds all
the bytes it has been sent before it looks at them, and so a read that brings
the end of the head together with enough of what trails it is refused. -/

namespace Kmsrs.Web

open Server

inductive Answered where
  | needMore
  | reply (bytes : List UInt8) (consumed : ℕ) (error : Option RequestError)
deriving DecidableEq

/-- Answer one request, or say why not. -/
def answer (buffer : List UInt8) (route : Request → Response) : Answered :=
  match parse buffer with
  | .incomplete => .needMore
  | .refused error =>
    .reply ((Response.error (.forRequestError error)).write true) buffer.length (some error)
  | .complete parsed => .reply ((route parsed).write parsed.method.wantsBody) parsed.headLen none

/-- The bytes of a reply, if there is one. -/
def Answered.bytes? : Answered → Option (List UInt8)
  | .needMore => none
  | .reply bytes _ _ => some bytes

/-- The refusal of a head that is too long. -/
def headersTooLarge : List UInt8 := (Response.error .headersTooLarge).write true

/-- The web role with these pages. -/
def site {catalogue : Db.Catalogue} (route : Host catalogue → Request → Response) : Site catalogue where
  headersTooLarge := headersTooLarge
  answer host buffer := (answer buffer (route host)).bytes?

section

variable {catalogue : Db.Catalogue} (route : Host catalogue → Request → Response) (host : Host catalogue)

/-- The first reply to a sequence of reads; the connection is closed behind it. -/
def firstReply (inbound : List UInt8) : List (List UInt8) → Option (List UInt8)
  | [] => none
  | read :: reads =>
    let (inbound, handled) := serveWeb (site route) host inbound read
    if handled.close then some handled.response else firstReply inbound reads

/-- What a buffer is answered with, if it is enough. -/
def replyTo (buffer : List UInt8) : Option (List UInt8) := (answer buffer (route host)).bytes?

/-- The reply to the shortest prefix of a stream on which there is one. -/
def shortestReply (stream : List UInt8) : Option (List UInt8) := stream.inits.findSome? (replyTo route host)

end

variable {catalogue : Db.Catalogue} {route : Host catalogue → Request → Response} {host : Host catalogue}

theorem replyTo_eq_none_iff {buffer : List UInt8} : replyTo route host buffer = none ↔ parse buffer = .incomplete := by
  rw [replyTo, answer]
  cases parse buffer <;> simp [Answered.bytes?]

theorem replyTo_stable {buffer : List UInt8} (h : replyTo route host buffer ≠ none) (more : List UInt8) :
    replyTo route host (buffer ++ more) = replyTo route host buffer := by
  have hparse := parse_stable (fun hwaits => h (replyTo_eq_none_iff.mpr hwaits)) more
  rw [replyTo, replyTo, answer, answer, hparse]
  cases parse buffer <;> rfl

theorem replyTo_of_short {buffer : List UInt8} (h : buffer.length < 4) : replyTo route host buffer = none :=
  replyTo_eq_none_iff.mpr (parse_of_short h)

theorem replyTo_nil : replyTo route host [] = none := replyTo_of_short (by simp)

/-- A read within the limit is answered as the bytes so far are. -/
theorem firstReply_cons (inbound read : List UInt8) (reads : List (List UInt8)) :
    firstReply route host inbound (read :: reads) =
      if maxRequest < (inbound ++ read).length then some headersTooLarge
      else (replyTo route host (inbound ++ read)).or (firstReply route host (inbound ++ read) reads) := by
  have hanswer : (site route).answer host (inbound ++ read) = replyTo route host (inbound ++ read) := rfl
  have hlimit : Server.maxRequest = maxRequest := rfl
  rw [firstReply, serveWeb, hanswer, hlimit, List.length_append]
  by_cases hlong : maxRequest < inbound.length + read.length
  · rw [if_pos hlong, if_pos hlong]
    rfl
  · rw [if_neg hlong, if_neg hlong]
    cases replyTo route host (inbound ++ read) <;> rfl

/-- The shortest prefix decides for the whole. -/
theorem shortestReply_eq (stream : List UInt8) :
    shortestReply route host stream = replyTo route host stream := by
  rw [shortestReply]
  cases hreply : replyTo route host stream with
  | none =>
    rw [List.findSome?_eq_none_iff]
    intro buffer hprefix
    obtain ⟨more, rfl⟩ := (List.mem_inits _ _).mp hprefix
    by_contra hbuffer
    exact hbuffer ((replyTo_stable hbuffer more).symm.trans hreply)
  | some reply =>
    obtain ⟨before, hbefore⟩ : ∃ found, stream.inits.findSome? (replyTo route host) = some found := by
      refine Option.isSome_iff_exists.mp (List.findSome?_isSome_iff.mpr ⟨stream, ?_, by simp [hreply]⟩)
      exact (List.mem_inits _ _).mpr List.prefix_rfl
    obtain ⟨buffer, hprefix, hfound⟩ := List.exists_of_findSome?_eq_some hbefore
    obtain ⟨more, rfl⟩ := (List.mem_inits _ _).mp hprefix
    have hstable := replyTo_stable (by rw [hfound]; simp) more
    rw [hbefore, ← hfound, ← hstable, hreply]

/-- A prefix on which there is a reply decides for the stream. -/
theorem shortestReply_append {buffer : List UInt8} {reply : List UInt8}
    (h : shortestReply route host buffer = some reply) (more : List UInt8) :
    shortestReply route host (buffer ++ more) = some reply := by
  rw [shortestReply] at h ⊢
  rw [List.inits_append, List.findSome?_append, h, Option.some_or]

/-- Within the limit the reads do not matter. -/
theorem firstReply_of_fits {inbound : List UInt8} {reads : List (List UInt8)}
    (hfits : (inbound ++ reads.flatten).length ≤ maxRequest) (hwaits : replyTo route host inbound = none) :
    firstReply route host inbound reads = replyTo route host (inbound ++ reads.flatten) := by
  induction reads generalizing inbound with
  | nil => rw [List.flatten_nil, List.append_nil, hwaits, firstReply]
  | cons read reads ih =>
    rw [List.flatten_cons, ← List.append_assoc] at hfits ⊢
    rw [firstReply_cons, if_neg (by rw [List.length_append] at hfits; omega)]
    cases hread : replyTo route host (inbound ++ read) with
    | none => rw [Option.none_or, ih hfits hread]
    | some reply => rw [Option.some_or, replyTo_stable (by simp [hread]) reads.flatten, hread]

/-- A head that is refused as too long is refused however it arrives. -/
theorem firstReply_of_headersTooLarge {inbound : List UInt8} {reads : List (List UInt8)}
    (hinbound : inbound.length ≤ maxRequest) (hwaits : replyTo route host inbound = none)
    (h : shortestReply route host (inbound ++ reads.flatten) = some headersTooLarge) :
    firstReply route host inbound reads = some headersTooLarge := by
  induction reads generalizing inbound with
  | nil =>
    rw [List.flatten_nil, List.append_nil, shortestReply_eq inbound, hwaits] at h
    exact absurd h (by simp)
  | cons read reads ih =>
    rw [List.flatten_cons, ← List.append_assoc] at h
    rw [firstReply_cons]
    split_ifs with hlong
    · rfl
    · rw [not_lt] at hlong
      cases hread : replyTo route host (inbound ++ read) with
      | none => rw [Option.none_or, ih hlong hread h]
      | some reply =>
        have hshortest := (shortestReply_eq (inbound ++ read)).trans hread
        rw [shortestReply_append hshortest] at h
        rw [Option.some_or, h]

/-- A stream past the limit can be cut just before its head is enough, so that
the read that completes it is refused for its length. -/
theorem exists_refused_cut {stream : List UInt8} (h : maxRequest < stream.length) :
    ∃ reads : List (List UInt8), reads.flatten = stream ∧ (∀ read ∈ reads, read.length ≤ 8192) ∧
      firstReply route host [] reads = some headersTooLarge := by
  have hfull : ∃ n, replyTo route host (stream.take n) ≠ none := by
    refine ⟨maxRequest, fun hwaits => ?_⟩
    refine parse_of_full ?_ (replyTo_eq_none_iff.mp hwaits)
    rw [List.length_take]
    omega
  have hfour : 4 ≤ Nat.find hfull := by
    by_contra hshort
    refine Nat.find_spec hfull (replyTo_of_short ?_)
    rw [List.length_take]
    omega
  obtain ⟨before, hbefore⟩ := Nat.exists_eq_add_of_le' (show 1 ≤ Nat.find hfull by omega)
  have hle : Nat.find hfull ≤ maxRequest := by
    refine Nat.find_min' hfull fun hwaits => ?_
    refine parse_of_full ?_ (replyTo_eq_none_iff.mp hwaits)
    rw [List.length_take]
    omega
  have hwaits : replyTo route host (stream.take before) = none := by
    have hmin := Nat.find_min hfull (m := before) (by omega)
    rwa [not_not] at hmin
  have hlimit : maxRequest = 8192 := rfl
  refine ⟨stream.take before :: (stream.drop before).take 8192 :: ((stream.drop before).drop 8192).map fun b => [b],
    ?_, ?_, ?_⟩
  · have hsingle : (((stream.drop before).drop 8192).map fun b => [b]).flatten = (stream.drop before).drop 8192 := by
      rw [← List.flatMap_def, List.flatMap_singleton']
    rw [List.flatten_cons, List.flatten_cons, hsingle, List.take_append_drop, List.take_append_drop]
  · intro read hread
    rw [List.mem_cons, List.mem_cons, List.mem_map] at hread
    rcases hread with rfl | rfl | ⟨b, -, rfl⟩
    · rw [List.length_take]
      omega
    · rw [List.length_take]
      omega
    · simp
  · rw [firstReply_cons, List.nil_append, if_neg (by rw [List.length_take]; omega), hwaits, Option.none_or,
      firstReply_cons, if_pos]
    have hbefore : (stream.take before).length = before := List.length_take_of_le (by omega)
    rw [List.length_append, hbefore, List.length_take, List.length_drop, hlimit]
    omega

/-- The first reply is the one to the shortest sufficient prefix, however the
stream is cut, exactly when the stream is within the limit or that reply is the
refusal anyway. -/
theorem cut_independent_iff (route : Host catalogue → Request → Response) (host : Host catalogue)
    (stream : List UInt8) :
    (∀ reads : List (List UInt8), reads.flatten = stream → (∀ read ∈ reads, read.length ≤ 8192) →
        firstReply route host [] reads = shortestReply route host stream) ↔
      stream.length ≤ maxRequest ∨ shortestReply route host stream = some headersTooLarge := by
  constructor
  · intro h
    by_contra hneither
    rw [not_or, not_le] at hneither
    obtain ⟨reads, hflatten, hreads, hrefused⟩ : ∃ reads : List (List UInt8), reads.flatten = stream ∧
        (∀ read ∈ reads, read.length ≤ 8192) ∧ firstReply route host [] reads = some headersTooLarge :=
      exists_refused_cut hneither.1
    exact hneither.2 ((h reads hflatten hreads).symm.trans hrefused)
  · rintro (hfits | hrefused) reads rfl _
    · have hwhole : firstReply route host [] reads = replyTo route host ([] ++ reads.flatten) :=
        firstReply_of_fits (by rwa [List.nil_append]) replyTo_nil
      rw [hwhole, List.nil_append, shortestReply_eq]
    · rw [hrefused]
      exact firstReply_of_headersTooLarge (Nat.zero_le _) replyTo_nil (by rwa [List.nil_append])

/-- A whole request. -/
def shortHead : List UInt8 := "GET / HTTP/1.1\r\nHost: kms\r\n\r\n".toUTF8.toList

/-- One page for everything. -/
def onePage (_ : Host twoKeys) (_ : Request) : Response := .html "kmsrs".toList

/-- The host answers a whole request, and refuses it when its last byte arrives
with 8191 bytes behind it. -/
theorem trailing_bytes_refused :
    ∃ trailing : List UInt8, ∃ whole late : List (List UInt8),
      whole.flatten = shortHead ++ trailing ∧ late.flatten = shortHead ++ trailing ∧
        (∀ read ∈ whole ++ late, read.length ≤ 8192) ∧
        firstReply onePage freshHost [] whole = some ((Response.html "kmsrs".toList).write true) ∧
        firstReply onePage freshHost [] late = some ((Response.error .headersTooLarge).write true) ∧
        shortestReply onePage freshHost (shortHead ++ trailing) = some ((Response.html "kmsrs".toList).write true) := by
  have hparse : parse shortHead = .complete ⟨.get, ['/'], none, 29, some "kms".toList⟩ := by decide +kernel
  have hreply : replyTo onePage freshHost shortHead = some ((Response.html "kmsrs".toList).write true) := by
    rw [replyTo, answer, hparse]
    rfl
  have hlate : replyTo onePage freshHost shortHead.dropLast = none := replyTo_eq_none_iff.mpr (by decide +kernel)
  have hlength : shortHead.length = 29 := by decide +kernel
  have hlast : shortHead.dropLast ++ [10] = shortHead := by decide +kernel
  have hlimit : maxRequest = 8192 := rfl
  generalize (Response.html "kmsrs".toList).write true = page at hreply ⊢
  obtain ⟨trailing, htrailing⟩ : ∃ trailing : List UInt8, trailing.length = 8191 := ⟨_, List.length_replicate (a := 0)⟩
  refine ⟨trailing, [shortHead, trailing], [shortHead.dropLast, 10 :: trailing], ?_, ?_, ?_, ?_, ?_, ?_⟩
  · rw [List.flatten_cons, List.flatten_singleton]
  · rw [List.flatten_cons, List.flatten_singleton, List.append_cons, hlast]
  · simp [hlength, htrailing]
  · rw [firstReply_cons, List.nil_append, if_neg (by omega), hreply, Option.some_or]
  · rw [firstReply_cons, List.nil_append, List.length_dropLast, if_neg (by omega), hlate, Option.none_or,
      firstReply_cons, if_pos, headersTooLarge]
    rw [List.length_append, List.length_dropLast, List.length_cons]
    omega
  · exact shortestReply_append ((shortestReply_eq shortHead).trans hreply) _

end Kmsrs.Web
