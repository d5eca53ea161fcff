import PacketAudit.Http.Returned

namespace PacketAudit

open Library

/-!
# Chunked messages near the limit

`_chunked` compares every chunk with the limit, and the trailers, but not the
two bytes that end a body without trailers.  A complete message may so be
longer than the limit, and then it is refused when a window shows only a part
of it that is longer than the limit already.
-/

/-- The line of the last chunk ends here, when the chunks start there. -/
inductive LastChunkLine (rest : Bytes) : Nat → Nat → Prop where
  | last
      {position lineEnd : Nat}
      (isLine : findSub crlf rest position rest.length = some lineEnd)
      (isLast : chunkLength? (rest.extract position lineEnd) = some 0) :
      LastChunkLine rest position lineEnd
  | chunk
      {position lineEnd length last : Nat}
      (isLine : findSub crlf rest position rest.length = some lineEnd)
      (isChunk :
        chunkLength? (rest.extract position lineEnd) = some (length + 1))
      (later : LastChunkLine rest (lineEnd + 2 + (length + 1) + 2) last) :
      LastChunkLine rest position last

/-- There is something between the last chunk line and the empty line. -/
def HasTrailers (rest : Bytes) (lineEnd : Nat) : Prop :=
  rest.extract (lineEnd + 2) (lineEnd + 4) ≠ crlf

/-- Where a chunked body ends: behind an empty line, or within the limit. -/
structure EndsAt
    (limit : Nat)
    (rest : Bytes)
    (lineEnd stop : Nat) : Prop where
  trailers : HasTrailers rest lineEnd → stop ≤ limit
  noTrailers : ¬ HasTrailers rest lineEnd → stop = lineEnd + 4

theorem chunkedEnd_endsAt
    {rest body decoded : Bytes}
    {limit lineEnd stop : Nat}
    {spans ranges : List BodySpan}
    (decodes :
      chunkedEnd rest limit (lineEnd + 2) body spans =
        .decoded decoded ranges stop) :
    EndsAt limit rest lineEnd stop := by
  unfold chunkedEnd at decodes
  split at decodes
  case isTrue isEmptyLine =>
    cases decodes
    exact {
      trailers := fun hasTrailers => absurd isEmptyLine hasTrailers
      noTrailers := fun _ => rfl
    }
  case isFalse hasTrailers =>
    split at decodes
    · cases decodes
    split at decodes
    · cases decodes
    · cases decodes
      exact {
        trailers := fun _ => by omega
        noTrailers := fun none => absurd hasTrailers none
      }

/-- Decoding follows the chunk lines up to the last one. -/
theorem chunkedFrom_endsAt
    {rest body decoded : Bytes}
    {limit remaining position stop : Nat}
    {spans ranges : List BodySpan}
    (decodes :
      chunkedFrom rest limit remaining position body spans =
        .decoded decoded ranges stop) :
    ∃ lineEnd,
      LastChunkLine rest position lineEnd ∧
        EndsAt limit rest lineEnd stop := by
  induction remaining generalizing position body spans with
  | zero =>
      simp only [chunkedFrom] at decodes
      split at decodes <;> cases decodes
  | succ remaining inductionHypothesis =>
      simp only [chunkedFrom] at decodes
      split at decodes
      case h_1 => cases decodes
      case h_2 lineEnd isLine =>
        split at decodes
        · cases decodes
        split at decodes
        case h_1 => cases decodes
        case h_2 isLast =>
          exact ⟨lineEnd, .last isLine isLast, chunkedEnd_endsAt decodes⟩
        case h_3 length notLast isLength =>
          split at decodes
          · cases decodes
          split at decodes
          · cases decodes
          split at decodes
          · cases decodes
          obtain ⟨last, later, endsAt⟩ := inductionHypothesis decodes
          obtain ⟨size, rfl⟩ := Nat.exists_eq_succ_of_ne_zero notLast
          exact ⟨last, .chunk isLine isLength later, endsAt⟩

/-! ## Every way to cut the window -/

/-- The window as it was when it ended earlier. -/
def Window.cut (window : Window) (size : Nat) : Window where
  base := window.base
  data := window.data.take size

/--
A framer at the message returns it, whatever parts of the window it was shown
before.
-/
def AcceptedAfterEveryCut
    (limit : Nat)
    (window : Window)
    (message : Message) : Prop :=
  ∀ (framer : HTTPFramer) (sizes : List Nat),
    framer.blocked = false →
      framer.cursor = some (window.base + message.start) →
        .returned window.base message ∈
          (HTTPFramer.scanAll limit (sizes.map window.cut ++ [window])
            framer).events

namespace HTTPFramer

variable {limit : Nat}
variable {window : Window}
variable {framer : HTTPFramer}
variable {start : Nat}

/-- A scan at a request returns the message that frames it. -/
theorem scan_returns_frame
    {framed : Message}
    (notBlocked : framer.blocked = false)
    (isCursor : framer.cursor = some (window.base + start))
    (inside : start < window.data.length)
    (isFrame : frameRequest limit (window.data.drop start) = .frame framed) :
    .returned window.base { framed with start := start } ∈
      (framer.scan limit window).events := by
  rw [scan_of_cursor limit notBlocked isCursor, if_neg (by omega)]
  unfold scanLoop
  have notBehind : ¬ window.stop ≤ window.base + start := by
    rw [Window.stop]
    omega
  simp only [isCursor, notBehind, if_false, Nat.add_sub_cancel_left, isFrame,
    Outcome.events_andThen, List.mem_append, List.mem_cons, true_or]

/-- A scan at a request of which too little is seen changes nothing. -/
theorem scan_waits
    (notBlocked : framer.blocked = false)
    (isCursor : framer.cursor = some (window.base + start))
    (waits :
      start < window.data.length →
        frameRequest limit (window.data.drop start) = .wait) :
    framer.scan limit window = .quiet framer := by
  rw [scan_of_cursor limit notBlocked isCursor, if_neg (by omega)]
  unfold scanLoop
  by_cases inside : start < window.data.length
  · have notBehind : ¬ window.stop ≤ window.base + start := by
      rw [Window.stop]
      omega
    simp only [isCursor, notBehind, if_false, Nat.add_sub_cancel_left,
      waits inside]
  · have behind : window.stop ≤ window.base + start := by
      rw [Window.stop]
      omega
    simp only [isCursor, behind, if_true]

end HTTPFramer

/-- A frame and its verdict determine each other. -/
theorem frame_of_verdict
    {framing : Framing}
    {message : Message}
    (verdict : framing.verdict = .step message.stop [message]) :
    framing = .frame message := by
  cases framing with
  | wait => cases verdict
  | refuse stat => cases verdict
  | skip stop => simp [Framing.verdict] at verdict
  | unframed unframed following => cases verdict
  | frame framed =>
      simp only [Framing.verdict, Verdict.step.injEq, List.cons.injEq,
        and_true] at verdict
      rw [verdict.2]

theorem wait_of_verdict
    {framing : Framing}
    (verdict : framing.verdict = .wait) :
    framing = .wait := by
  cases framing with
  | wait => rfl
  | refuse stat => cases verdict
  | skip stop => cases verdict
  | unframed unframed following => cases verdict
  | frame framed => cases verdict

/-- A message whose framing is stable is accepted after every cut. -/
theorem acceptedAfterEveryCut_of_stable
    {limit start : Nat}
    {window : Window}
    {framed : Message}
    (inside : start < window.data.length)
    (isFrame : frameRequest limit (window.data.drop start) = .frame framed)
    (stable :
      PrefixStable (fun rest => (frameRequest limit rest).verdict)
        (window.data.drop start)) :
    AcceptedAfterEveryCut limit window { framed with start := start } := by
  intro framer sizes notBlocked isCursor
  induction sizes with
  | nil =>
      have returned :=
        HTTPFramer.scan_returns_frame notBlocked isCursor inside isFrame
      simpa [HTTPFramer.scanAll, runAll] using returned
  | cons size sizes inductionHypothesis =>
      simp only [HTTPFramer.scanAll, List.map_cons, List.cons_append, runAll,
        Outcome.events_andThen, List.mem_append]
      have isPrefix :
          (window.cut size).data.drop start <+: window.data.drop start :=
        (List.take_prefix size window.data).drop start
      rcases stable _ isPrefix with waits | same
      · have quiet : framer.scan limit (window.cut size) = .quiet framer :=
          HTTPFramer.scan_waits notBlocked isCursor
            fun _ => wait_of_verdict waits
        right
        rw [quiet, Outcome.state_quiet]
        exact inductionHypothesis
      · left
        simp only [isFrame] at same
        have cutFrame := frame_of_verdict same
        have shown : start < (window.cut size).data.length := by
          by_contra short
          rw [List.drop_eq_nil_of_le (by omega)] at cutFrame
          cases cutFrame
        exact HTTPFramer.scan_returns_frame notBlocked isCursor shown cutFrame

/-! ## Messages within the limit -/

/--
A chunked message respects the limit, and is accepted however the stream is
cut, exactly when it has trailers or its last chunk line leaves room for the
two line ends.
-/
theorem chunked_message_respects_limit_iff
    {limit base : Nat}
    {window : Window}
    {framer : HTTPFramer}
    {message : Message}
    {head : RequestHead}
    (member : .returned base message ∈ (framer.scan limit window).events)
    (isComplete : message.complete = true)
    (isHead :
      requestHead (window.data.drop message.start) = .parsed head)
    (isChunked : head.isChunked = true) :
    ∃ lineEnd,
      LastChunkLine (window.data.drop message.start) head.headerEnd lineEnd ∧
        ((message.stop ≤ limit ∧
            AcceptedAfterEveryCut limit window message) ↔
          (HasTrailers (window.data.drop message.start) lineEnd ∨
            lineEnd + 4 ≤ limit)) := by
  obtain ⟨rfl, framed, isFrame, isMessage⟩ :=
    HTTPFramer.scan_returns member isComplete
  obtain ⟨sameHead, isSameHead, framedAs⟩ := framedAs_of_frame isFrame
  rw [isHead, HeadResult.parsed.injEq] at isSameHead
  subst sameHead
  cases framedAs with
  | length notChunked => simp [isChunked] at notChunked
  | bodiless notChunked => simp [isChunked] at notChunked
  | @chunked body spans stop _ decodes =>
      obtain ⟨lineEnd, isLast, endsAt⟩ := chunkedFrom_endsAt decodes
      refine ⟨lineEnd, isLast, ?_⟩
      have sameStop : message.stop = stop := by
        rw [isMessage]
        rfl
      rw [sameStop]
      have fits_iff :
          stop ≤ limit ↔
            HasTrailers (window.data.drop message.start) lineEnd ∨
              lineEnd + 4 ≤ limit := by
        by_cases trailers :
            HasTrailers (window.data.drop message.start) lineEnd
        · simp only [trailers, true_or, iff_true]
          exact endsAt.trailers trailers
        · simp only [trailers, false_or]
          rw [endsAt.noTrailers trailers]
      rw [← fits_iff, and_iff_left_iff_imp]
      intro inLimit
      have fits : ChunkedFits limit (window.data.drop message.start) := by
        intro other otherBody otherSpans otherStop isOther otherDecodes
        rw [isHead, HeadResult.parsed.injEq] at isOther
        subst isOther
        rw [decodes, ChunkResult.decoded.injEq] at otherDecodes
        rw [← otherDecodes.2.2]
        exact inLimit
      have hasLength :
          ¬ LacksBodyLength (window.data.drop message.start) := by
        rintro ⟨other, isOther, noTransfer, -, -⟩
        rw [isHead, HeadResult.parsed.injEq] at isOther
        subst isOther
        simp [RequestHead.isChunked, noTransfer] at isChunked
      have inside : message.start < window.data.length := by
        by_contra short
        rw [List.drop_eq_nil_of_le (by omega)] at isHead
        cases isHead
      rw [isMessage]
      exact acceptedAfterEveryCut_of_stable inside isFrame
        (frameRequest_stable hasLength fits)

/-- A short chunked request respects a limit of 1000. -/
theorem chunkedRequest_respects_limit :
    ∃ lineEnd,
      LastChunkLine chunkedRequest 48 lineEnd ∧
        ((61 ≤ 1000 ∧
            AcceptedAfterEveryCut 1000 ⟨7, chunkedRequest⟩ chunkedMessage) ↔
          (HasTrailers chunkedRequest lineEnd ∨ lineEnd + 4 ≤ 1000)) :=
  chunked_message_respects_limit_iff
    (show
      .returned 7 chunkedMessage ∈
        (HTTPFramer.scan 1000 ⟨7, chunkedRequest⟩ {}).events from
      by decide +kernel)
    rfl
    (show
      requestHead chunkedRequest =
        .parsed
          ⟨⟨ascii "POST", ascii "/x", 49⟩, 48,
            [(ascii "transfer-encoding", ascii "chunked")]⟩ from
      by decide +kernel)
    (by decide +kernel)

/--
With a limit of 56 the request is returned with its 61 bytes, but refused when
58 of them were seen before.
-/
theorem chunkedRequest_exceeds_limit :
    .returned 0 chunkedMessage ∈
        (HTTPFramer.scan 56 ⟨0, chunkedRequest⟩ {}).events ∧
      chunkedMessage.complete = true ∧ 56 < chunkedMessage.stop ∧
      (HTTPFramer.scanAll 56
          ([58].map (Window.cut ⟨0, chunkedRequest⟩) ++ [⟨0, chunkedRequest⟩])
          {}).events = [.counted .bodyLimit] := by
  decide +kernel

end PacketAudit
