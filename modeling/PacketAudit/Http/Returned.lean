import PacketAudit.Http.Recognition

namespace PacketAudit

open Library

/-!
# The messages a scan returns

Every complete message that `scan` returns frames a request of its window: with
a length, with chunks, or without a body.
-/

/-- The head announces a transfer encoding. -/
def RequestHead.isChunked (head : RequestHead) : Bool :=
  !(headerValues head.headers "transfer-encoding").isEmpty

/-- How a complete message frames a request. -/
inductive FramedAs
    (limit : Nat)
    (rest : Bytes)
    (head : RequestHead) : Message → Prop where
  | chunked
      {body : Bytes}
      {spans : List BodySpan}
      {stop : Nat}
      (isChunked : head.isChunked = true)
      (decodes :
        PacketAudit.chunked rest head.headerEnd limit =
          .decoded body spans stop) :
      FramedAs limit rest head (head.message stop body spans)
  | length
      {stop : Nat}
      (isChunked : head.isChunked = false)
      (ordered : head.headerEnd ≤ stop)
      (inside : stop ≤ rest.length)
      (fits : stop ≤ limit) :
      FramedAs limit rest head
        (head.message stop (rest.extract head.headerEnd stop)
          [⟨0, (rest.extract head.headerEnd stop).length, head.headerEnd⟩])
  | bodiless
      (isChunked : head.isChunked = false) :
      FramedAs limit rest head (head.message head.headerEnd [] [])

/-- A framed message frames a request in one of these ways. -/
theorem framedAs_of_frame
    {limit : Nat}
    {rest : Bytes}
    {message : Message}
    (isFrame : frameRequest limit rest = .frame message) :
    ∃ head,
      requestHead rest = .parsed head ∧ FramedAs limit rest head message := by
  simp only [frameRequest] at isFrame
  split at isFrame
  · cases isFrame
  · cases isFrame
  case h_3 head isHead =>
    refine ⟨head, isHead, ?_⟩
    simp only [frameBody] at isFrame
    split at isFrame
    case h_1 transfer more transfers =>
      have isChunked : head.isChunked = true := by
        simp [RequestHead.isChunked, transfers]
      split at isFrame
      · cases isFrame
      simp only [frameChunked] at isFrame
      split at isFrame
      · split at isFrame <;> cases isFrame
      · cases isFrame
      case h_3 body spans stop decodes =>
        cases isFrame
        exact .chunked isChunked decodes
    case h_2 transfers =>
      have notChunked : head.isChunked = false := by
        simp [RequestHead.isChunked, transfers]
      split at isFrame
      · simp only [frameLength] at isFrame
        split at isFrame
        · cases isFrame
        split at isFrame
        · cases isFrame
        split at isFrame
        · cases isFrame
        · cases isFrame
          exact .length notChunked (by omega) (by omega) (by omega)
      · split at isFrame
        · cases isFrame
        · cases isFrame
          exact .bodiless notChunked

/-- A message without a length is not complete. -/
theorem incomplete_of_unframed
    {limit : Nat}
    {rest : Bytes}
    {message : Message}
    {following : Bool}
    (isUnframed : frameRequest limit rest = .unframed message following) :
    message.complete = false := by
  simp only [frameRequest] at isUnframed
  split at isUnframed
  · cases isUnframed
  · cases isUnframed
  simp only [frameBody] at isUnframed
  split at isUnframed
  · split at isUnframed
    · cases isUnframed
    simp only [frameChunked] at isUnframed
    split at isUnframed
    · split at isUnframed <;> cases isUnframed
    · cases isUnframed
    · cases isUnframed
  split at isUnframed
  · simp only [frameLength] at isUnframed
    split at isUnframed
    · cases isUnframed
    split at isUnframed
    · cases isUnframed
    split at isUnframed <;> cases isUnframed
  split at isUnframed
  · cases isUnframed
    rfl
  · cases isUnframed

/-- The message frames the request of the window at its start. -/
def ReturnedFrom
    (limit : Nat)
    (window : Window)
    (base : Nat)
    (message : Message) : Prop :=
  base = window.base ∧
    ∃ framed,
      frameRequest limit (window.data.drop message.start) = .frame framed ∧
        message = { framed with start := message.start }

namespace HTTPFramer

theorem mem_scanUnframed
    {window : Window}
    {cursor base : Nat}
    {message returned : Message}
    {following : Bool}
    {framer : HTTPFramer}
    (incomplete : message.complete = false)
    (member :
      .returned base returned ∈
        (scanUnframed window cursor message following framer).events) :
    returned.complete = false := by
  simp only [scanUnframed, List.mem_append] at member
  rcases member with counted | new
  · split at counted <;> simp at counted
  · split at new
    · simp only [List.mem_singleton, FramingEvent.returned.injEq] at new
      rw [new.2]
      exact incomplete
    · simp at new

/-- Every complete message of the loop frames a request of the window. -/
theorem scanLoop_returns
    (limit : Nat)
    (window : Window)
    {rounds base : Nat}
    {framer : HTTPFramer}
    {message : Message}
    (member :
      .returned base message ∈
        (scanLoop limit window rounds framer).events)
    (isComplete : message.complete = true) :
    ReturnedFrom limit window base message := by
  induction rounds generalizing framer with
  | zero =>
      simp [scanLoop] at member
  | succ rounds inductionHypothesis =>
      unfold scanLoop at member
      split at member
      · simp at member
      split at member
      · simp at member
      case h_2 cursor _ _ =>
        split at member
        · simp at member
        · simp at member
        · rw [Outcome.events_andThen, List.mem_append] at member
          rcases member with skipped | later
          · simp at skipped
          · exact inductionHypothesis later
        case h_4 unframed following isUnframed =>
          have notThis
              (here :
                .returned base message ∈
                  (scanUnframed window cursor unframed following
                    framer).events) :
              ReturnedFrom limit window base message := by
            have incomplete :=
              mem_scanUnframed (incomplete_of_unframed isUnframed) here
            rw [isComplete] at incomplete
            cases incomplete
          dsimp only at member
          split at member
          · rw [Outcome.events_andThen, List.mem_append] at member
            rcases member with here | later
            · exact notThis here
            · exact inductionHypothesis later
          · exact notThis member
        case h_5 framed isFrame =>
          rw [Outcome.events_andThen, List.mem_append] at member
          rcases member with here | later
          · simp only [List.mem_cons, FramingEvent.returned.injEq,
              reduceCtorEq, List.not_mem_nil, or_false] at here
            obtain ⟨rfl, rfl⟩ := here
            exact ⟨rfl, framed, isFrame, rfl⟩
          · exact inductionHypothesis later

/-- A framer with a cursor continues there, unless the window begins later. -/
theorem scan_of_cursor
    (limit : Nat)
    {window : Window}
    {framer : HTTPFramer}
    {cursor : Nat}
    (notBlocked : framer.blocked = false)
    (isCursor : framer.cursor = some cursor) :
    framer.scan limit window =
      if cursor < window.base then
        ⟨{ framer with blocked := true }, [.counted .tailLost]⟩
      else
        scanLoop limit window (window.data.length + 1) framer := by
  simp only [scan, notBlocked, isCursor, Bool.false_eq_true, ↓reduceIte]

/-- Every complete message of a scan frames a request of the window. -/
theorem scan_returns
    {limit base : Nat}
    {window : Window}
    {framer : HTTPFramer}
    {message : Message}
    (member : .returned base message ∈ (framer.scan limit window).events)
    (isComplete : message.complete = true) :
    ReturnedFrom limit window base message := by
  cases isBlocked : framer.blocked with
  | true =>
      rw [scan_blocked limit window isBlocked] at member
      simp at member
  | false =>
      cases isCursor : framer.cursor with
      | none =>
          rw [scan_of_no_cursor limit isBlocked isCursor] at member
          exact scanLoop_returns limit window member isComplete
      | some cursor =>
          rw [scan_of_cursor limit isBlocked isCursor] at member
          split at member
          · simp at member
          · exact scanLoop_returns limit window member isComplete

end HTTPFramer

end PacketAudit
