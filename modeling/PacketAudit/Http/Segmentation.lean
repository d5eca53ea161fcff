import PacketAudit.Http.Stability

namespace PacketAudit

open Library

/-!
# Framing does not depend on segmentation

However the windows of a stream are cut, the scans of all of them return the
messages of one scan of the stream and leave the framer where it leaves it.
-/

/-- The verdict on the rest of a stream. -/
def requestVerdict (limit : Nat) (rest : Bytes) : Verdict Message :=
  (frameRequest limit rest).verdict

/-- A message at its absolute offset. -/
def locate (located : Nat × Message) : Message :=
  { located.2 with start := located.1 }

/-- The complete messages that were returned, at their absolute offsets. -/
def absoluteMessages (events : List FramingEvent) : List Message :=
  events.filterMap fun
    | .returned base message =>
        if message.complete then
          some { message with start := base + message.start }
        else
          none
    | _ => none

@[simp] theorem absoluteMessages_append
    (first second : List FramingEvent) :
    absoluteMessages (first ++ second) =
      absoluteMessages first ++ absoluteMessages second :=
  List.filterMap_append

/-- The messages and the counted skips cover a range without a gap. -/
inductive FrameTiles : Nat → List FramingEvent → Nat → Prop where
  | done {position : Nat} : FrameTiles position [] position
  | counted
      {position final : Nat}
      {stat : FramingStat}
      {later : List FramingEvent}
      (tiles : FrameTiles position later final) :
      FrameTiles position (.counted stat :: later) final
  | skipped
      {position stop final : Nat}
      {later : List FramingEvent}
      (nonempty : position < stop)
      (tiles : FrameTiles stop later final) :
      FrameTiles position (.skipped position stop :: later) final
  | returned
      {base final : Nat}
      {message : Message}
      {later : List FramingEvent}
      (isComplete : message.complete)
      (nonempty : 0 < message.stop)
      (tiles : FrameTiles (base + message.start + message.stop) later final) :
      FrameTiles (base + message.start) (.returned base message :: later) final

namespace FrameTiles

variable {position middle final : Nat}
variable {events later : List FramingEvent}

theorem append
    (earlier : FrameTiles position events middle)
    (rest : FrameTiles middle later final) :
    FrameTiles position (events ++ later) final := by
  induction earlier with
  | done => exact rest
  | counted _ inductionHypothesis => exact .counted (inductionHypothesis rest)
  | skipped nonempty _ inductionHypothesis =>
      exact .skipped nonempty (inductionHypothesis rest)
  | returned isComplete nonempty _ inductionHypothesis =>
      exact .returned isComplete nonempty (inductionHypothesis rest)

theorem start_le
    (tiles : FrameTiles position events final) :
    ∀ message ∈ absoluteMessages events, position ≤ message.start := by
  induction tiles with
  | done => simp [absoluteMessages]
  | counted _ inductionHypothesis => exact inductionHypothesis
  | skipped nonempty _ inductionHypothesis =>
      intro message member
      have behind := inductionHypothesis message member
      omega
  | returned isComplete nonempty _ inductionHypothesis =>
      intro message member
      simp only [absoluteMessages, List.filterMap_cons, isComplete, if_true,
        List.mem_cons] at member
      rcases member with rfl | isLater
      · exact Nat.le_refl _
      · have behind := inductionHypothesis message isLater
        omega

/-- No message is returned twice: each begins behind the one before it. -/
theorem starts_increase
    (tiles : FrameTiles position events final) :
    ((absoluteMessages events).map Message.start).Pairwise (· < ·) := by
  induction tiles with
  | done => exact .nil
  | counted _ inductionHypothesis => exact inductionHypothesis
  | skipped _ _ inductionHypothesis => exact inductionHypothesis
  | returned isComplete nonempty tiles inductionHypothesis =>
      simp only [absoluteMessages, List.filterMap_cons, isComplete, if_true,
        List.map_cons, List.pairwise_cons]
      refine ⟨?_, inductionHypothesis⟩
      rintro start member
      obtain ⟨message, isLater, rfl⟩ := List.mem_map.mp member
      have behind := tiles.start_le message isLater
      omega

end FrameTiles

/-! ## Every iteration moves the cursor -/

/-- How far an iteration that continues moves the cursor. -/
def Framing.advance? : Framing → Option Nat
  | .skip stop => some stop
  | .unframed message true => some message.stop
  | .frame message => some message.stop
  | _ => none

theorem headerEnd_pos
    {rest : Bytes}
    {head : RequestHead}
    (isHead : requestHead rest = .parsed head) :
    0 < head.headerEnd := by
  simp only [requestHead] at isHead
  split at isHead
  · split at isHead <;> cases isHead
  split at isHead
  · split at isHead <;> cases isHead
  split at isHead
  · cases isHead
  split at isHead
  · cases isHead
  split at isHead
  · cases isHead
  · cases isHead
    exact Nat.succ_pos _

theorem searchRequest_le
    {data : Bytes}
    {start position : Nat}
    (found : searchRequest data start = some position) :
    start ≤ position := by
  have member := List.mem_of_find?_eq_some found
  rw [List.mem_range'_1] at member
  exact member.1

/-- An iteration that continues moves the cursor forward. -/
theorem advance_pos
    {limit : Nat}
    {rest : Bytes}
    {advance : Nat}
    (advances : (frameRequest limit rest).advance? = some advance) :
    0 < advance := by
  simp only [frameRequest] at advances
  split at advances
  · cases advances
  · cases advances
  case h_3 head isHead =>
    have positive := headerEnd_pos isHead
    simp only [frameBody] at advances
    split at advances
    · split at advances
      · cases advances
      simp only [frameChunked] at advances
      split at advances
      · split at advances <;> cases advances
      · cases advances
      case h_3 body spans stop decodes =>
        cases advances
        obtain ⟨lineEnd, isLine, order⟩ := position_le_of_chunkedFrom decodes
        have behind := (findSub_eq_some.mp isLine).1.1
        simp only [RequestHead.message]
        omega
    split at advances
    · simp only [frameLength] at advances
      split at advances
      · cases advances
      split at advances
      · cases advances
        omega
      split at advances
      · cases advances
      · cases advances
        simp only [RequestHead.message]
        omega
    split at advances
    · simp only [frameUnframed] at advances
      cases following : searchRequest rest head.headerEnd with
      | none =>
          rw [following] at advances
          cases advances
      | some position =>
          rw [following] at advances
          cases advances
          have behind := searchRequest_le following
          simp only [RequestHead.message, Option.getD_some]
          omega
    · cases advances
      exact positive

theorem verdict_pos
    {limit size : Nat}
    {rest : Bytes}
    {outputs : List Message}
    (steps : requestVerdict limit rest = .step size outputs) :
    0 < size := by
  apply @advance_pos limit rest
  unfold requestVerdict at steps
  cases isFraming : frameRequest limit rest with
  | wait => rw [isFraming] at steps; cases steps
  | refuse stat => rw [isFraming] at steps; cases steps
  | skip stop => rw [isFraming] at steps; cases steps; rfl
  | unframed message following => rw [isFraming] at steps; cases steps
  | frame message => rw [isFraming] at steps; cases steps; rfl

namespace HTTPFramer

/-- More rounds than there are bytes left change nothing. -/
theorem scanLoop_enough
    (limit : Nat)
    (window : Window)
    (extra : Nat)
    {rounds cursor : Nat}
    {framer : HTTPFramer}
    (isCursor : framer.cursor = some cursor)
    (enough : window.stop < cursor + rounds) :
    scanLoop limit window (rounds + extra) framer =
      scanLoop limit window rounds framer := by
  induction rounds generalizing cursor framer with
  | zero =>
      have atEnd : window.stop ≤ cursor := by omega
      cases extra with
      | zero => rfl
      | succ extra => simp [scanLoop, isCursor, atEnd]
  | succ rounds inductionHypothesis =>
      rw [Nat.add_right_comm]
      simp only [scanLoop, isCursor]
      split
      · rfl
      have moves
          {advance : Nat}
          (advances :
            (frameRequest limit
              (window.data.drop (cursor - window.base))).advance? =
                some advance) :
          window.stop < cursor + advance + rounds := by
        have positive := advance_pos advances
        omega
      split
      · rfl
      · rfl
      case h_3 stop isFraming =>
        exact Outcome.andThen_congr
          (inductionHypothesis rfl (moves (by rw [isFraming]; rfl)))
      case h_4 message following isFraming =>
        cases following with
        | false => rfl
        | true =>
            exact Outcome.andThen_congr
              (inductionHypothesis rfl (moves (by rw [isFraming]; rfl)))
      case h_5 message isFraming =>
        exact Outcome.andThen_congr
          (inductionHypothesis rfl (moves (by rw [isFraming]; rfl)))

end HTTPFramer

/-! ## One window -/

/-- The window shows a part of the stream. -/
structure Window.Of (stream : Bytes) (window : Window) : Prop where
  inside : window.stop ≤ stream.length
  shows : window.data = stream.extract window.base window.stop

/-- A window shows the same rest as the prefix that ends where it ends. -/
theorem Window.Of.drop
    {stream : Bytes}
    {window : Window}
    (isWindow : window.Of stream)
    {cursor : Nat}
    (inWindow : window.base ≤ cursor) :
    window.data.drop (cursor - window.base) =
      (stream.take window.stop).drop cursor := by
  rw [isWindow.shows, List.extract_eq_take_drop, ← List.drop_take,
    List.drop_drop, Nat.add_sub_cancel' inWindow]

/-- The requests of a stream from a cursor on have lengths and fit. -/
structure Delimited
    (limit : Nat)
    (stream : Bytes)
    (cursor : Nat) : Prop where
  framed :
    ∀ position, FrameStart (requestVerdict limit) stream cursor position →
      ¬ LacksBodyLength (stream.drop position)
  fits :
    ∀ position, FrameStart (requestVerdict limit) stream cursor position →
      ChunkedFits limit (stream.drop position)

namespace Delimited

variable {limit : Nat}
variable {stream : Bytes}
variable {cursor position : Nat}

theorem stable
    (delimited : Delimited limit stream cursor)
    (position : Nat)
    (isStart :
      FrameStart (requestVerdict limit) stream cursor position) :
    PrefixStable (requestVerdict limit) (stream.drop position) :=
  frameRequest_stable (delimited.framed position isStart)
    (delimited.fits position isStart)

theorem onward
    (delimited : Delimited limit stream cursor)
    (isStart :
      FrameStart (requestVerdict limit) stream cursor position) :
    Delimited limit stream position where
  framed := fun later laterStart =>
    delimited.framed later (isStart.trans laterStart)
  fits := fun later laterStart =>
    delimited.fits later (isStart.trans laterStart)

end Delimited

/-- A request that shows no length in a prefix shows none in the whole. -/
theorem lacksBodyLength_of_isPrefix
    {seen rest : Bytes}
    (isPrefix : seen <+: rest)
    (lacks : LacksBodyLength seen) :
    LacksBodyLength rest := by
  obtain ⟨head, isHead, conditions⟩ := lacks
  rcases requestHead_stable isPrefix with
    waits | ⟨stat, other, refuses, -⟩ | ⟨same, seenHead, restHead⟩
  · rw [isHead] at waits
    cases waits
  · rw [isHead] at refuses
    cases refuses
  · rw [isHead] at seenHead
    cases seenHead
    exact ⟨head, restHead, conditions⟩

/-- A framing without a length is one of a request that lacks it. -/
theorem lacksBodyLength_of_unframed
    {limit : Nat}
    {rest : Bytes}
    {message : Message}
    {following : Bool}
    (isUnframed : frameRequest limit rest = .unframed message following) :
    LacksBodyLength rest := by
  simp only [frameRequest] at isUnframed
  split at isUnframed
  · cases isUnframed
  · cases isUnframed
  case h_3 head isHead =>
    simp only [frameBody] at isUnframed
    split at isUnframed
    · split at isUnframed
      · cases isUnframed
      · simp only [frameChunked] at isUnframed
        split at isUnframed
        · split at isUnframed <;> cases isUnframed
        · cases isUnframed
        · cases isUnframed
    case h_2 transfers =>
      split at isUnframed
      · simp only [frameLength] at isUnframed
        split at isUnframed
        · cases isUnframed
        split at isUnframed
        · cases isUnframed
        split at isUnframed <;> cases isUnframed
      case h_2 lengths =>
        split at isUnframed
        case isTrue hasForm =>
          exact ⟨head, isHead, transfers, lengths, hasForm⟩
        case isFalse =>
          cases isUnframed

/-- A framed message is complete and starts at its request. -/
theorem frame_message
    {limit : Nat}
    {rest : Bytes}
    {message : Message}
    (isFrame : frameRequest limit rest = .frame message) :
    message.complete := by
  simp only [frameRequest] at isFrame
  split at isFrame
  · cases isFrame
  · cases isFrame
  simp only [frameBody] at isFrame
  split at isFrame
  · split at isFrame
    · cases isFrame
    simp only [frameChunked] at isFrame
    split at isFrame
    · split at isFrame <;> cases isFrame
    · cases isFrame
    · cases isFrame
      rfl
  split at isFrame
  · simp only [frameLength] at isFrame
    split at isFrame
    · cases isFrame
    split at isFrame
    · cases isFrame
    split at isFrame
    · cases isFrame
    · cases isFrame
      rfl
  split at isFrame
  · cases isFrame
  · cases isFrame
    rfl

/-- What scanning from a cursor did, in terms of the frames of a part. -/
structure Scanned
    (limit : Nat)
    (part : Bytes)
    (cursor : Nat)
    (result : Outcome HTTPFramer FramingEvent)
    (messages : List (Nat × Message))
    (final : Nat) : Prop where
  isCursor : result.state.cursor = some final
  frames :
    Framed (requestVerdict limit) part cursor messages final
      result.state.blocked
  returns : absoluteMessages result.events = messages.map locate
  tiles : FrameTiles cursor result.events final

namespace HTTPFramer

/-- The loop frames the part of the stream that the window ends with. -/
theorem scanLoop_scanned
    {limit : Nat}
    {stream : Bytes}
    {window : Window}
    (isWindow : window.Of stream)
    {rounds cursor : Nat}
    {framer : HTTPFramer}
    (isCursor : framer.cursor = some cursor)
    (notBlocked : framer.blocked = false)
    (inWindow : window.base ≤ cursor)
    (enough : window.stop < cursor + rounds)
    (delimited :
      ∀ position,
        FrameStart (requestVerdict limit) (stream.take window.stop) cursor
            position →
          ¬ LacksBodyLength ((stream.take window.stop).drop position)) :
    ∃ messages final,
      Scanned limit (stream.take window.stop) cursor
        (scanLoop limit window rounds framer) messages final := by
  have length : (stream.take window.stop).length = window.stop := by
    rw [List.length_take, Nat.min_eq_left isWindow.inside]
  induction rounds generalizing cursor framer with
  | zero =>
      refine ⟨[], cursor, {
        isCursor := isCursor
        frames := ?_
        returns := rfl
        tiles := .done
      }⟩
      simp only [scanLoop, Outcome.quiet, notBlocked]
      exact .atEnd (by omega)
  | succ rounds inductionHypothesis =>
      simp only [scanLoop, isCursor, isWindow.drop inWindow]
      split
      case isTrue isEnd =>
        refine ⟨[], cursor, {
          isCursor := isCursor
          frames := ?_
          returns := rfl
          tiles := .done
        }⟩
        simp only [Outcome.quiet, notBlocked]
        exact .atEnd (by omega)
      case isFalse notEnd =>
      have inside : cursor < (stream.take window.stop).length := by omega
      -- what follows a frame is scanned from behind it
      have later
          {size : Nat}
          {outputs : List Message}
          (steps :
            requestVerdict limit
              ((stream.take window.stop).drop cursor) =
                .step size outputs) :=
        @inductionHypothesis (cursor + size)
          { framer with cursor := some (cursor + size) } rfl notBlocked
          (by omega)
          (by
            have positive := verdict_pos steps
            omega)
          (fun position isStart =>
            delimited position
              (FrameStart.trans (.next .first inside steps) isStart))
      cases isFraming :
          frameRequest limit ((stream.take window.stop).drop cursor) with
      | wait =>
          refine ⟨[], cursor, {
            isCursor := isCursor
            frames := ?_
            returns := rfl
            tiles := .done
          }⟩
          simp only [Outcome.quiet, notBlocked]
          exact .wait inside (by simp [requestVerdict, isFraming,
            Framing.verdict])
      | refuse stat =>
          exact ⟨[], cursor, {
            isCursor := rfl
            frames := .stop inside (by simp [requestVerdict, isFraming,
              Framing.verdict])
            returns := rfl
            tiles := .counted .done
          }⟩
      | unframed message following =>
          exact absurd (lacksBodyLength_of_unframed isFraming)
            (delimited cursor .first)
      | skip stop =>
          have steps :
              requestVerdict limit
                ((stream.take window.stop).drop cursor) = .step stop [] := by
            simp [requestVerdict, isFraming, Framing.verdict]
          have positive := verdict_pos steps
          obtain ⟨messages, final, scanned⟩ := later steps
          exact ⟨messages, final, {
            isCursor := scanned.isCursor
            frames := .step inside steps scanned.frames
            returns := scanned.returns
            tiles := .skipped (by omega) scanned.tiles
          }⟩
      | frame message =>
          have steps :
              requestVerdict limit
                ((stream.take window.stop).drop cursor) =
                  .step message.stop [message] := by
            simp [requestVerdict, isFraming, Framing.verdict]
          have isComplete := frame_message isFraming
          have position : window.base + (cursor - window.base) = cursor :=
            Nat.add_sub_cancel' inWindow
          obtain ⟨messages, final, scanned⟩ := later steps
          refine ⟨(cursor, message) :: messages, final, {
            isCursor := scanned.isCursor
            frames := .step inside steps scanned.frames
            returns := ?_
            tiles := ?_
          }⟩
          · simp only [Outcome.events_andThen, absoluteMessages_append,
              List.map_cons]
            rw [scanned.returns]
            simp [absoluteMessages, isComplete, locate, position]
          · have tiles :=
              @FrameTiles.returned window.base final
                { message with start := cursor - window.base } _ isComplete
                (verdict_pos steps)
                (@FrameTiles.counted _ _ .framedRequests _
                  (by simpa only [position] using scanned.tiles))
            simp only [position] at tiles
            exact tiles

/-- A scan from a cursor inside the window frames what the window shows. -/
theorem scan_scanned
    {limit : Nat}
    {stream : Bytes}
    {window : Window}
    (isWindow : window.Of stream)
    {cursor : Nat}
    {framer : HTTPFramer}
    (isCursor : framer.cursor = some cursor)
    (notBlocked : framer.blocked = false)
    (inWindow : window.base ≤ cursor)
    (delimited : Delimited limit stream cursor) :
    ∃ messages final,
      Scanned limit (stream.take window.stop) cursor
        (framer.scan limit window) messages final := by
  have isScan :
      framer.scan limit window =
        scanLoop limit window (window.data.length + 1) framer := by
    simp [scan, notBlocked, isCursor, Nat.not_lt.mpr inWindow]
  rw [isScan]
  have isPrefix : stream.take window.stop <+: stream :=
    List.take_prefix _ _
  refine scanLoop_scanned isWindow isCursor notBlocked inWindow ?_ ?_
  · simp only [Window.stop]
    omega
  · intro position isStart lacks
    have wholeStart :=
      Framed.start_of_isPrefix isPrefix delimited.stable isStart
    exact delimited.framed position wholeStart
      (lacksBodyLength_of_isPrefix
        (Framed.isPrefix_drop isPrefix position) lacks)

/-- A blocked framer returns nothing. -/
theorem scan_blocked
    (limit : Nat)
    (window : Window)
    {framer : HTTPFramer}
    (isBlocked : framer.blocked = true) :
    framer.scan limit window = .quiet framer := by
  simp [scan, isBlocked]

end HTTPFramer

/-! ## Every way to present the stream -/

/--
Windows of a stream, each from a base at most the cursor that the scans before
it left.  The ends may grow in any way.
-/
inductive Presented (limit : Nat) (stream : Bytes) :
    HTTPFramer → List Window → Prop where
  | done {framer : HTTPFramer} : Presented limit stream framer []
  | next
      {framer : HTTPFramer}
      {window : Window}
      {later : List Window}
      (isWindow : window.Of stream)
      (inWindow :
        ∀ cursor, framer.cursor = some cursor → window.base ≤ cursor)
      (presented : Presented limit stream (framer.scan limit window).state
        later) :
      Presented limit stream framer (window :: later)

/-- What several scans did, in terms of the frames of the whole stream. -/
structure Progress
    (limit : Nat)
    (stream : Bytes)
    (cursor : Nat)
    (result : Outcome HTTPFramer FramingEvent)
    (messages : List (Nat × Message))
    (final : Nat) : Prop where
  isCursor : result.state.cursor = some final
  returns : absoluteMessages result.events = messages.map locate
  tiles : FrameTiles cursor result.events final
  stops :
    result.state.blocked = true →
      Framed (requestVerdict limit) stream cursor messages final true
  resumes :
    result.state.blocked = false →
      FrameStart (requestVerdict limit) stream cursor final ∧
        ∀ {later last ending},
          Framed (requestVerdict limit) stream final later last ending →
            Framed (requestVerdict limit) stream cursor (messages ++ later)
              last ending

section Runs

variable {limit : Nat}
variable {stream : Bytes}
variable {cursor final : Nat}
variable {messages : List (Nat × Message)}
variable {window : Window}
variable {framer : HTTPFramer}

/-- A framer at its cursor has made no progress yet. -/
theorem Progress.refl
    (isCursor : framer.cursor = some cursor)
    (notBlocked : framer.blocked = false) :
    Progress limit stream cursor (.quiet framer) [] cursor where
  isCursor := isCursor
  returns := rfl
  tiles := .done
  stops := by
    intro isBlocked
    rw [Outcome.state_quiet, notBlocked] at isBlocked
    cases isBlocked
  resumes := fun _ => ⟨.first, fun framed => framed⟩

theorem Scanned.progress
    {result : Outcome HTTPFramer FramingEvent}
    (scanned :
      Scanned limit (stream.take window.stop) cursor result messages final)
    (delimited : Delimited limit stream cursor) :
    Progress limit stream cursor result messages final where
  isCursor := scanned.isCursor
  returns := scanned.returns
  tiles := scanned.tiles
  stops :=
    (scanned.frames.resume (List.take_prefix _ _) delimited.stable).1
  resumes :=
    (scanned.frames.resume (List.take_prefix _ _) delimited.stable).2

/-- Progress goes on with the next scan. -/
theorem Progress.andThen
    {result : Outcome HTTPFramer FramingEvent}
    {continuation : HTTPFramer → Outcome HTTPFramer FramingEvent}
    {later : List (Nat × Message)}
    {last : Nat}
    (progress : Progress limit stream cursor result messages final)
    (notBlocked : result.state.blocked = false)
    (next :
      Progress limit stream final (continuation result.state) later last) :
    Progress limit stream cursor (result.andThen continuation)
      (messages ++ later) last where
  isCursor := next.isCursor
  returns := by
    rw [Outcome.events_andThen, absoluteMessages_append, progress.returns,
      next.returns, List.map_append]
  tiles := progress.tiles.append next.tiles
  stops := fun isBlocked =>
    (progress.resumes notBlocked).2 (next.stops isBlocked)
  resumes := by
    intro notBlockedNext
    obtain ⟨isStart, resumes⟩ := progress.resumes notBlocked
    obtain ⟨nextStart, nextResumes⟩ := next.resumes notBlockedNext
    refine ⟨isStart.trans nextStart, fun framed => ?_⟩
    rw [List.append_assoc]
    exact resumes (nextResumes framed)

/-- The scans of a blocked framer. -/
theorem scanAll_blocked
    (limit : Nat)
    (windows : List Window)
    (isBlocked : framer.blocked = true) :
    HTTPFramer.scanAll limit windows framer = .quiet framer := by
  induction windows with
  | nil =>
      rfl
  | cons window later inductionHypothesis =>
      rw [HTTPFramer.scanAll, runAll,
        HTTPFramer.scan_blocked limit window isBlocked,
        Outcome.quiet_andThen]
      exact inductionHypothesis

/-- Scanning presented windows makes progress on the stream. -/
theorem scanAll_progress
    {windows : List Window}
    (presented : Presented limit stream framer windows)
    (isCursor : framer.cursor = some cursor)
    (notBlocked : framer.blocked = false)
    (delimited : Delimited limit stream cursor) :
    ∃ messages final,
      Progress limit stream cursor
        (HTTPFramer.scanAll limit windows framer) messages final := by
  induction presented generalizing cursor with
  | done =>
      exact ⟨[], cursor, .refl isCursor notBlocked⟩
  | @next framer window later isWindow inWindow presented
      inductionHypothesis =>
      obtain ⟨messages, final, scanned⟩ :=
        HTTPFramer.scan_scanned isWindow isCursor notBlocked
          (inWindow cursor isCursor) delimited
      have progress := scanned.progress delimited
      cases isBlocked : (framer.scan limit window).state.blocked with
      | true =>
          refine ⟨messages, final, ?_⟩
          rw [HTTPFramer.scanAll, runAll]
          have rest := scanAll_blocked limit later isBlocked
          rw [HTTPFramer.scanAll] at rest
          have same :
              (framer.scan limit window).andThen
                  (runAll (HTTPFramer.scan limit) later) =
                framer.scan limit window := by
            rw [Outcome.andThen, rest]
            simp
          rw [same]
          exact progress
      | false =>
          obtain ⟨rest, last, next⟩ :=
            inductionHypothesis progress.isCursor isBlocked
              (delimited.onward (progress.resumes isBlocked).1)
          exact ⟨messages ++ rest, last, progress.andThen isBlocked next⟩

/-- The windows before and after a point of the run are presented too. -/
theorem Presented.split
    {earlier later : List Window}
    (presented : Presented limit stream framer (earlier ++ later)) :
    Presented limit stream framer earlier ∧
      Presented limit stream (HTTPFramer.scanAll limit earlier framer).state
        later := by
  induction earlier generalizing framer with
  | nil =>
      exact ⟨.done, presented⟩
  | cons window earlier inductionHypothesis =>
      cases presented with
      | next isWindow inWindow presented =>
          obtain ⟨before, after⟩ := inductionHypothesis presented
          exact ⟨.next isWindow inWindow before, after⟩

/-- Windows of which the last reaches the end frame the whole stream. -/
theorem scanAll_framed
    {earlier : List Window}
    {last : Window}
    (presented : Presented limit stream framer (earlier ++ [last]))
    (reachesEnd : last.stop = stream.length)
    (isCursor : framer.cursor = some cursor)
    (notBlocked : framer.blocked = false)
    (delimited : Delimited limit stream cursor) :
    ∃ messages final,
      Scanned limit stream cursor
        (HTTPFramer.scanAll limit (earlier ++ [last]) framer) messages
        final := by
  obtain ⟨before, after⟩ := presented.split
  obtain ⟨messages, final, progress⟩ :=
    scanAll_progress before isCursor notBlocked delimited
  rw [HTTPFramer.scanAll] at progress after ⊢
  rw [runAll_append]
  cases isBlocked :
      (runAll (HTTPFramer.scan limit) earlier framer).state.blocked with
  | true =>
      have rest := scanAll_blocked limit [last] isBlocked
      rw [HTTPFramer.scanAll] at rest
      have same :
          (runAll (HTTPFramer.scan limit) earlier framer).andThen
              (runAll (HTTPFramer.scan limit) [last]) =
            runAll (HTTPFramer.scan limit) earlier framer := by
        rw [Outcome.andThen, rest]
        simp
      rw [same]
      refine ⟨messages, final, {
        isCursor := progress.isCursor
        frames := ?_
        returns := progress.returns
        tiles := progress.tiles
      }⟩
      rw [isBlocked]
      exact progress.stops isBlocked
  | false =>
      obtain ⟨isStart, resumes⟩ := progress.resumes isBlocked
      cases after with
      | next isWindow inWindow done =>
          obtain ⟨more, ending, scanned⟩ :=
            HTTPFramer.scan_scanned isWindow progress.isCursor isBlocked
              (inWindow final progress.isCursor)
              (delimited.onward isStart)
          have all :=
            progress.andThen isBlocked
              (scanned.progress (delimited.onward isStart))
          have frames := scanned.frames
          rw [reachesEnd, List.take_length] at frames
          have only :
              runAll (HTTPFramer.scan limit) [last] =
                HTTPFramer.scan limit last := by
            funext state
            simp [runAll, Outcome.andThen]
          rw [only]
          exact ⟨messages ++ more, ending, {
            isCursor := all.isCursor
            frames := resumes frames
            returns := all.returns
            tiles := all.tiles
          }⟩

end Runs

/-- A chunked request, of which the first window ends in a chunk. -/
def chunkedRequest : Bytes :=
  ascii "POST /x HTTP/1.1\r\nTransfer-Encoding: chunked\r\n\r\n" ++
    ascii "3\r\nabc\r\n0\r\n\r\n"

def chunkedMessage : Message where
  headerEnd := 48
  stop := 61
  target := ascii "/x"
  targetStart := 5
  contentType := ""
  body := ascii "abc"
  bodySpans := [⟨0, 3, 51⟩]
  encodedContent := false

theorem frameRequest_chunkedRequest :
    frameRequest 1000 chunkedRequest = .frame chunkedMessage := by
  decide +kernel

theorem frameStart_chunkedRequest
    {position : Nat}
    (isStart :
      FrameStart (requestVerdict 1000) chunkedRequest 0 position) :
    position = 0 ∨ position = 61 := by
  induction isStart with
  | first => exact .inl rfl
  | next _ inside steps isPosition =>
      rcases isPosition with rfl | rfl
      · rw [List.drop_zero, requestVerdict, frameRequest_chunkedRequest]
          at steps
        cases steps
        exact .inr rfl
      · exact absurd inside (by decide +kernel)

theorem delimited_chunkedRequest : Delimited 1000 chunkedRequest 0 := by
  have ends : requestHead (chunkedRequest.drop 61) = .wait := by
    decide +kernel
  have lengthless :
      ∀ head, requestHead chunkedRequest = .parsed head →
        headerValues head.headers "transfer-encoding" ≠ [] ∧
          ∀ body spans stop,
            chunked chunkedRequest head.headerEnd 1000 =
                .decoded body spans stop →
              stop ≤ 1000 := by
    intro head isHead
    have parsed :
        requestHead chunkedRequest =
          .parsed ⟨⟨ascii "POST", ascii "/x", 49⟩, 48,
            [(ascii "transfer-encoding", ascii "chunked")]⟩ := by
      decide +kernel
    rw [parsed] at isHead
    cases isHead
    refine ⟨by decide +kernel, ?_⟩
    have decodes :
        chunked chunkedRequest 48 1000 =
          .decoded (ascii "abc") [⟨0, 3, 51⟩] 61 := by
      decide +kernel
    intro body spans stop isDecoded
    rw [decodes] at isDecoded
    cases isDecoded
    decide
  constructor
  · rintro position isStart ⟨head, isHead, noTransfer, -⟩
    rcases frameStart_chunkedRequest isStart with rfl | rfl
    · exact (lengthless head isHead).1 noTransfer
    · rw [ends] at isHead
      cases isHead
  · intro position isStart head body spans stop isHead decodes
    rcases frameStart_chunkedRequest isStart with rfl | rfl
    · exact (lengthless head isHead).2 body spans stop decodes
    · rw [ends] at isHead
      cases isHead

end PacketAudit
