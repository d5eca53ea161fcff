import PacketAudit.Library.HighWater
import PacketAudit.Detector.Calls
import PacketAudit.Detector.Kerberos

namespace PacketAudit.Detector.Kerberos

/-!
# The Kerberos scanner on the chunks of a stream

One direction of a flow with what the detector keeps for it: the retained tail,
the scanner's cursor and the high-water mark of its findings.  What else
happens in a call, before the scanner is reached and after it, is an argument.
-/

open Library

/-! ## Calls -/

/-- What the rest of a call does to the scan of a chunk. -/
structure Surroundings where
  /-- An earlier stage of `_scan` returns. -/
  returned : Bool := false
  /-- The positions of the data that `masked_body` blanks. -/
  blanked : Nat → Bool := fun _ => false
  /-- The bytes that `_enforce_retained_cap` leaves in the tail. -/
  keep : Option Nat := none

/-- One call of `process_stream`. -/
structure Call where
  chunk : StreamChunk
  surroundings : Surroundings := {}

/-- What is kept for the scanner between two calls. -/
structure Watch where
  tail : DirectionState := {}
  provenance : ProvenanceCounts := ⟨0, 0⟩
  /-- `state.scan_cursors.get((direction, "_scan_kerberos"))`. -/
  cursor : Option Int := none
  /-- The end of the last finding; its marker is `(0, end)`. -/
  mark : Option Int := none

/-- The base offset and the data of a scanner's context. -/
structure Window where
  base : Int
  data : Bytes
  deriving Repr, DecidableEq

/-- A finding: what was found, and in which window. -/
structure Reported where
  window : Window
  request : AsReq
  deriving Repr, DecidableEq

/-- Its marker's second component. -/
def Reported.stop (reported : Reported) : Int :=
  reported.window.base + reported.request.stop

/-- The overlap of `_scan_kerberos`. -/
def scannerOverlap (overlapBytes : Nat) : Nat :=
  min overlapBytes (64 * 1024)

/-- `_scanner_gate` for `_scan_kerberos`. -/
def kerberosGate (flow : FlowKey) (cursor : Int) (context : Window) : Bool :=
  let ports := [flow.endpointA.port, flow.endpointB.port]
  let absoluteEnd := context.base + context.data.length
  let start := max context.base (min cursor absoluteEnd - 8) - context.base
  !context.data.isEmpty &&
    (ports.any (fun port => port == 88 || port == 464) ||
      (findSub [0x6A] context.data start.toNat context.data.length).isSome)

/-- `_scanner_window` for `_scan_kerberos`. -/
def scannerWindow
    (overlapBytes : Nat)
    (cursor : Int)
    (context : Window) : Window :=
  let wantedStart := max context.base (cursor - scannerOverlap overlapBytes)
  if wantedStart - context.base ≤ 0 then
    context
  else
    ⟨wantedStart, context.data.drop (wantedStart - context.base).toNat⟩

namespace Watch

/-- `_merge_stream`. -/
def merged
    (overlapBytes : Nat)
    (call : Call)
    (watch : Watch) : MergedTail :=
  mergeTail overlapBytes watch.provenance watch.tail call.chunk

/-- The context of the scanners. -/
def context
    (overlapBytes : Nat)
    (call : Call)
    (watch : Watch) : Window where
  base := (watch.merged overlapBytes call).scanStart
  data :=
    blank call.surroundings.blanked (watch.merged overlapBytes call).scanData

/-- The scanner's cursor, at first the beginning of the context. -/
def cursorIn (context : Window) (watch : Watch) : Int :=
  watch.cursor.getD context.base

/-- The window that the scanner gets, if it runs. -/
def window?
    (overlapBytes : Nat)
    (call : Call)
    (watch : Watch) : Option Window :=
  let context := watch.context overlapBytes call
  let cursor := watch.cursorIn context
  let window := scannerWindow overlapBytes cursor context
  if !call.surroundings.returned &&
      kerberosGate call.chunk.flow cursor context &&
      !window.data.isEmpty then
    some window
  else
    none

/-- The tail and the cursor after a call. -/
def advance
    (overlapBytes : Nat)
    (call : Call)
    (watch : Watch) : Watch :=
  let merged := watch.merged overlapBytes call
  let context := watch.context overlapBytes call
  let stop := context.base + context.data.length
  { watch with
    tail :=
      match call.surroundings.keep with
      | none => merged.tail
      | some keep => SensitiveDetector.keepLast keep merged.tail
    provenance :=
      match call.surroundings.keep with
      | none => merged.counts
      | some keep =>
          SensitiveDetector.keepLastCounts keep merged.tail merged.counts
    cursor :=
      if call.surroundings.returned then watch.cursor
      else some (max (watch.cursorIn context) stop) }

/-- `_scan_kerberos` with the high-water mark of `_emit`. -/
def scan (window : Window) (watch : Watch) : Outcome Watch Reported :=
  match findAsReq window.data with
  | none => .quiet watch
  | some request =>
      let reported := { window, request : Reported }
      if watch.mark.all fun reached => decide (reached < reported.stop) then
        {
          state := { watch with mark := some reported.stop }
          events := [reported]
        }
      else
        .quiet watch

/-- One call. -/
def process
    (overlapBytes : Nat)
    (call : Call)
    (watch : Watch) : Outcome Watch Reported :=
  match watch.window? overlapBytes call with
  | none => .quiet (watch.advance overlapBytes call)
  | some window => (watch.advance overlapBytes call).scan window

/-- The windows that the scanner gets in a sequence of calls. -/
def windows (overlapBytes : Nat) : List Call → Watch → List Window
  | [], _ => []
  | call :: rest, watch =>
      (watch.window? overlapBytes call).toList ++
        windows overlapBytes rest (watch.advance overlapBytes call)

end Watch

/-- The findings of a sequence of calls for a new flow. -/
def findings (overlapBytes : Nat) (calls : List Call) : List Reported :=
  (runAll (Watch.process overlapBytes) calls {}).events

/-- The windows of the scanner in such calls. -/
def windowsOf (overlapBytes : Nat) (calls : List Call) : List Window :=
  Watch.windows overlapBytes calls {}

/-! ## Streams of records -/

/-- A message with its length in front. -/
def record (body : Bytes) : Bytes :=
  bigEndianBytes 4 body.length ++ body

/-- A client stream of records. -/
def recordStream (bodies : List Bytes) : Bytes :=
  bodies.flatMap record

/-- The pieces of a stream that is cut after so many bytes each time. -/
def piecesOf : List Nat → Bytes → List Bytes
  | [], stream => [stream]
  | cut :: cuts, stream =>
      stream.take cut :: piecesOf cuts (stream.drop cut)

/-- The pieces that are chunks; no chunk is empty. -/
def chunksOf (cuts : List Nat) (stream : Bytes) : List Bytes :=
  (piecesOf cuts stream).filter fun piece => !piece.isEmpty

/-- The same call on other bytes of the stream. -/
def Call.on (call : Call) (offset : Int) (piece : Bytes) : Call :=
  { call with
    chunk :=
      { call.chunk with
        streamOffset := offset
        data := piece } }

/-- Calls like given ones, on these pieces of a stream. -/
def callsFrom (like : Nat → Call) :
    (index : Nat) → (offset : Int) → List Bytes → List Call
  | _, _, [] => []
  | index, offset, piece :: rest =>
      (like index).on offset piece ::
        callsFrom like (index + 1) (offset + piece.length) rest

/-- The calls on the chunks of a stream. -/
def callsOn
    (like : Nat → Call)
    (cuts : List Nat)
    (stream : Bytes) : List Call :=
  callsFrom like 0 0 (chunksOf cuts stream)

/-- An AS-REQ with a PA-ENC-TIMESTAMP of type 23 and a 52-byte cipher. -/
def IsEtype23Request (body : Bytes) : Prop :=
  ∃ request, asReqAt body 0 = some request ∧ request.stop = body.length

/-- The finding is taken from the bytes of the record that starts there. -/
def Reported.isFrom
    (start : Int)
    (body : Bytes)
    (reported : Reported) : Bool :=
  decide
    (reported.window.base + reported.request.start = start + 4 ∧
      reported.window.data.extract reported.request.start
          reported.request.stop =
        body)

/--
The window begins with a record, the length of which is that of the rest of the
window; or it begins with the message of the record.
-/
def Window.Frames (start : Int) (body : Bytes) (window : Window) : Prop :=
  (window.base = start ∧ lengthPrefixed window.data ∧
    body <+: window.data.drop 4) ∨
  (window.base = start + 4 ∧ body <+: window.data ∧
    (lengthPrefixed window.data → asReqAt window.data 4 = none))

/-! ## What is reported -/

/-- The windows in which a message is found, with the message. -/
def reports (windows : List Window) : List Reported :=
  windows.filterMap fun window =>
    (findAsReq window.data).map fun request => ⟨window, request⟩

section Reports

variable {overlapBytes : Nat}

theorem windows_cons
    (call : Call)
    (rest : List Call)
    (watch : Watch) :
    Watch.windows overlapBytes (call :: rest) watch =
      (watch.window? overlapBytes call).toList ++
        Watch.windows overlapBytes rest (watch.advance overlapBytes call) :=
  rfl

/-- The windows do not depend on the mark. -/
theorem windows_mark
    (calls : List Call)
    (watch : Watch)
    (mark : Option Int) :
    Watch.windows overlapBytes calls { watch with mark } =
      Watch.windows overlapBytes calls watch := by
  induction calls generalizing watch with
  | nil => rfl
  | cons call rest inductionHypothesis =>
      rw [windows_cons, windows_cons,
        ← inductionHypothesis (watch.advance overlapBytes call)]
      rfl

/-- A scan reports what the mark lets pass, and moves the mark. -/
theorem scan_passes
    (window : Window)
    (watch : Watch) :
    ∃ mark,
      (watch.scan window).state = { watch with mark } ∧
        ∀ later,
          (watch.scan window).events ++ aboveMark Reported.stop mark later =
            aboveMark Reported.stop watch.mark
              (reports [window] ++ later) := by
  unfold Watch.scan
  cases found : findAsReq window.data with
  | none =>
      refine ⟨watch.mark, rfl, fun later => ?_⟩
      have nothing : reports [window] = [] := by simp [reports, found]
      rw [nothing]
      rfl
  | some request =>
      have one : reports [window] = [⟨window, request⟩] := by
        simp [reports, found]
      rw [one]
      simp only [List.singleton_append, aboveMark]
      split
      · exact ⟨_, rfl, fun later => rfl⟩
      · exact ⟨watch.mark, rfl, fun later => rfl⟩

/-- The findings of calls are what the mark lets pass. -/
theorem events_process
    (calls : List Call)
    (watch : Watch) :
    (runAll (Watch.process overlapBytes) calls watch).events =
      aboveMark Reported.stop watch.mark
        (reports (Watch.windows overlapBytes calls watch)) := by
  induction calls generalizing watch with
  | nil => rfl
  | cons call rest inductionHypothesis =>
      rw [runAll, Outcome.events_andThen, inductionHypothesis, windows_cons]
      unfold Watch.process
      cases watch.window? overlapBytes call with
      | none => rfl
      | some window =>
          obtain ⟨mark, isState, passes⟩ :=
            scan_passes window (watch.advance overlapBytes call)
          have behind :
              reports
                  ((some window).toList ++
                    Watch.windows overlapBytes rest
                      (watch.advance overlapBytes call)) =
                reports [window] ++
                  reports
                    (Watch.windows overlapBytes rest
                      (watch.advance overlapBytes call)) :=
            List.filterMap_append
          simp only [isState, windows_mark]
          rw [passes, behind]
          rfl

theorem findings_eq (calls : List Call) :
    findings overlapBytes calls =
      aboveMark Reported.stop none (reports (windowsOf overlapBytes calls)) :=
  events_process calls {}

end Reports

/-! ## The record of a finding -/

theorem findAsReq_eq (data : Bytes) :
    findAsReq data =
      if lengthPrefixed data then
        (asReqAt data 4).or (asReqAt data 0)
      else
        asReqAt data 0 := by
  unfold findAsReq starts
  split
  · simp only [List.findSome?_cons, List.findSome?_nil]
    cases asReqAt data 4 <;> cases asReqAt data 0 <;> rfl
  · simp only [List.findSome?_cons, List.findSome?_nil]
    cases asReqAt data 0 <;> rfl

/-- Where the message found in a window lies. -/
theorem bounds_of_asReqAt
    {data : Bytes}
    {start : Nat}
    {request : AsReq}
    (isFound : asReqAt data start = some request) :
    request.start = start ∧ start < request.stop ∧
      request.stop ≤ data.length := by
  obtain ⟨app, isApp, -, -, -, starts, stops⟩ := asReqAt_eq_some.mp isFound
  rw [stops]
  obtain ⟨before, -, inside⟩ := bounds_of_tlv isApp
  exact ⟨starts, before, inside⟩

theorem asReqAt_of_findAsReq
    {data : Bytes}
    {request : AsReq}
    (isFound : findAsReq data = some request) :
    ∃ start, asReqAt data start = some request := by
  rw [findAsReq_eq] at isFound
  split at isFound
  · rcases Option.or_eq_some_iff.mp isFound with first | ⟨-, second⟩
    · exact ⟨4, first⟩
    · exact ⟨0, second⟩
  · exact ⟨0, isFound⟩

/-- The finding of a record ends with it. -/
theorem stop_of_isFrom
    {windows : List Window}
    {start : Int}
    {body : Bytes}
    {reported : Reported}
    (member : reported ∈ reports windows)
    (isFrom : reported.isFrom start body) :
    reported.stop = start + 4 + body.length := by
  obtain ⟨window, -, isReported⟩ := List.mem_filterMap.mp member
  obtain ⟨request, isFound, rfl⟩ := Option.map_eq_some_iff.mp isReported
  obtain ⟨position, isAt⟩ := asReqAt_of_findAsReq isFound
  obtain ⟨starts, before, inside⟩ := bounds_of_asReqAt isAt
  obtain ⟨begins, isBody⟩ := of_decide_eq_true isFrom
  have length := congrArg List.length isBody
  rw [List.extract_eq_take_drop, List.length_take,
    List.length_drop] at length
  unfold Reported.stop
  simp only at *
  omega

theorem prefix_of_extract
    {data body : Bytes}
    {start stop : Nat}
    (isBody : data.extract start stop = body) :
    body <+: data.drop start := by
  rw [← isBody, List.extract_eq_take_drop]
  exact List.take_prefix _ _

/-- A message that data begins with, after so many bytes, is found there. -/
theorem asReqAt_of_prefix
    {data body : Bytes}
    {start : Nat}
    (isRequest : IsEtype23Request body)
    (starts : start ≤ data.length)
    (begins : body <+: data.drop start) :
    ∃ request,
      asReqAt data start = some request ∧ request.start = start ∧
        data.extract start request.stop = body := by
  obtain ⟨request, isFound, whole⟩ := isRequest
  obtain ⟨back, isRest⟩ := begins
  have embeds : Embeds start body data :=
    ⟨data.take start, back, by rw [isRest, List.take_append_drop],
      List.length_take_of_le starts⟩
  have extracted :=
    @Embeds.extract start body data embeds 0 _ (le_refl body.length)
  refine ⟨_, asReqAt_shift embeds isFound, rfl, ?_⟩
  simp only
  rw [whole]
  rw [Nat.add_zero] at extracted
  rw [extracted, List.extract_eq_take_drop]
  simp

/-- A window reports a record exactly if it frames it. -/
theorem isFrom_iff_frames
    {window : Window}
    {start : Int}
    {body : Bytes}
    (isRequest : IsEtype23Request body) :
    (∃ request,
      findAsReq window.data = some request ∧
        (Reported.mk window request).isFrom start body) ↔
      window.Frames start body := by
  constructor
  · rintro ⟨request, isFound, isFrom⟩
    obtain ⟨begins, isBody⟩ := of_decide_eq_true isFrom
    simp only at begins isBody
    rw [findAsReq_eq] at isFound
    split at isFound
    case isTrue prefixed =>
      rcases Option.or_eq_some_iff.mp isFound with first | ⟨none, second⟩
      · have starts := (bounds_of_asReqAt first).1
        rw [starts] at begins isBody
        exact .inl ⟨by omega, prefixed, prefix_of_extract isBody⟩
      · have starts := (bounds_of_asReqAt second).1
        rw [starts] at begins isBody
        exact .inr ⟨by omega, prefix_of_extract isBody, fun _ => none⟩
    case isFalse notPrefixed =>
      have starts := (bounds_of_asReqAt isFound).1
      rw [starts] at begins isBody
      exact .inr ⟨by omega, prefix_of_extract isBody,
        fun prefixed => absurd prefixed notPrefixed⟩
  · rintro (⟨begins, prefixed, isPrefix⟩ | ⟨begins, isPrefix, notInside⟩)
    · have longer : 4 < window.data.length := (of_decide_eq_true prefixed).1
      obtain ⟨request, isFound, starts, isBody⟩ :=
        asReqAt_of_prefix isRequest longer.le isPrefix
      refine ⟨request, ?_, ?_⟩
      · rw [findAsReq_eq, if_pos prefixed, isFound]
        rfl
      · exact decide_eq_true ⟨by simp only; omega, by
          simp only
          rw [starts]
          exact isBody⟩
    · have isFront : body <+: window.data.drop 0 := isPrefix
      obtain ⟨request, isFound, starts, isBody⟩ :=
        asReqAt_of_prefix isRequest (Nat.zero_le _) isFront
      refine ⟨request, ?_, ?_⟩
      · rw [findAsReq_eq]
        split
        case isTrue prefixed =>
          rw [notInside prefixed, isFound]
          rfl
        case isFalse => exact isFound
      · exact decide_eq_true ⟨by simp only; omega, by
          simp only
          rw [starts]
          exact isBody⟩

/-! ## Which records are found -/

section Records

variable {overlapBytes : Nat}

/-- One record is found once exactly if a window frames it in time. -/
theorem countP_findings_eq_one
    (calls : List Call)
    (start : Int)
    {body : Bytes}
    (isRequest : IsEtype23Request body) :
    (findings overlapBytes calls).countP (Reported.isFrom start body) = 1 ↔
      ∃ prior window later,
        windowsOf overlapBytes calls = prior ++ window :: later ∧
          window.Frames start body ∧
          ∀ earlier ∈ prior, ∀ request,
            findAsReq earlier.data = some request →
              earlier.base + request.stop < start + 4 + body.length := by
  rw [findings_eq, countP_aboveMark_eq_one
    (fun reported member => stop_of_isFrom member)]
  simp only [Option.all_none, true_and]
  constructor
  · rintro ⟨prior, reported, later, shape, isFrom, lower⟩
    obtain ⟨priorWindows, rest, windowsShape, priorShape, restShape⟩ :=
      List.filterMap_eq_append_iff.mp shape
    obtain ⟨silent, window, laterWindows, rfl, areSilent, isReported, -⟩ :=
      List.filterMap_eq_cons_iff.mp restShape
    obtain ⟨request, isFound, rfl⟩ := Option.map_eq_some_iff.mp isReported
    refine ⟨priorWindows ++ silent, window, laterWindows,
      by rw [windowsShape, List.append_assoc],
      (isFrom_iff_frames isRequest).mp ⟨request, isFound, isFrom⟩, ?_⟩
    intro earlier member other isOther
    rcases List.mem_append.mp member with inPrior | inSilent
    · refine lower ⟨earlier, other⟩ ?_
      rw [← priorShape]
      exact List.mem_filterMap.mpr
        ⟨earlier, inPrior, by rw [isOther]; rfl⟩
    · have nothing := areSilent earlier inSilent
      rw [isOther] at nothing
      cases nothing
  · rintro ⟨prior, window, later, shape, frames, lower⟩
    obtain ⟨request, isFound, isFrom⟩ :=
      (isFrom_iff_frames isRequest).mpr frames
    refine ⟨reports prior, ⟨window, request⟩, reports later, ?_, isFrom, ?_⟩
    · rw [shape]
      unfold reports
      rw [List.filterMap_append, List.filterMap_cons, isFound]
      rfl
    · intro reported member
      obtain ⟨earlier, inPrior, isReported⟩ := List.mem_filterMap.mp member
      obtain ⟨other, isOther, rfl⟩ := Option.map_eq_some_iff.mp isReported
      exact lower earlier inPrior other isOther

end Records

/-! ## Untouched streams -/

/-- Calls for one stream of port 88 that nothing but the scanner works on. -/
structure Untouched (like : Nat → Call) : Prop where
  port : ∀ index,
    (like index).chunk.flow.endpointA.port = 88 ∨
      (like index).chunk.flow.endpointB.port = 88
  alone : ∀ index, (like index).surroundings = {}

/-- What has been read after each of the pieces. -/
def prefixesAfter (seen : Bytes) : List Bytes → List Bytes
  | [] => []
  | piece :: rest => (seen ++ piece) :: prefixesAfter (seen ++ piece) rest

/-- What is kept after the first bytes of a stream that the tail holds whole. -/
structure Watch.Keeps (seen : Bytes) (watch : Watch) : Prop where
  data : watch.tail.data = seen
  base : watch.tail.baseOffset = 0
  cursor : watch.cursor.getD 0 = seen.length

section UntouchedStreams

variable {overlapBytes : Nat}
variable {like : Nat → Call}

theorem blank_nothing (data : Bytes) :
    blank (fun _ => false) data = data := by
  unfold blank
  simp only [Bool.false_eq_true, if_false]
  exact List.mapIdx_eq_iff.mpr fun index => by simp

/-- A chunk that goes on after the tail is appended to it. -/
theorem Watch.Keeps.merged
    {seen : Bytes}
    {watch : Watch}
    (keeps : watch.Keeps seen)
    {call : Call}
    (goesOn : call.chunk.streamOffset = seen.length)
    (notEmpty : call.chunk.data ≠ [])
    (fits : seen.length + call.chunk.data.length ≤ overlapBytes) :
    (watch.merged overlapBytes call).scanStart = 0 ∧
      (watch.merged overlapBytes call).scanData = seen ++ call.chunk.data ∧
      (watch.merged overlapBytes call).tail.data =
        seen ++ call.chunk.data ∧
      (watch.merged overlapBytes call).tail.baseOffset = 0 := by
  unfold Watch.merged mergeTail
  by_cases isNew : seen = []
  · subst isNew
    have kept : lastBytes overlapBytes call.chunk.data = call.chunk.data := by
      unfold lastBytes
      rw [Nat.sub_eq_zero_of_le (by simpa using fits), List.drop_zero]
    rw [if_pos (by rw [keeps.data]; rfl)]
    refine ⟨goesOn, rfl, kept, ?_⟩
    change
      call.chunk.streamEnd - (lastBytes overlapBytes call.chunk.data).length =
        0
    rw [kept]
    unfold StreamChunk.streamEnd
    rw [goesOn]
    simp
  · have tailEnd : watch.tail.tailEnd = seen.length := by
      unfold DirectionState.tailEnd
      rw [keeps.base, keeps.data, zero_add]
    have longer : 0 < call.chunk.data.length :=
      List.length_pos_iff.mpr notEmpty
    have behind : watch.tail.tailEnd < call.chunk.streamEnd := by
      unfold StreamChunk.streamEnd
      omega
    rw [if_neg (by rw [keeps.data, List.isEmpty_iff]; exact isNew),
      if_neg (fun replayed => absurd replayed.2.1 (not_le.mpr behind)),
      if_neg (by rw [keeps.base, tailEnd]; omega),
      if_pos (goesOn.trans tailEnd.symm)]
    have length :
        (extended watch.tail call.chunk).data.length =
          seen.length + call.chunk.data.length := by
      unfold extended
      rw [List.length_append, keeps.data]
    unfold mergeAdjoining
    simp only
    rw [if_neg (by omega), if_neg (by omega)]
    have appended :
        (extended watch.tail call.chunk).data = seen ++ call.chunk.data := by
      unfold extended
      rw [keeps.data]
    exact ⟨keeps.base, appended, appended, keeps.base⟩

/-- One more chunk of an untouched stream. -/
theorem Watch.Keeps.step
    {seen : Bytes}
    {watch : Watch}
    (keeps : watch.Keeps seen)
    {call : Call}
    (port :
      call.chunk.flow.endpointA.port = 88 ∨
        call.chunk.flow.endpointB.port = 88)
    (alone : call.surroundings = {})
    (goesOn : call.chunk.streamOffset = seen.length)
    (notEmpty : call.chunk.data ≠ [])
    (fits :
      seen.length + call.chunk.data.length ≤ scannerOverlap overlapBytes) :
    watch.window? overlapBytes call =
        some ⟨0, seen ++ call.chunk.data⟩ ∧
      (watch.advance overlapBytes call).Keeps (seen ++ call.chunk.data) := by
  have fitsTail :
      seen.length + call.chunk.data.length ≤ overlapBytes :=
    fits.trans (min_le_left _ _)
  obtain ⟨scanStart, scanData, tailData, tailBase⟩ :=
    keeps.merged goesOn notEmpty fitsTail
  have context :
      watch.context overlapBytes call = ⟨0, seen ++ call.chunk.data⟩ := by
    unfold Watch.context
    rw [alone, scanStart, scanData, blank_nothing]
  have cursor :
      watch.cursorIn ⟨0, seen ++ call.chunk.data⟩ = seen.length :=
    keeps.cursor
  have whole : seen ++ call.chunk.data ≠ [] :=
    List.append_ne_nil_of_right_ne_nil _ notEmpty
  constructor
  · have gate :
        kerberosGate call.chunk.flow seen.length
          ⟨0, seen ++ call.chunk.data⟩ = true := by
      unfold kerberosGate
      rcases port with isPort | isPort <;> simp [isPort, notEmpty]
    have window :
        scannerWindow overlapBytes seen.length ⟨0, seen ++ call.chunk.data⟩ =
          ⟨0, seen ++ call.chunk.data⟩ := by
      unfold scannerWindow
      rw [if_pos (by simp only; omega)]
    unfold Watch.window?
    simp only
    rw [context, cursor, window, gate, alone]
    simp [notEmpty]
  · refine ⟨?_, ?_, ?_⟩
    · unfold Watch.advance
      rw [alone]
      exact tailData
    · unfold Watch.advance
      rw [alone]
      exact tailBase
    · unfold Watch.advance
      simp only
      rw [alone, context, cursor]
      simp only [Bool.false_eq_true, if_false, Option.getD_some,
        List.length_append, zero_add]
      omega

/-- The windows on a short stream are all that has been read so far. -/
theorem windows_callsFrom
    (untouched : Untouched like)
    (index : Nat)
    {pieces : List Bytes}
    (notEmpty : ∀ piece ∈ pieces, piece ≠ [])
    {seen : Bytes}
    {watch : Watch}
    (keeps : watch.Keeps seen)
    (fits :
      seen.length + pieces.flatten.length ≤ scannerOverlap overlapBytes) :
    Watch.windows overlapBytes (callsFrom like index seen.length pieces)
        watch =
      (prefixesAfter seen pieces).map fun read => ⟨0, read⟩ := by
  induction pieces generalizing index seen watch with
  | nil => rfl
  | cons piece rest inductionHypothesis =>
      rw [List.flatten_cons, List.length_append] at fits
      obtain ⟨window, next⟩ :=
        @Watch.Keeps.step overlapBytes seen watch keeps
          ((like index).on seen.length piece) (untouched.port index)
          (untouched.alone index) rfl (notEmpty piece List.mem_cons_self)
          (by unfold Call.on; simp only; omega)
      change (Watch.advance overlapBytes _ watch).Keeps (seen ++ piece) at next
      have later :=
        inductionHypothesis (index + 1)
          (fun other member => notEmpty other (List.mem_cons_of_mem _ member))
          next (by rw [List.length_append]; omega)
      rw [List.length_append, Nat.cast_add] at later
      rw [callsFrom, windows_cons, window, later]
      rfl

theorem flatten_piecesOf
    (cuts : List Nat)
    (stream : Bytes) :
    (piecesOf cuts stream).flatten = stream := by
  induction cuts generalizing stream with
  | nil => simp [piecesOf]
  | cons cut cuts inductionHypothesis =>
      rw [piecesOf, List.flatten_cons, inductionHypothesis,
        List.take_append_drop]

theorem flatten_chunksOf
    (cuts : List Nat)
    (stream : Bytes) :
    (chunksOf cuts stream).flatten = stream := by
  unfold chunksOf
  rw [List.flatten_filter_not_isEmpty, flatten_piecesOf]

theorem ne_nil_of_mem_chunksOf
    {cuts : List Nat}
    {stream piece : Bytes}
    (member : piece ∈ chunksOf cuts stream) :
    piece ≠ [] := by
  have notEmpty := (List.mem_filter.mp member).2
  simpa using notEmpty

/-- The windows on an untouched stream that the scanner's overlap covers. -/
theorem windowsOf_untouched
    (untouched : Untouched like)
    (cuts : List Nat)
    {stream : Bytes}
    (fits : stream.length ≤ scannerOverlap overlapBytes) :
    windowsOf overlapBytes (callsOn like cuts stream) =
      (prefixesAfter [] (chunksOf cuts stream)).map
        fun read => ⟨0, read⟩ := by
  have keeps : ({} : Watch).Keeps [] := ⟨rfl, rfl, rfl⟩
  exact windows_callsFrom untouched 0
    (fun piece member => ne_nil_of_mem_chunksOf member) keeps
    (by rw [flatten_chunksOf, List.length_nil, zero_add]; exact fits)

end UntouchedStreams

/-! ## Which records of an untouched stream are found -/

section UntouchedRecords

variable {overlapBytes : Nat}
variable {like : Nat → Call}

theorem prefix_of_mem_prefixesAfter
    {seen read : Bytes}
    {pieces : List Bytes}
    (member : read ∈ prefixesAfter seen pieces) :
    read <+: seen ++ pieces.flatten := by
  induction pieces generalizing seen with
  | nil => cases member
  | cons piece rest inductionHypothesis =>
      rw [List.flatten_cons, ← List.append_assoc]
      rcases List.mem_cons.mp member with rfl | inRest
      · exact List.prefix_append _ _
      · exact inductionHypothesis inRest

theorem length_lt_of_mem_prefixesAfter
    {seen read : Bytes}
    {pieces : List Bytes}
    (notEmpty : ∀ piece ∈ pieces, piece ≠ [])
    (member : read ∈ prefixesAfter seen pieces) :
    seen.length < read.length := by
  induction pieces generalizing seen with
  | nil => cases member
  | cons piece rest inductionHypothesis =>
      have longer : seen.length < (seen ++ piece).length := by
        have pieceLength :=
          List.length_pos_iff.mpr (notEmpty piece List.mem_cons_self)
        rw [List.length_append]
        omega
      rcases List.mem_cons.mp member with rfl | inRest
      · exact longer
      · exact longer.trans
          (inductionHypothesis
            (fun other inOther =>
              notEmpty other (List.mem_cons_of_mem _ inOther))
            inRest)

/-- Every piece makes what has been read longer. -/
theorem prefixesAfter_increase
    {seen : Bytes}
    {pieces : List Bytes}
    (notEmpty : ∀ piece ∈ pieces, piece ≠ []) :
    (prefixesAfter seen pieces).Pairwise
      fun earlier later => earlier.length < later.length := by
  induction pieces generalizing seen with
  | nil => exact List.Pairwise.nil
  | cons piece rest inductionHypothesis =>
      have restNotEmpty : ∀ other ∈ rest, other ≠ [] :=
        fun other member => notEmpty other (List.mem_cons_of_mem _ member)
      exact List.pairwise_cons.mpr
        ⟨fun read member => length_lt_of_mem_prefixesAfter restNotEmpty member,
          inductionHypothesis restNotEmpty⟩

theorem length_record (body : Bytes) :
    (record body).length = 4 + body.length := by
  unfold record
  rw [List.length_append, length_bigEndianBytes]

theorem take_record
    (body rest : Bytes) :
    (record body ++ rest).take 4 = bigEndianBytes 4 body.length := by
  unfold record
  rw [List.append_assoc]
  exact List.take_left' (length_bigEndianBytes 4 _)

theorem drop_record (body : Bytes) : (record body).drop 4 = body :=
  List.drop_left' (length_bigEndianBytes 4 _)

/-- A record begins with the length of the rest of it. -/
theorem lengthPrefixed_record
    {body : Bytes}
    (notEmpty : body ≠ [])
    (short : body.length < 256 ^ 4) :
    lengthPrefixed (record body) := by
  have longer : 0 < body.length := List.length_pos_iff.mpr notEmpty
  have header := take_record body []
  rw [List.append_nil] at header
  unfold lengthPrefixed
  rw [header, bigEndian_bigEndianBytes, Nat.mod_eq_of_lt short,
    length_record]
  exact decide_eq_true ⟨by omega, by omega⟩

/-- What begins with a record, and with its own length, is the record. -/
theorem eq_record_of_lengthPrefixed
    {body rest read : Bytes}
    (short : body.length < 256 ^ 4)
    (isPrefix : read <+: record body ++ rest)
    (prefixed : lengthPrefixed read) :
    read = record body := by
  obtain ⟨longer, isLength⟩ := of_decide_eq_true prefixed
  obtain ⟨back, shape⟩ := isPrefix
  have header : read.take 4 = bigEndianBytes 4 body.length := by
    rw [← take_record body rest, ← shape,
      List.take_append_of_le_length longer.le]
  rw [header, bigEndian_bigEndianBytes, Nat.mod_eq_of_lt short] at isLength
  have length : read.length = (record body).length := by
    rw [length_record]
    omega
  exact (List.append_inj shape length).1

/-- A request is short. -/
theorem IsEtype23Request.bounds
    {body : Bytes}
    (isRequest : IsEtype23Request body) :
    body ≠ [] ∧ body.length < 256 ^ 4 := by
  obtain ⟨request, isFound, stops⟩ := isRequest
  obtain ⟨app, isApp, -, -, -, -, appStops⟩ := asReqAt_eq_some.mp isFound
  obtain ⟨longer, bound, -⟩ := bounds_of_tlv isApp
  rw [← appStops, stops] at longer bound
  refine ⟨List.length_pos_iff.mp longer, ?_⟩
  simp only [maxBinaryMessage] at bound
  omega

/-- On an untouched stream that the overlap covers the first record is found. -/
theorem first_of_untouched_found
    (untouched : Untouched like)
    {cuts : List Nat}
    {before after : List Bytes}
    {body : Bytes}
    (fits :
      (recordStream (before ++ body :: after)).length ≤
        scannerOverlap overlapBytes)
    (isRequest : IsEtype23Request body)
    (found :
      (findings overlapBytes
          (callsOn like cuts (recordStream (before ++ body :: after)))).countP
        (Reported.isFrom (recordStream before).length body) = 1) :
    before = [] ∧
      record body ∈
        prefixesAfter []
          (chunksOf cuts (recordStream (before ++ body :: after))) := by
  obtain ⟨-, short⟩ := isRequest.bounds
  rw [countP_findings_eq_one _ _ isRequest,
    windowsOf_untouched untouched cuts fits] at found
  obtain ⟨prior, window, later, shape, frames, -⟩ := found
  have isWindow :
      window ∈
        (prefixesAfter []
            (chunksOf cuts (recordStream (before ++ body :: after)))).map
          fun read => (⟨0, read⟩ : Window) := by
    rw [shape]
    exact List.mem_append_right _ List.mem_cons_self
  obtain ⟨read, isRead, rfl⟩ := List.mem_map.mp isWindow
  rcases frames with ⟨begins, prefixed, -⟩ | ⟨begins, -, -⟩
  · have isFirst : before = [] := by
      cases before with
      | nil => rfl
      | cons first others =>
          unfold recordStream at begins
          rw [List.flatMap_cons, List.length_append, length_record] at begins
          simp only at begins
          omega
    subst isFirst
    have isPrefix := prefix_of_mem_prefixesAfter isRead
    rw [flatten_chunksOf, List.nil_append, List.nil_append, recordStream,
      List.flatMap_cons] at isPrefix
    rw [← eq_record_of_lengthPrefixed short isPrefix prefixed]
    exact ⟨rfl, isRead⟩
  · simp only at begins
    omega

end UntouchedRecords

/-! ## A retried request -/

/-- An element of less than 128 bytes. -/
def der (tag : UInt8) (content : Bytes) : Bytes :=
  tag :: UInt8.ofNat content.length :: content

/-- An AS-REQ of `u` in the realm `R`, with this pre-authentication data. -/
def kerberosAsReq (padata : Bytes) : Bytes :=
  let principal :=
    der 0x30
      (der 0xA0 (der 0x02 [1]) ++
        der 0xA1 (der 0x30 (der 0x1B [0x75])))
  let body :=
    der 0xA4
      (der 0x30 (der 0xA1 principal ++ der 0xA2 (der 0x1B [0x52])))
  der 0x6A
    (der 0x30
      (der 0xA1 (der 0x02 [5]) ++ der 0xA2 (der 0x02 [10]) ++ padata ++ body))

/-- A PA-ENC-TIMESTAMP of type 23. -/
def encryptedTimestamp : Bytes :=
  let encrypted :=
    der 0x30
      (der 0xA0 (der 0x02 [23]) ++
        der 0xA2 (der 0x04 (List.replicate 52 0x41)))
  der 0xA3
    (der 0x30
      (der 0x30
        (der 0xA1 (der 0x02 [2]) ++ der 0xA2 (der 0x04 encrypted))))

/-- The request as a client sends it first, without pre-authentication. -/
def firstRequest : Bytes := kerberosAsReq []

/-- The same request, after the server has asked for pre-authentication. -/
def secondRequest : Bytes := kerberosAsReq encryptedTimestamp

/-- The calls for a client's connection to port 88. -/
def clientCall : Call where
  chunk := {
    flow := ⟨6, ⟨"10.0.0.1", 40000⟩, ⟨"10.0.0.2", 88⟩, "eth0", []⟩
    direction := .aToB
    streamOffset := 0
    data := []
    packetIds := []
    firstTimestampNs := 0
    lastTimestampNs := 0
  }

theorem secondRequest_isEtype23Request : IsEtype23Request secondRequest :=
  ⟨⟨0, 117, "u", "R", List.replicate 52 0x41⟩, by decide +kernel, by decide⟩

theorem untouched_clientCall : Untouched fun _ => clientCall :=
  ⟨fun _ => .inr rfl, fun _ => rfl⟩

end PacketAudit.Detector.Kerberos
