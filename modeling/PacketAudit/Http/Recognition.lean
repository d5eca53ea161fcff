import PacketAudit.Http.Segmentation

namespace PacketAudit

open Library

/-!
# Recognising the first request

A framer without a cursor searches every window for a request line, from 8192
bytes before the end of the window before.  A request line may be longer than
that, so a line that was nearly complete in one window may start before the
place where the next search begins.
-/

/-- A request line starts here, at a line start. -/
structure IsRequestStart (data : Bytes) (position : Nat) : Prop where
  inside : position < data.length
  lineStart : position = 0 ∨ data[position - 1]? = some 10
  isLine : (requestAt (data.drop position)).isSome

/-- The search returns the first request line from its start on. -/
theorem searchRequest_eq_some
    {data : Bytes}
    {start position : Nat} :
    searchRequest data start = some position ↔
      start ≤ position ∧ IsRequestStart data position ∧
        ∀ earlier, start ≤ earlier → earlier < position →
          ¬ IsRequestStart data earlier := by
  have isStart
      {candidate : Nat}
      (inside : candidate < data.length) :
      ((candidate = 0 || data[candidate - 1]? = some 10) &&
          (requestAt (data.drop candidate)).isSome) = true ↔
        IsRequestStart data candidate := by
    simp only [Bool.and_eq_true, Bool.or_eq_true, decide_eq_true_eq]
    exact ⟨fun ⟨lineStart, isLine⟩ => ⟨inside, lineStart, isLine⟩,
      fun found => ⟨found.lineStart, found.isLine⟩⟩
  unfold searchRequest
  rw [List.find?_range'_eq_some]
  constructor
  · rintro ⟨found, inRange, isFirst⟩
    rw [List.mem_range'_1] at inRange
    refine ⟨inRange.1, (isStart (by omega)).mp found, ?_⟩
    intro earlier fromStart before isEarlier
    have missed := isFirst earlier fromStart before
    rw [(isStart isEarlier.inside).mpr isEarlier] at missed
    cases missed
  · rintro ⟨fromStart, found, isFirst⟩
    have inside := found.inside
    refine ⟨(isStart inside).mpr found, ?_, ?_⟩
    · rw [List.mem_range'_1]
      omega
    · intro earlier notBefore before
      rw [Bool.not_eq_true']
      by_contra isEarlier
      exact isFirst earlier notBefore before
        ((isStart (by omega)).mp (Bool.of_not_eq_false isEarlier))

theorem searchRequest_eq_none
    {data : Bytes}
    {start : Nat} :
    searchRequest data start = none ↔
      ∀ position, start ≤ position → ¬ IsRequestStart data position := by
  rw [Option.eq_none_iff_forall_ne_some]
  constructor
  · intro nothing position fromStart isStart
    classical
    have exists_start :
        ∃ candidate, start ≤ candidate ∧ IsRequestStart data candidate :=
      ⟨position, fromStart, isStart⟩
    refine nothing (Nat.find exists_start) ?_
    obtain ⟨fromFirst, isFirst⟩ := Nat.find_spec exists_start
    refine searchRequest_eq_some.mpr ⟨fromFirst, isFirst, ?_⟩
    intro earlier notBefore before isEarlier
    exact Nat.find_min exists_start before ⟨notBefore, isEarlier⟩
  · intro nothing position found
    obtain ⟨fromStart, isStart, -⟩ := searchRequest_eq_some.mp found
    exact nothing position fromStart isStart

/-! ## The first request of a stream -/

/-- The first request line of the stream. -/
structure FirstRequest
    (stream : Bytes)
    (position : Nat)
    (line : RequestLine) : Prop where
  found : searchRequest stream 0 = some position
  isLine : requestAt (stream.drop position) = some line

namespace FirstRequest

variable {stream : Bytes}
variable {position : Nat}
variable {line : RequestLine}

theorem isStart
    (first : FirstRequest stream position line) :
    IsRequestStart stream position :=
  (searchRequest_eq_some.mp first.found).2.1

theorem not_before
    (first : FirstRequest stream position line)
    {earlier : Nat}
    (before : earlier < position) :
    ¬ IsRequestStart stream earlier :=
  (searchRequest_eq_some.mp first.found).2.2 earlier (Nat.zero_le _) before

/-- What starts a request in a prefix starts one in the stream. -/
theorem isRequestStart_of_take
    {candidate stop : Nat}
    (isStart : IsRequestStart (stream.take stop) candidate) :
    IsRequestStart stream candidate ∧ candidate < stop := by
  obtain ⟨inside, lineStart, isLine⟩ := isStart
  rw [List.length_take] at inside
  obtain ⟨found, isFound⟩ := Option.isSome_iff_exists.mp isLine
  have front : (stream.take stop).drop candidate <+: stream.drop candidate :=
    (List.take_prefix stop stream).drop candidate
  refine ⟨⟨by omega, ?_, ?_⟩, by omega⟩
  · refine lineStart.imp_right fun newline => ?_
    rw [List.getElem?_take] at newline
    split at newline
    · exact newline
    · cases newline
  · rw [requestAt_of_isPrefix front isFound]
    rfl

/-- The line has no newline but its last byte. -/
theorem no_newline
    (first : FirstRequest stream position line)
    {index : Nat}
    (fromStart : position ≤ index)
    (before : index + 1 < position + line.stop) :
    stream[index]? ≠ some 10 := by
  obtain ⟨valid, more, shape⟩ := requestAt_sound first.isLine
  intro newline
  have inLine : (stream.drop position)[index - position]? = some 10 := by
    rw [List.getElem?_drop, Nat.add_sub_cancel' fromStart]
    exact newline
  have length : line.textBeforeNewline.length + 1 = line.stop := by
    rw [RequestLine.stop, RequestLine.text_eq]
    simp
  rw [← shape, RequestLine.text_eq, List.append_assoc,
    List.getElem?_append_left (by omega)] at inLine
  exact valid.noNewline (List.mem_of_getElem? inLine)

/-- A window that cuts the line shows no request line at all. -/
theorem nothing_before
    (first : FirstRequest stream position line)
    {stop : Nat}
    (cut : stop < position + line.stop)
    (start : Nat) :
    searchRequest (stream.take stop) start = none := by
  rw [searchRequest_eq_none]
  intro candidate _ isStart
  obtain ⟨inStream, inside⟩ := isRequestStart_of_take isStart
  rcases Nat.lt_trichotomy candidate position with before | same | behind
  · exact first.not_before before inStream
  · subst same
    obtain ⟨found, isFound⟩ := Option.isSome_iff_exists.mp isStart.isLine
    have front :
        (stream.take stop).drop candidate <+: stream.drop candidate :=
      (List.take_prefix stop stream).drop candidate
    have sameLine := requestAt_of_isPrefix front isFound
    rw [first.isLine] at sameLine
    obtain rfl := Option.some.inj sameLine
    have fits := (requestAt_sound isFound).2.length_le
    rw [List.length_drop, List.length_take] at fits
    unfold RequestLine.stop at cut
    omega
  · -- A later line would start behind a newline inside the first one.
    rcases inStream.lineStart with atStart | newline
    · omega
    · exact first.no_newline (by omega) (by omega) newline

/-- A window that holds the line holds its start, and none before it. -/
theorem isRequestStart_take
    (first : FirstRequest stream position line)
    {stop : Nat}
    (complete : position + line.stop ≤ stop)
    (inside : stop ≤ stream.length) :
    IsRequestStart (stream.take stop) position := by
  obtain ⟨valid, isText⟩ := requestAt_sound first.isLine
  have positive : 0 < line.stop := by
    rw [RequestLine.stop, RequestLine.text_eq]
    simp
  have short :
      line.text.length ≤ ((stream.take stop).drop position).length := by
    rw [List.length_drop, List.length_take]
    unfold RequestLine.stop at complete
    omega
  have front :
      (stream.take stop).drop position <+: stream.drop position :=
    (List.take_prefix stop stream).drop position
  refine ⟨by rw [List.length_take]; omega, ?_, ?_⟩
  · refine first.isStart.lineStart.imp_right fun newline => ?_
    rw [List.getElem?_take, if_pos (by omega)]
    exact newline
  · rw [requestAt_text valid
      (List.prefix_of_prefix_length_le isText front short)]
    rfl

/-- The search of such a window finds the line unless it starts behind it. -/
theorem searchRequest_take
    (first : FirstRequest stream position line)
    {stop : Nat}
    (complete : position + line.stop ≤ stop)
    (inside : stop ≤ stream.length)
    (start : Nat) :
    searchRequest (stream.take stop) start = some position ↔
      start ≤ position := by
  constructor
  · exact searchRequest_le
  · intro fromStart
    refine searchRequest_eq_some.mpr
      ⟨fromStart, first.isRequestStart_take complete inside, ?_⟩
    intro earlier _ before isEarlier
    exact first.not_before before (isRequestStart_of_take isEarlier).1

end FirstRequest

/-! ## Windows that retain everything -/

/-- The window onto the first bytes of a stream, none of them dropped. -/
def retained (base : Nat) (stream : Bytes) (stop : Nat) : Window :=
  ⟨base, stream.take stop⟩

namespace HTTPFramer

variable {window : Window}
variable {framer : HTTPFramer}

theorem scanLoop_of_no_cursor
    (limit rounds : Nat)
    (noCursor : framer.cursor = none) :
    scanLoop limit window rounds framer = .quiet framer := by
  cases rounds with
  | zero => rfl
  | succ rounds => simp only [scanLoop, noCursor]

/-- Without a cursor a scan begins with the search. -/
theorem scan_of_no_cursor
    (limit : Nat)
    (notBlocked : framer.blocked = false)
    (noCursor : framer.cursor = none) :
    framer.scan limit window =
      scanLoop limit window (window.data.length + 1)
        (framer.recognize window) := by
  simp only [scan, notBlocked, noCursor, Bool.false_eq_true, ↓reduceIte]

/-- What the search changes, with its result as an argument. -/
def recognizeFrom
    (window : Window)
    (framer : HTTPFramer)
    (found : Option Nat) : HTTPFramer :=
  found.elim { framer with searchEnd := window.stop } fun position => {
    framer with
    searchEnd := window.stop
    cursor := some (window.base + position)
    recognized := true
  }

theorem recognize_eq :
    framer.recognize window =
      recognizeFrom window framer
        (searchRequest window.data
          (framer.searchEnd - window.base - 8192)) := by
  suffices general :
      ∀ recognizer, recognizer = recognize →
        recognizer window framer =
          recognizeFrom window framer
            (searchRequest window.data
              (framer.searchEnd - window.base - 8192)) from
    general _ rfl
  -- With the search opaque nothing unfolds the distance it starts from.
  delta recognize
  generalize searchRequest = search
  rintro recognizer same
  rw [same]
  cases found :
      search window.data (framer.searchEnd - window.base - 8192) with
  | none => simp only [found, recognizeFrom, Option.elim]
  | some position => simp only [found, recognizeFrom, Option.elim]

/-- A search without a result leaves the framer waiting. -/
theorem scan_of_nothing
    (limit : Nat)
    (notBlocked : framer.blocked = false)
    (noCursor : framer.cursor = none)
    (nothing : ∀ start, searchRequest window.data start = none) :
    framer.scan limit window =
      .quiet { framer with searchEnd := window.stop } := by
  rw [scan_of_no_cursor limit notBlocked noCursor, recognize_eq, nothing]
  exact scanLoop_of_no_cursor _ _ noCursor

end HTTPFramer

/-- Where the search of the next window starts, once a window was scanned. -/
def searchedTo (base : Nat) (stops : List Nat) : Nat :=
  (stops.getLast?.map (base + ·)).getD 0

/-- Until a window holds the line, scanning only moves the end of the search. -/
theorem scanAll_before_first
    {stream : Bytes}
    {position : Nat}
    {line : RequestLine}
    (first : FirstRequest stream position line)
    (limit base : Nat)
    {stops : List Nat}
    (cut : ∀ stop ∈ stops, stop < position + line.stop)
    (inside : ∀ stop ∈ stops, stop ≤ stream.length) :
    (HTTPFramer.scanAll limit (stops.map (retained base stream)) {}).state =
      { searchEnd := searchedTo base stops } := by
  induction stops using List.reverseRecOn with
  | nil =>
      rfl
  | append_singleton earlier stop inductionHypothesis =>
      have before :=
        inductionHypothesis
          (fun other member => cut other (List.mem_append_left _ member))
          (fun other member => inside other (List.mem_append_left _ member))
      unfold HTTPFramer.scanAll at before ⊢
      rw [List.map_append, runAll_append, Outcome.state_andThen, before]
      have scanned :
          HTTPFramer.scan limit (retained base stream stop)
              { searchEnd := searchedTo base earlier } =
            .quiet { searchEnd := (retained base stream stop).stop } :=
        HTTPFramer.scan_of_nothing limit rfl rfl
          (first.nothing_before (cut stop (by simp)))
      have length : (stream.take stop).length = stop := by
        rw [List.length_take]
        exact Nat.min_eq_left (inside stop (by simp))
      simp only [List.map_singleton, runAll, scanned, Outcome.state_andThen,
        Outcome.state_quiet]
      simp [searchedTo, Window.stop, retained, length]

/-- Where the framer is, once it searched the first window with the line. -/
theorem cursor_recognize_first
    {stream : Bytes}
    {position : Nat}
    {line : RequestLine}
    (first : FirstRequest stream position line)
    (limit base : Nat)
    {earlier : List Nat}
    {stop : Nat}
    (cut : ∀ before ∈ earlier, before < position + line.stop)
    (complete : position + line.stop ≤ stop)
    (inside : stop ≤ stream.length) :
    let before :=
      (HTTPFramer.scanAll limit (earlier.map (retained base stream)) {}).state
    (before.recognize (retained base stream stop)).cursor =
        some (base + position) ↔
      ∀ last, earlier.getLast? = some last → last ≤ position + 8192 := by
  intro before
  have waiting : before = { searchEnd := searchedTo base earlier } :=
    scanAll_before_first first limit base cut fun other member => by
      have := cut other member
      omega
  have found :
      (before.recognize (retained base stream stop)).cursor =
          some (base + position) ↔
        searchedTo base earlier - base - 8192 ≤ position := by
    rw [← first.searchRequest_take complete inside, waiting,
      HTTPFramer.recognize_eq]
    show (HTTPFramer.recognizeFrom (retained base stream stop) _
        (searchRequest (stream.take stop)
          (searchedTo base earlier - base - 8192))).cursor = _ ↔ _
    cases searchRequest (stream.take stop)
        (searchedTo base earlier - base - 8192) with
    | none => simp [HTTPFramer.recognizeFrom]
    | some other => simp [HTTPFramer.recognizeFrom, retained]
  rw [found]
  unfold searchedTo
  cases earlier.getLast? with
  | none => simp
  | some last =>
      simp only [Option.map_some, Option.getD_some, Option.some.injEq,
        forall_eq']
      omega

/--
However a stream is cut into windows that retain all of it, the framer starts
the scan of the first window that holds the first request line with the
search, and that sets the cursor to the line's start if and only if the window
before, if there was one, ends at most 8192 bytes behind that start.
-/
theorem first_request_recognized_iff
    {stream : Bytes}
    {position : Nat}
    {line : RequestLine}
    (first : FirstRequest stream position line)
    (limit base : Nat)
    {earlier : List Nat}
    {stop : Nat}
    (cut : ∀ before ∈ earlier, before < position + line.stop)
    (complete : position + line.stop ≤ stop)
    (inside : stop ≤ stream.length) :
    let before :=
      (HTTPFramer.scanAll limit (earlier.map (retained base stream)) {}).state
    let window := retained base stream stop
    before.scan limit window =
        HTTPFramer.scanLoop limit window (window.data.length + 1)
          (before.recognize window) ∧
      ((before.recognize window).cursor = some (base + position) ↔
        ∀ last, earlier.getLast? = some last → last ≤ position + 8192) := by
  intro before window
  refine ⟨?_, cursor_recognize_first first limit base cut complete inside⟩
  have waiting : before = { searchEnd := searchedTo base earlier } :=
    scanAll_before_first first limit base cut fun other member => by
      have := cut other member
      omega
  rw [waiting]
  exact HTTPFramer.scan_of_no_cursor limit rfl rfl

/-- The chunked request is recognised after two cuts of its first line. -/
theorem chunkedRequest_recognized :
    let before :=
      (HTTPFramer.scanAll 1000
        ([4, 10].map (retained 7 chunkedRequest)) {}).state
    let window := retained 7 chunkedRequest 18
    before.scan 1000 window =
        HTTPFramer.scanLoop 1000 window (window.data.length + 1)
          (before.recognize window) ∧
      ((before.recognize window).cursor = some (7 + 0) ↔
        ∀ last, [4, 10].getLast? = some last → last ≤ 0 + 8192) :=
  first_request_recognized_iff
    (show FirstRequest chunkedRequest 0 ⟨ascii "POST", ascii "/x", 49⟩ from
      ⟨by decide +kernel, by decide +kernel⟩)
    1000 7 (by decide +kernel) (by decide +kernel) (by decide +kernel)

/-- A request line with a target of the given length. -/
def lineOfSize (size : Nat) : RequestLine :=
  ⟨ascii "GET", List.replicate size 97, 49⟩

theorem lineOfSize_stop (size : Nat) : (lineOfSize size).stop = size + 15 := by
  have version : (ascii " HTTP/1.").length = 8 := by decide
  have method : (ascii "GET").length = 3 := by decide
  simp only [RequestLine.stop, RequestLine.text, lineOfSize, crlf,
    List.length_append, List.length_cons, List.length_replicate, version,
    method, List.length_nil]
  omega

theorem lineOfSize_first
    {size : Nat}
    (nonempty : 1 ≤ size)
    (bounded : size ≤ 8192) :
    FirstRequest (lineOfSize size).text 0 (lineOfSize size) := by
  have length : (lineOfSize size).target.length = size :=
    List.length_replicate
  have valid : (lineOfSize size).Valid := {
    method := show ascii "GET" ∈ requestMethods by decide
    nonempty := by omega
    bounded := by omega
    target := by
      intro byte member
      obtain rfl := List.eq_of_mem_replicate member
      decide
    minorVersion := .inr rfl }
  have isLine :
      requestAt ((lineOfSize size).text.drop 0) = some (lineOfSize size) :=
    requestAt_text valid List.prefix_rfl
  have positive : 0 < (lineOfSize size).text.length := by
    have length := lineOfSize_stop size
    unfold RequestLine.stop at length
    omega
  refine ⟨searchRequest_eq_some.mpr ⟨Nat.le_refl _, ?_, ?_⟩, isLine⟩
  · exact ⟨positive, .inl rfl, by rw [isLine]; rfl⟩
  · intro earlier _ before
    omega

/--
A request line of 8207 bytes whose first 8200 bytes arrive first is not
recognised: the next search starts at its eighth byte.
-/
theorem longLine_cut_unrecognized :
    ¬ ∀ (limit base : Nat) (stream : Bytes) (position : Nat)
        (line : RequestLine) (earlier : List Nat) (stop : Nat),
      FirstRequest stream position line →
      (∀ before ∈ earlier, before < position + line.stop) →
      position + line.stop ≤ stop →
      stop ≤ stream.length →
      ((HTTPFramer.scanAll limit
          (earlier.map (retained base stream)) {}).state.recognize
        (retained base stream stop)).cursor = some (base + position) := by
  intro claimed
  obtain ⟨line, isLong⟩ : ∃ line, line = lineOfSize 8192 := ⟨_, rfl⟩
  have stop : line.stop = 8207 := isLong ▸ lineOfSize_stop 8192
  have first : FirstRequest line.text 0 line :=
    isLong ▸ lineOfSize_first (by omega) (by omega)
  have cut : ∀ before ∈ [8200], before < 0 + line.stop := by
    rw [stop]
    simp
  have complete : 0 + line.stop ≤ line.text.length := by
    rw [Nat.zero_add, RequestLine.stop]
  have recognized :=
    claimed 0 0 line.text 0 line [8200] line.text.length first cut complete
      (Nat.le_refl _)
  have early :=
    (cursor_recognize_first first 0 0 cut complete
      (Nat.le_refl _)).mp recognized 8200 rfl
  omega

end PacketAudit
