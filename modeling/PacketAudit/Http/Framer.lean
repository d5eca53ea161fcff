import PacketAudit.Library.Incremental
import PacketAudit.Library.Trace
import PacketAudit.Cleartext.Redis

namespace PacketAudit

open Library

/-!
# The HTTP/1 framer

`HTTPFramer.scan` of `http_forms.py`.  One iteration of its loop looks at the
window from the start of a request on; inside it every position is relative to
that start, as in the `Message` that it returns.
-/

/-- `_MAX_HEADER`. -/
def maxHeader : Nat := 32768

/-- The methods of `_REQUEST`. -/
def requestMethods : List Bytes :=
  ["GET", "POST", "PUT", "PATCH", "DELETE", "HEAD", "OPTIONS", "CONNECT",
    "TRACE"].map ascii

/-- A match of `_REQUEST_AT`. -/
structure RequestLine where
  method : Bytes
  target : Bytes
  minorVersion : UInt8
  deriving Repr, DecidableEq

namespace RequestLine

/-- The bytes that were matched. -/
def text (line : RequestLine) : Bytes :=
  line.method ++ 32 :: line.target ++ ascii " HTTP/1." ++
    line.minorVersion :: crlf

/-- `match.end()`, relative to the start of the match. -/
def stop (line : RequestLine) : Nat :=
  line.text.length

/-- `match.start(2)`. -/
def targetStart (line : RequestLine) : Nat :=
  line.method.length + 1

end RequestLine

/-- The bytes of a target: `[^\r\n ]`. -/
def isTargetByte (byte : UInt8) : Bool :=
  byte ≠ 13 && byte ≠ 10 && byte ≠ 32

/-- `_REQUEST_AT.match` at the first byte. -/
def requestAt (data : Bytes) : Option RequestLine :=
  match requestMethods.find? fun method => (method ++ [32]).isPrefixOf data with
  | none => none
  | some method =>
      let afterMethod := data.drop (method.length + 1)
      let target := afterMethod.takeWhile isTargetByte
      let afterTarget := afterMethod.drop target.length
      match afterTarget[8]? with
      | none => none
      | some minorVersion =>
          let line : RequestLine := ⟨method, target, minorVersion⟩
          if 1 ≤ target.length ∧ target.length ≤ 8192 ∧
              (minorVersion = 48 ∨ minorVersion = 49) ∧
              line.text.isPrefixOf data then
            some line
          else
            none

/-- `_REQUEST.search` from a position on; `^` matches behind a newline. -/
def searchRequest (data : Bytes) (start : Nat) : Option Nat :=
  (List.range' start (data.length - start)).find? fun position =>
    (position = 0 || data[position - 1]? = some 10) &&
      (requestAt (data.drop position)).isSome

/-! ## The header -/

/-- `bytes.lower` of one byte. -/
def lowerByte (byte : UInt8) : UInt8 :=
  if 65 ≤ byte ∧ byte ≤ 90 then byte + 32 else byte

/-- `bytes.lower`. -/
def lower (data : Bytes) : Bytes :=
  data.map lowerByte

/-- The bytes that `bytes.strip` removes. -/
def isSpaceByte (byte : UInt8) : Bool :=
  byte = 32 || (9 ≤ byte && byte ≤ 13)

/-- `bytes.strip`. -/
def strip (data : Bytes) : Bytes :=
  ((data.dropWhile isSpaceByte).reverse.dropWhile isSpaceByte).reverse

/-- `bytes.split(b"\r\n")`. -/
def splitLines : Bytes → List Bytes
  | [] => [[]]
  | 13 :: 10 :: rest => [] :: splitLines rest
  | byte :: rest =>
      match splitLines rest with
      | [] => [[byte]]
      | line :: lines => (byte :: line) :: lines

/-- The bytes of a header name, as the full match lists them. -/
def isHeaderNameByte (byte : UInt8) : Bool :=
  byte ∈ ascii "!#$%&'*+.^_|~-" || byte = 96 || isDigit byte ||
    (65 ≤ byte && byte ≤ 90) || (97 ≤ byte && byte ≤ 122)

/-- One header line, unless it is invalid. -/
def parseHeaderLine (line : Bytes) : Option (Bytes × Bytes) :=
  if line.head? = some 32 ∨ line.head? = some 9 ∨ 58 ∉ line then
    none
  else
    let key := line.takeWhile fun byte => byte ≠ 58
    let value := line.drop (key.length + 1)
    if key.isEmpty ∨ ¬ key.all isHeaderNameByte then none
    else some (lower key, strip value)

/-- The `headers` dictionary, as its items in order. -/
def parseHeaders (block : Bytes) : Option (List (Bytes × Bytes)) :=
  ((splitLines block).filter fun line => !line.isEmpty).mapM parseHeaderLine

/-- `headers.get(name, [])`. -/
def headerValues
    (headers : List (Bytes × Bytes))
    (name : String) : List Bytes :=
  (headers.filter fun header => header.1 = ascii name).map Prod.snd

/-- `str.lower` of a latin-1 character. -/
def lowerLatin1 (byte : UInt8) : UInt8 :=
  if (65 ≤ byte ∧ byte ≤ 90) ∨ (192 ≤ byte ∧ byte ≤ 222 ∧ byte ≠ 215) then
    byte + 32
  else
    byte

/-- The content type in front of its parameters. -/
def contentTypeOf (headers : List (Bytes × Bytes)) : String :=
  let value := (headerValues headers "content-type").headD []
  String.ofList ((strip (value.takeWhile fun byte => byte ≠ 59)).map
    fun byte => Char.ofNat (lowerLatin1 byte).toNat)

/-- `content-encoding` names an encoding. -/
def isEncoded (headers : List (Bytes × Bytes)) : Bool :=
  let value :=
    lower ((headerValues headers "content-encoding").headD (ascii "identity"))
  value ≠ [] && value ≠ ascii "identity"

/-- The counters of `stats`. -/
inductive FramingStat where
  | tailLost
  | invalidRequest
  | headerLimit
  | ambiguous
  | unsupportedTransferEncoding
  | bodyLimit
  | chunkLimit
  | invalidChunk
  | invalidLength
  | missingBodyLength
  | framedRequests
  deriving Repr, DecidableEq

/-- A request line with its header. -/
structure RequestHead where
  line : RequestLine
  headerEnd : Nat
  headers : List (Bytes × Bytes)
  deriving Repr, DecidableEq

/-- What is known of the head of a request. -/
inductive HeadResult where
  | wait
  | refuse (stat : FramingStat)
  | parsed (head : RequestHead)
  deriving Repr, DecidableEq

/-- The part of an iteration that parses the head. -/
def requestHead (rest : Bytes) : HeadResult :=
  match requestAt rest with
  | none =>
      if 10 ∈ rest ∨ maxHeader < rest.length then .refuse .invalidRequest
      else .wait
  | some line =>
      match findSub (crlf ++ crlf) rest (line.stop - 2) rest.length with
      | none =>
          if maxHeader < rest.length then .refuse .headerLimit else .wait
      | some terminator =>
          let headerEnd := terminator + 4
          if maxHeader < headerEnd then
            .refuse .headerLimit
          else
            match parseHeaders (rest.extract line.stop (headerEnd - 2)) with
            | none => .refuse .ambiguous
            | some headers =>
                let lengths := headerValues headers "content-length"
                let transfer := headerValues headers "transfer-encoding"
                if (lengths ≠ [] ∧ transfer ≠ []) ∨ 1 < lengths.length ∨
                    1 < transfer.length then
                  .refuse .ambiguous
                else
                  .parsed ⟨line, headerEnd, headers⟩

/-! ## Chunked bodies -/

/-- A decoded range and the wire position of its first byte. -/
structure BodySpan where
  left : Nat
  right : Nat
  wire : Nat
  deriving Repr, DecidableEq

/-- What `_chunked` returns. -/
inductive ChunkResult where
  | wait
  | refuse (stat : FramingStat)
  | decoded (body : Bytes) (spans : List BodySpan) (stop : Nat)
  deriving Repr, DecidableEq

/-- The value of a hexadecimal digit. -/
def hexDigit? (byte : UInt8) : Option Nat :=
  if 48 ≤ byte ∧ byte ≤ 57 then some (byte.toNat - 48)
  else if 65 ≤ byte ∧ byte ≤ 70 then some (byte.toNat - 55)
  else if 97 ≤ byte ∧ byte ≤ 102 then some (byte.toNat - 87)
  else none

/-- The length on a chunk line: one to eight hexadecimal digits. -/
def chunkLength? (line : Bytes) : Option Nat :=
  let text := line.takeWhile fun byte => byte ≠ 59
  if text.isEmpty ∨ 8 < text.length then
    none
  else
    (text.mapM hexDigit?).map fun digits =>
      digits.foldl (fun value digit => value * 16 + digit) 0

/-- The branch of `_chunked` for the last chunk. -/
def chunkedEnd
    (rest : Bytes)
    (limit position : Nat)
    (body : Bytes)
    (spans : List BodySpan) : ChunkResult :=
  if rest.extract position (position + 2) = crlf then
    .decoded body spans (position + 2)
  else
    match findSub (crlf ++ crlf) rest position rest.length with
    | none => .wait
    | some trailersEnd =>
        if limit < trailersEnd + 4 then .refuse .bodyLimit
        else .decoded body spans (trailersEnd + 4)

/-- `_chunked`, for at most as many more chunks as `remaining`. -/
def chunkedFrom
    (rest : Bytes)
    (limit : Nat) :
    (remaining position : Nat) →
      (body : Bytes) →
      (spans : List BodySpan) →
      ChunkResult
  | 0, position, _, _ =>
      match findSub crlf rest position rest.length with
      | none => .wait
      | some _ => .refuse .chunkLimit
  | remaining + 1, position, body, spans =>
      match findSub crlf rest position rest.length with
      | none => .wait
      | some lineEnd =>
          if 1024 < lineEnd - position then
            .refuse .chunkLimit
          else
            match chunkLength? (rest.extract position lineEnd) with
            | none => .refuse .invalidChunk
            | some 0 => chunkedEnd rest limit (lineEnd + 2) body spans
            | some length =>
                let begin := lineEnd + 2
                let stop := begin + length
                if limit < stop + 2 then
                  .refuse .bodyLimit
                else if rest.length < stop + 2 then
                  .wait
                else if rest.extract stop (stop + 2) ≠ crlf then
                  .refuse .invalidChunk
                else
                  chunkedFrom rest limit remaining (stop + 2)
                    (body ++ rest.extract begin stop)
                    (spans ++
                      [⟨body.length, body.length + length, begin⟩])

/-- `_chunked`. -/
def chunked (rest : Bytes) (position limit : Nat) : ChunkResult :=
  chunkedFrom rest limit 4096 position [] []

/-! ## One iteration -/

/-- `Message`, with a start relative to the window. -/
structure Message where
  start : Nat := 0
  headerEnd : Nat
  stop : Nat
  target : Bytes
  targetStart : Nat
  contentType : String
  body : Bytes
  bodySpans : List BodySpan
  complete : Bool := true
  encodedContent : Bool
  deriving Repr, DecidableEq

/-- What an iteration makes of the window from the request start on. -/
inductive Framing where
  | wait
  | refuse (stat : FramingStat)
  | skip (stop : Nat)
  | unframed (message : Message) (following : Bool)
  | frame (message : Message)
  deriving Repr, DecidableEq

/-- A message with the fields that the head gives. -/
def RequestHead.message
    (head : RequestHead)
    (stop : Nat)
    (body : Bytes)
    (spans : List BodySpan) : Message where
  headerEnd := head.headerEnd
  stop := stop
  target := head.line.target
  targetStart := head.line.targetStart
  contentType := contentTypeOf head.headers
  body := body
  bodySpans := spans
  encodedContent := isEncoded head.headers

/-- `POST`, `PUT` or `PATCH` with a content type. -/
def RequestHead.hasForm (head : RequestHead) : Bool :=
  head.line.method ∈ ["POST", "PUT", "PATCH"].map ascii &&
    contentTypeOf head.headers ≠ ""

/-- A body with a `Content-Length`. -/
def frameLength
    (rest : Bytes)
    (limit : Nat)
    (head : RequestHead)
    (rawLength : Bytes) : Framing :=
  if rawLength.isEmpty ∨ ¬ rawLength.all isDigit ∨ 10 < rawLength.length then
    .refuse .invalidLength
  else
    let stop := head.headerEnd + decimalValue rawLength
    if limit < stop then
      .skip stop
    else if rest.length < stop then
      .wait
    else
      let body := rest.extract head.headerEnd stop
      .frame (head.message stop body [⟨0, body.length, head.headerEnd⟩])

/-- A chunked body. -/
def frameChunked
    (rest : Bytes)
    (limit : Nat)
    (head : RequestHead) : Framing :=
  match chunked rest head.headerEnd limit with
  | .wait => if limit < rest.length then .refuse .bodyLimit else .wait
  | .refuse stat => .refuse stat
  | .decoded body spans stop => .frame (head.message stop body spans)

/-- A body without a length, up to the next request line. -/
def frameUnframed (rest : Bytes) (head : RequestHead) : Framing :=
  let following := searchRequest rest head.headerEnd
  let stop := following.getD rest.length
  .unframed
    {
      head.message stop (rest.extract head.headerEnd stop)
        [⟨0, stop - head.headerEnd, head.headerEnd⟩] with
      complete := false
    }
    following.isSome

/-- The part of an iteration that delimits the body. -/
def frameBody
    (rest : Bytes)
    (limit : Nat)
    (head : RequestHead) : Framing :=
  match headerValues head.headers "transfer-encoding" with
  | transfer :: _ =>
      if lower transfer ≠ ascii "chunked" then
        .refuse .unsupportedTransferEncoding
      else
        frameChunked rest limit head
  | [] =>
      match headerValues head.headers "content-length" with
      | rawLength :: _ => frameLength rest limit head rawLength
      | [] =>
          if head.hasForm then frameUnframed rest head
          else .frame (head.message head.headerEnd [] [])

/-- One iteration of the loop of `scan`. -/
def frameRequest (limit : Nat) (rest : Bytes) : Framing :=
  match requestHead rest with
  | .wait => .wait
  | .refuse stat => .refuse stat
  | .parsed head => frameBody rest limit head

/-! ## Scanning a window -/

/-- `HTTPFramer`. -/
structure HTTPFramer where
  cursor : Option Nat := none
  recognized : Bool := false
  blocked : Bool := false
  unframedStart : Option Nat := none
  lastUnframedEnd : Int := -1
  searchEnd : Nat := 0
  deriving Repr, DecidableEq

/-- What a scan counts and returns. -/
inductive FramingEvent where
  | counted (stat : FramingStat)
  /-- An oversize body is skipped, which counts `bodyLimit`. -/
  | skipped (start stop : Nat)
  | returned (base : Nat) (message : Message)
  deriving Repr, DecidableEq

/-- A window of the stream and the offset of its first byte. -/
structure Window where
  base : Nat
  data : Bytes
  deriving Repr, DecidableEq

namespace Window

/-- `available_end`. -/
def stop (window : Window) : Nat :=
  window.base + window.data.length

end Window

namespace HTTPFramer

/-- The branch for a body without a length. -/
def scanUnframed
    (window : Window)
    (cursor : Nat)
    (message : Message)
    (following : Bool)
    (framer : HTTPFramer) : Outcome HTTPFramer FramingEvent :=
  let messageEnd := cursor + message.stop
  let isNew := decide (framer.lastUnframedEnd < messageEnd)
  {
    state := {
      framer with
      unframedStart := some cursor
      lastUnframedEnd :=
        if isNew then messageEnd else framer.lastUnframedEnd
      cursor := if following then some messageEnd else framer.cursor
    }
    events :=
      (if framer.unframedStart = some cursor then []
        else [.counted .missingBodyLength]) ++
      (if isNew then
        [.returned window.base
          { message with start := cursor - window.base }]
      else [])
  }

/-- The loop of `scan`, for at most `rounds` iterations. -/
def scanLoop
    (limit : Nat)
    (window : Window) :
    (rounds : Nat) → HTTPFramer → Outcome HTTPFramer FramingEvent
  | 0, framer => .quiet framer
  | rounds + 1, framer =>
      match framer.cursor with
      | none => .quiet framer
      | some cursor =>
          if window.stop ≤ cursor then
            .quiet framer
          else
            match
              frameRequest limit
                (window.data.drop (cursor - window.base)) with
            | .wait => .quiet framer
            | .refuse stat =>
                ⟨{ framer with blocked := true }, [.counted stat]⟩
            | .skip stop =>
                Outcome.andThen
                  ⟨{ framer with cursor := some (cursor + stop) },
                    [.skipped cursor (cursor + stop)]⟩
                  (scanLoop limit window rounds)
            | .unframed message following =>
                let scanned :=
                  scanUnframed window cursor message following framer
                if following then
                  scanned.andThen (scanLoop limit window rounds)
                else
                  scanned
            | .frame message =>
                Outcome.andThen
                  ⟨{ framer with cursor := some (cursor + message.stop) },
                    [.returned window.base
                        { message with start := cursor - window.base },
                      .counted .framedRequests]⟩
                  (scanLoop limit window rounds)

/-- The search for the first request line. -/
def recognize (window : Window) (framer : HTTPFramer) : HTTPFramer :=
  let searched := { framer with searchEnd := window.stop }
  match
    searchRequest window.data
      (framer.searchEnd - window.base - 8192) with
  | none => searched
  | some position => {
      searched with
      cursor := some (window.base + position)
      recognized := true
    }

/-- `scan`. -/
def scan
    (limit : Nat)
    (window : Window)
    (framer : HTTPFramer) : Outcome HTTPFramer FramingEvent :=
  if framer.blocked then
    .quiet framer
  else
    match framer.cursor with
    | none =>
        let recognized := framer.recognize window
        scanLoop limit window (window.data.length + 1) recognized
    | some cursor =>
        if cursor < window.base then
          ⟨{ framer with blocked := true }, [.counted .tailLost]⟩
        else
          scanLoop limit window (window.data.length + 1) framer

/-- The scans of several windows. -/
def scanAll
    (limit : Nat) :
    List Window → HTTPFramer → Outcome HTTPFramer FramingEvent :=
  runAll (scan limit)

end HTTPFramer

end PacketAudit
