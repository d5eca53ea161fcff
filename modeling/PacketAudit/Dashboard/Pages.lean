import PacketAudit.Cleartext.Redis
import PacketAudit.Library.Lines

namespace PacketAudit

/-!
# Pages of an evidence file

`read_page` of `dashboard.py`.  The file is what the system calls of one
request see of it; cursors are the decoded ones, and `json.loads` on one line,
with its hooks and cut down to objects, is the argument `loads`.
-/

open Library

/-- `MAX_READ_BYTES`. -/
def maxReadBytes : Nat := 1024 * 1024

/-- `MAX_RECORDS`. -/
def maxRecords : Int := 500

/-- `MAX_JSON_DEPTH`. -/
def maxJsonDepth : Nat := 128

/-- The separator of JSON lines. -/
def newlineByte : UInt8 := 10

/-! ## Lines -/

/-- The local variables of `_check_json_depth`. -/
structure DepthState where
  depth : Int := 0
  quoted : Bool := false
  escaped : Bool := false
  exceeded : Bool := false
  deriving Repr, DecidableEq

/-- The loop body of `_check_json_depth`; it raises where it exceeds. -/
def DepthState.next (state : DepthState) (byte : UInt8) : DepthState :=
  if state.exceeded then
    state
  else if state.quoted then
    if state.escaped then { state with escaped := false }
    else if byte = 92 then { state with escaped := true }
    else if byte = 34 then { state with quoted := false }
    else state
  else if byte = 34 then
    { state with quoted := true }
  else if byte = 91 ∨ byte = 123 then
    { state with
      depth := state.depth + 1
      exceeded := decide ((maxJsonDepth : Int) < state.depth + 1) }
  else if byte = 93 ∨ byte = 125 then
    { state with depth := state.depth - 1 }
  else
    state

/-- `_check_json_depth` raises nothing. -/
def jsonDepthAllowed (line : Bytes) : Bool :=
  !(line.foldl DepthState.next {}).exceeded

/-- The record of a line, unless the line is counted as skipped. -/
def lineRecord {ρ : Type} (loads : Bytes → Option ρ) (line : Bytes) :
    Option ρ :=
  if jsonDepthAllowed line then loads line else none

/-! ## Requests -/

/-- The decoded cursor. -/
structure PageCursor where
  identity : Nat × Nat
  offset : Nat
  discard : Bool
  deriving Repr, DecidableEq

/-- What the system calls of one request see of the file. -/
structure EvidenceFile where
  /-- `lstat`. -/
  regularBefore : Bool
  identityBefore : Nat × Nat
  /-- `fstat`. -/
  regular : Bool
  identity : Nat × Nat
  ownerPrivate : Bool
  size : Nat
  /-- The bytes of the file when it is read. -/
  content : Bytes
  deriving Repr, DecidableEq

/-- The dictionary `read_page` returns. -/
structure Page (ρ : Type) where
  records : List ρ
  cursor : Option PageCursor
  missing : Bool
  reset : Bool
  more : Bool
  skipped : Nat
  windowLimited : Bool
  bytesRead : Nat
  deriving Repr, DecidableEq

/-- The local variables of the loop of `read_page`. -/
structure PageScan (ρ : Type) where
  /-- Every record read; the page keeps the last ones. -/
  records : List ρ := []
  offset : Nat := 0
  skipped : Nat := 0
  discard : Bool
  deriving Repr, DecidableEq

section Requests

variable {ρ : Type} (loads : Bytes → Option ρ)

/-- The loop of `read_page`, for at most `rounds` lines. -/
def scanPage
    (initial : Bool)
    (limit : Nat)
    (data : Bytes) :
    (rounds : Nat) → PageScan ρ → PageScan ρ
  | 0, scan => scan
  | rounds + 1, scan =>
      match lineEnd newlineByte data scan.offset with
      | none => scan
      | some stop =>
          let passed := { scan with offset := stop + 1 }
          if scan.discard then
            scanPage initial limit data rounds
              { passed with discard := false }
          else
            match lineRecord loads (data.extract scan.offset stop) with
            | none =>
                scanPage initial limit data rounds
                  { passed with skipped := scan.skipped + 1 }
            | some record =>
                let kept :=
                  { passed with records := scan.records ++ [record] }
                if !initial ∧ limit ≤ kept.records.length then
                  kept
                else
                  scanPage initial limit data rounds kept

/-- A window without any separator is passed as part of an oversized line. -/
def passOversized (data : Bytes) (scan : PageScan ρ) : PageScan ρ :=
  if scan.offset = 0 ∧ data.length = maxReadBytes then
    { scan with
      offset := data.length
      skipped := scan.skipped + (if scan.discard then 0 else 1)
      discard := true }
  else
    scan

/-- The cursor belongs to another file or lies behind the end of this one. -/
def resetsCursor (file : EvidenceFile) : Option PageCursor → Bool
  | none => false
  | some cursor =>
      decide (cursor.identity ≠ file.identity ∨ file.size < cursor.offset)

/-- Where a request starts to read, and whether it is an initial one. -/
structure PageStart where
  initial : Bool
  start : Nat
  discard : Bool
  deriving Repr, DecidableEq

/-- The start of a request; an initial one shows a bounded tail. -/
def pageStart
    (file : EvidenceFile)
    (cursor : Option PageCursor) : PageStart :=
  match cursor with
  | some cursor =>
      if resetsCursor file (some cursor) then
        ⟨true, file.size - maxReadBytes, decide (0 < file.size - maxReadBytes)⟩
      else
        ⟨false, cursor.offset, cursor.discard⟩
  | none =>
      ⟨true, file.size - maxReadBytes, decide (0 < file.size - maxReadBytes)⟩

/-- `read_page`. -/
def readPage
    (file : Option EvidenceFile)
    (cursor : Option PageCursor)
    (limit : Int) : Except String (Page ρ) :=
  let limit := (max 1 (min maxRecords limit)).toNat
  match file with
  | none =>
      .ok {
        records := []
        cursor := none
        missing := true
        reset := cursor.isSome
        more := false
        skipped := 0
        windowLimited := false
        bytesRead := 0
      }
  | some file =>
      if !file.regularBefore then
        .error "evidence must be a regular, non-symlink file"
      else if !file.regular ∨ file.identity ≠ file.identityBefore then
        .error "evidence changed while opening"
      else if !file.ownerPrivate then
        .error "evidence file is not owner-private"
      else
        let ⟨initial, start, discard⟩ := pageStart file cursor
        let data := file.content.extract start (start + maxReadBytes)
        let scanned :=
          scanPage loads initial limit data data.length { discard := discard }
        let final := passOversized data scanned
        .ok {
          records := final.records.drop (final.records.length - limit)
          cursor := some ⟨file.identity, start + final.offset, final.discard⟩
          missing := false
          reset := resetsCursor file cursor
          more :=
            decide (start + final.offset < file.size) &&
              decide (0 < final.offset)
          skipped := final.skipped
          windowLimited :=
            initial &&
              (decide (0 < start) || decide (limit < final.records.length))
          bytesRead := data.length
        }

/-- Successive requests, each with the cursor the one before returned. -/
def readPages :
    (requests : List (EvidenceFile × Int)) →
    (cursor : Option PageCursor) →
    Except String (List (Page ρ) × Option PageCursor)
  | [], cursor => .ok ([], cursor)
  | (file, limit) :: later, cursor =>
      match readPage loads (some file) cursor limit with
      | .error message => .error message
      | .ok page =>
          match readPages later page.cursor with
          | .error message => .error message
          | .ok (pages, final) => .ok (page :: pages, final)

end Requests

end PacketAudit
