import PacketAudit.Dashboard.Pages
import PacketAudit.Library.Incremental

namespace PacketAudit

/-!
# Pagination delivers every record once

The cursor of a page says where it stands in the file and whether it stands
inside a line that is passed over.  Every page accounts for exactly the lines
that start between its cursor and the one it returns.
-/

open Library

theorem maxReadBytes_pos : 0 < maxReadBytes := by
  decide

variable {ρ : Type}

/-- The record a line of the file stands for, unless it has to be skipped. -/
def deliveredRecord
    (loads : Bytes → Option ρ)
    (content : Bytes)
    (position : Nat) : Option ρ :=
  match lineEnd newlineByte content position with
  | none => none
  | some stop =>
      if stop + 1 - position ≤ maxReadBytes then
        lineRecord loads (content.extract position stop)
      else
        none

/-- Records and a count account for the lines that start in a part of a file. -/
structure PageAccounts
    (loads : Bytes → Option ρ)
    (content : Bytes)
    (first last : Nat)
    (records : List ρ)
    (skipped : Nat) : Prop where
  records :
    records =
      (lineStarts newlineByte content first last).filterMap
        (deliveredRecord loads content)
  skipped :
    skipped =
      (lineStarts newlineByte content first last).countP fun position =>
        (deliveredRecord loads content position).isNone
  settled :
    ∀ position ∈ lineStarts newlineByte content first last,
      (lineEnd newlineByte content position).isSome ∨
        position + maxReadBytes ≤ content.length

/-! ## Adding up lines -/

section Accounting

variable
  {loads : Bytes → Option ρ}
  {content : Bytes}
  {first middle last : Nat}
  {records others : List ρ}
  {skipped otherSkipped : Nat}

theorem PageAccounts.nothing
    (loads : Bytes → Option ρ)
    (content : Bytes)
    (position : Nat) :
    PageAccounts loads content position position [] 0 where
  records := by simp [lineStarts]
  skipped := by simp [lineStarts]
  settled := by simp [lineStarts]

theorem PageAccounts.append
    (earlier : PageAccounts loads content first middle records skipped)
    (later : PageAccounts loads content middle last others otherSkipped)
    (notBefore : first ≤ middle)
    (before : middle ≤ last) :
    PageAccounts loads content first last (records ++ others)
      (skipped + otherSkipped) := by
  have shape := @lineStarts_append _ _ newlineByte content _ _ _ notBefore before
  refine { records := ?_, skipped := ?_, settled := ?_ }
  · rw [← shape, List.filterMap_append, ← earlier.records, ← later.records]
  · rw [← shape, List.countP_append, ← earlier.skipped, ← later.skipped]
  · intro position member
    rw [← shape, List.mem_append] at member
    exact member.elim (earlier.settled position) (later.settled position)

/-- What a line stands for is settled when it is complete or too long. -/
theorem deliveredRecord_append
    {position : Nat}
    (settled :
      (lineEnd newlineByte content position).isSome ∨
        position + maxReadBytes ≤ content.length)
    (more : Bytes) :
    deliveredRecord loads (content ++ more) position =
      deliveredRecord loads content position := by
  unfold deliveredRecord
  cases ends : lineEnd newlineByte content position with
  | some stop =>
      have inside := lineEnd_lt ends
      rw [lineEnd_append ends more]
      simp only
      rw [extract_of_isPrefix (List.prefix_append content more) inside.le]
  | none =>
      have long : position + maxReadBytes ≤ content.length :=
        settled.resolve_left (by simp [ends])
      cases endsLater : lineEnd newlineByte (content ++ more) position with
      | none => rfl
      | some stop =>
          obtain ⟨fromStart, isNewline, -⟩ := lineEnd_eq_some.mp endsLater
          have behind : content.length ≤ stop := by
            by_contra inside
            rw [List.getElem?_append_left (by omega)] at isNewline
            exact lineEnd_eq_none.mp ends stop fromStart isNewline
          have tooLong : ¬ stop + 1 - position ≤ maxReadBytes := by omega
          simp only
          rw [if_neg tooLong]

/-- The account stays right while the file grows. -/
theorem PageAccounts.grow
    (accounts : PageAccounts loads content first last records skipped)
    (inside : last ≤ content.length)
    (more : Bytes) :
    PageAccounts loads (content ++ more) first last records skipped := by
  have starts :
      lineStarts newlineByte (content ++ more) first last =
        lineStarts newlineByte content first last :=
    lineStarts_more (by omega) more
  have same
      {position : Nat}
      (member : position ∈ lineStarts newlineByte content first last) :
      deliveredRecord loads (content ++ more) position =
        deliveredRecord loads content position :=
    deliveredRecord_append (accounts.settled position member) more
  refine { records := ?_, skipped := ?_, settled := ?_ }
  · rw [starts, accounts.records]
    exact (List.filterMap_congr fun position member => same member).symm
  · rw [starts, accounts.skipped]
    exact (List.countP_congr fun position member => by rw [same member]).symm
  · rw [starts]
    intro position member
    rcases accounts.settled position member with complete | long
    · obtain ⟨stop, ends⟩ := Option.isSome_iff_exists.mp complete
      exact .inl (by rw [lineEnd_append ends more]; rfl)
    · exact .inr (by rw [List.length_append]; omega)

/-- The one line that starts in a part of the file. -/
theorem PageAccounts.line
    (nonempty : first < last)
    (oneLine :
      ∀ between, first ≤ between → between + 1 < last →
        content[between]? ≠ some newlineByte)
    (starts : startsLine newlineByte content first = true)
    (settled :
      (lineEnd newlineByte content first).isSome ∨
        first + maxReadBytes ≤ content.length) :
    PageAccounts loads content first last
      (deliveredRecord loads content first).toList
      (if (deliveredRecord loads content first).isNone then 1 else 0) := by
  have shape := lineStarts_of_no_newline nonempty oneLine
  rw [if_pos starts] at shape
  refine { records := ?_, skipped := ?_, settled := ?_ }
  · rw [shape]
    cases isRecord : deliveredRecord loads content first with
    | none => simp [isRecord]
    | some record => simp [isRecord]
  · rw [shape, List.countP_singleton]
  · rw [shape]
    intro position member
    obtain rfl := List.mem_singleton.mp member
    exact settled

/-- The rest of a line that starts before the part. -/
theorem PageAccounts.rest
    (nonempty : first < last)
    (oneLine :
      ∀ between, first ≤ between → between + 1 < last →
        content[between]? ≠ some newlineByte)
    (inside : startsLine newlineByte content first = false) :
    PageAccounts loads content first last [] 0 := by
  have shape := lineStarts_of_no_newline nonempty oneLine
  rw [inside, if_neg (by simp)] at shape
  refine { records := ?_, skipped := ?_, settled := ?_ }
  · rw [shape]
    rfl
  · rw [shape]
    rfl
  · rw [shape]
    simp

end Accounting

/-! ## The window of a request -/

section Windows

variable
  {content : Bytes}
  {start offset stop : Nat}

/-- What one request reads. -/
def pageWindow (content : Bytes) (start : Nat) : Bytes :=
  content.extract start (start + maxReadBytes)

theorem pageWindow_length
    (content : Bytes)
    (start : Nat) :
    (pageWindow content start).length =
      min maxReadBytes (content.length - start) := by
  unfold pageWindow
  rw [List.extract_eq_take_drop, List.length_take, List.length_drop,
    Nat.add_sub_cancel_left]

theorem pageWindow_getElem?
    {index : Nat}
    (inside : index < maxReadBytes) :
    (pageWindow content start)[index]? = content[start + index]? := by
  unfold pageWindow
  rw [List.extract_eq_take_drop, List.getElem?_take_of_lt (by omega),
    List.getElem?_drop]

theorem pageWindow_extract
    (inside : stop ≤ maxReadBytes) :
    (pageWindow content start).extract offset stop =
      content.extract (start + offset) (start + stop) := by
  unfold pageWindow
  simp only [List.extract_eq_take_drop, List.drop_take, List.take_take,
    List.drop_drop]
  congr 1
  omega

/-- A line that ends inside the window ends there in the file. -/
theorem lineEnd_of_pageWindow
    {data : Bytes}
    (isWindow : data = pageWindow content start)
    (ends : lineEnd newlineByte data offset = some stop) :
    lineEnd newlineByte content (start + offset) = some (start + stop) := by
  subst isWindow
  have inside : stop < maxReadBytes := by
    have bound := lineEnd_lt ends
    rw [pageWindow_length] at bound
    omega
  obtain ⟨fromStart, isNewline, first⟩ := lineEnd_eq_some.mp ends
  refine lineEnd_eq_some.mpr ⟨by omega, ?_, ?_⟩
  · rw [← pageWindow_getElem? inside]
    exact isNewline
  · intro between above below
    have shape : start + (between - start) = between := by omega
    have earlier := first (between - start) (by omega) (by omega)
    rwa [pageWindow_getElem? (by omega), shape] at earlier

/-- No line ends in a window without separators. -/
theorem oneLine_of_pageWindow
    {data : Bytes}
    (isWindow : data = pageWindow content start)
    (never : lineEnd newlineByte data offset = none)
    {between : Nat}
    (above : start + offset ≤ between)
    (below : between < start + maxReadBytes) :
    content[between]? ≠ some newlineByte := by
  subst isWindow
  have shape : start + (between - start) = between := by omega
  have absent := lineEnd_eq_none.mp never (between - start) (by omega)
  rwa [pageWindow_getElem? (by omega), shape] at absent

/-- A line that ends inside the window is delivered or skipped as a whole. -/
theorem deliveredRecord_of_pageWindow
    {loads : Bytes → Option ρ}
    {data : Bytes}
    (isWindow : data = pageWindow content start)
    (ends : lineEnd newlineByte data offset = some stop) :
    deliveredRecord loads content (start + offset) =
      lineRecord loads (data.extract offset stop) := by
  have endsLine := lineEnd_of_pageWindow isWindow ends
  subst isWindow
  have inside : stop < maxReadBytes := by
    have bound := lineEnd_lt ends
    rw [pageWindow_length] at bound
    omega
  have short : start + stop + 1 - (start + offset) ≤ maxReadBytes := by
    omega
  unfold deliveredRecord
  rw [endsLine]
  simp only
  rw [if_pos short, pageWindow_extract inside.le]

end Windows

/-! ## The loop of a request -/

/-- A scan went on and accounted for the lines it passed. -/
structure PageScan.Passes
    (loads : Bytes → Option ρ)
    (content : Bytes)
    (start : Nat)
    (scan final : PageScan ρ) : Prop where
  notBefore : scan.offset ≤ final.offset
  placed : final.discard = !startsLine newlineByte content (start + final.offset)
  accounts :
    ∃ records skipped,
      final.records = scan.records ++ records ∧
        final.skipped = scan.skipped + skipped ∧
        PageAccounts loads content (start + scan.offset) (start + final.offset)
          records skipped

section Scanning

variable
  {loads : Bytes → Option ρ}
  {content : Bytes}
  {start : Nat}
  {scan middle final : PageScan ρ}

theorem PageScan.Passes.refl
    (placed :
      scan.discard = !startsLine newlineByte content (start + scan.offset)) :
    scan.Passes loads content start scan where
  notBefore := Nat.le_refl _
  placed := placed
  accounts := ⟨[], 0, by simp, rfl, PageAccounts.nothing ..⟩

theorem PageScan.Passes.trans
    (earlier : scan.Passes loads content start middle)
    (later : middle.Passes loads content start final) :
    scan.Passes loads content start final := by
  obtain ⟨records, skipped, sameRecords, sameSkipped, accounts⟩ :=
    earlier.accounts
  obtain ⟨others, otherSkipped, moreRecords, moreSkipped, others_accounts⟩ :=
    later.accounts
  have forward := earlier.notBefore
  have onward := later.notBefore
  refine {
    notBefore := forward.trans onward
    placed := later.placed
    accounts := ⟨records ++ others, skipped + otherSkipped, ?_, ?_, ?_⟩ }
  · rw [moreRecords, sameRecords, List.append_assoc]
  · rw [moreSkipped, sameSkipped, Nat.add_assoc]
  · exact accounts.append others_accounts (by omega) (by omega)

/-- A line that ends in the window is passed over, delivered or skipped. -/
theorem PageScan.passes_line
    {data : Bytes}
    (isWindow : data = pageWindow content start)
    {stop : Nat}
    (placed :
      scan.discard = !startsLine newlineByte content (start + scan.offset))
    (ends : lineEnd newlineByte data scan.offset = some stop)
    (offset : final.offset = stop + 1)
    (kept : final.discard = false)
    (records :
      final.records = scan.records ++
        if scan.discard then []
        else (lineRecord loads (data.extract scan.offset stop)).toList)
    (skipped :
      final.skipped = scan.skipped +
        if scan.discard then 0
        else if (lineRecord loads (data.extract scan.offset stop)).isNone then 1
        else 0) :
    scan.Passes loads content start final := by
  have endsLine := lineEnd_of_pageWindow isWindow ends
  obtain ⟨fromStart, isNewline, first⟩ := lineEnd_eq_some.mp endsLine
  have oneLine (between : Nat) (above : start + scan.offset ≤ between)
      (below : between + 1 < start + final.offset) :
      content[between]? ≠ some newlineByte :=
    first between above (by omega)
  refine {
    notBefore := by omega
    placed := ?_
    accounts := ⟨_, _, records, skipped, ?_⟩ }
  · have shape : start + final.offset = (start + stop) + 1 := by omega
    rw [kept, shape, startsLine_succ, isNewline]
    simp
  · cases inside : startsLine newlineByte content (start + scan.offset) with
    | false =>
        rw [placed, inside]
        exact PageAccounts.rest (by omega) oneLine inside
    | true =>
        rw [placed, inside, ← deliveredRecord_of_pageWindow isWindow ends]
        exact PageAccounts.line (by omega) oneLine inside (.inl (by simp [endsLine]))

/-- The scan behind a line that ends at `stop`. -/
def PageScan.passed
    (loads : Bytes → Option ρ)
    (data : Bytes)
    (stop : Nat)
    (scan : PageScan ρ) : PageScan ρ where
  records :=
    scan.records ++
      if scan.discard then []
      else (lineRecord loads (data.extract scan.offset stop)).toList
  offset := stop + 1
  skipped :=
    scan.skipped +
      if scan.discard then 0
      else if (lineRecord loads (data.extract scan.offset stop)).isNone then 1
      else 0
  discard := false

/-- A round stays where no line ends; else it passes one and may go on. -/
theorem scanPage_round
    (loads : Bytes → Option ρ)
    (initial : Bool)
    (limit rounds : Nat)
    (data : Bytes)
    (scan : PageScan ρ) :
    (lineEnd newlineByte data scan.offset = none ∧
        scanPage loads initial limit data (rounds + 1) scan = scan) ∨
      ∃ stop,
        lineEnd newlineByte data scan.offset = some stop ∧
          (scanPage loads initial limit data (rounds + 1) scan =
              scan.passed loads data stop ∨
            scanPage loads initial limit data (rounds + 1) scan =
                scanPage loads initial limit data rounds
                  (scan.passed loads data stop) ∧
              (initial = false → scan.records.length < limit →
                (scan.passed loads data stop).records.length < limit)) := by
  rw [scanPage]
  cases ends : lineEnd newlineByte data scan.offset with
  | none =>
      exact .inl ⟨rfl, rfl⟩
  | some stop =>
      refine .inr ⟨stop, rfl, ?_⟩
      obtain ⟨records, offset, skipped, discard⟩ := scan
      simp only
      cases discard with
      | true =>
          refine .inr ⟨?_, fun _ below => ?_⟩
          · simp [PageScan.passed]
          · simpa [PageScan.passed] using below
      | false =>
          simp only [Bool.false_eq_true, if_false]
          cases isRecord : lineRecord loads (data.extract offset stop) with
          | none =>
              refine .inr ⟨?_, fun _ below => ?_⟩
              · simp [PageScan.passed, isRecord]
              · simpa [PageScan.passed, isRecord] using below
          | some record =>
              have shape :
                  (⟨records ++ [record], stop + 1, skipped, false⟩ :
                      PageScan ρ) =
                    PageScan.passed loads data stop
                      ⟨records, offset, skipped, false⟩ := by
                simp [PageScan.passed, isRecord]
              simp only
              rw [← shape]
              split
              case isTrue stops => exact .inl rfl
              case isFalse goesOn =>
                refine .inr ⟨rfl, fun later _ => ?_⟩
                rw [later] at goesOn
                simpa using goesOn

/-- The loop passes lines, and stops at once only where none ends. -/
theorem scanPage_passes
    {data : Bytes}
    (isWindow : data = pageWindow content start)
    (initial : Bool)
    (limit rounds : Nat)
    (placed :
      scan.discard = !startsLine newlineByte content (start + scan.offset)) :
    scan.Passes loads content start
      (scanPage loads initial limit data rounds scan) := by
  induction rounds generalizing scan with
  | zero =>
      exact .refl placed
  | succ rounds inductionHypothesis =>
      rcases scanPage_round loads initial limit rounds data scan with
        ⟨-, stays⟩ | ⟨stop, ends, passes⟩
      · rw [stays]
        exact .refl placed
      · have line :
            scan.Passes loads content start (scan.passed loads data stop) :=
          PageScan.passes_line isWindow placed ends rfl rfl rfl rfl
        rcases passes with stops | ⟨goesOn, -⟩
        · rw [stops]
          exact line
        · rw [goesOn]
          exact line.trans (inductionHypothesis line.placed)

/-- The loop never moves back. -/
theorem scanPage_notBefore
    (initial : Bool)
    (limit rounds : Nat)
    {data : Bytes}
    {bound : Nat}
    (notBefore : bound ≤ scan.offset) :
    bound ≤ (scanPage loads initial limit data rounds scan).offset := by
  induction rounds generalizing scan with
  | zero =>
      exact notBefore
  | succ rounds inductionHypothesis =>
      rcases scanPage_round loads initial limit rounds data scan with
        ⟨-, stays⟩ | ⟨stop, ends, passes⟩
      · rw [stays]
        exact notBefore
      · have forward : bound ≤ (scan.passed loads data stop).offset := by
          have := (lineEnd_eq_some.mp ends).1
          simp only [PageScan.passed]
          omega
        rcases passes with stops | ⟨goesOn, -⟩
        · rw [stops]
          exact forward
        · rw [goesOn]
          exact inductionHypothesis forward

/-- The loop never leaves the window. -/
theorem scanPage_inside
    (initial : Bool)
    (limit rounds : Nat)
    {data : Bytes}
    (inside : scan.offset ≤ data.length) :
    (scanPage loads initial limit data rounds scan).offset ≤ data.length := by
  induction rounds generalizing scan with
  | zero =>
      exact inside
  | succ rounds inductionHypothesis =>
      rcases scanPage_round loads initial limit rounds data scan with
        ⟨-, stays⟩ | ⟨stop, ends, passes⟩
      · rw [stays]
        exact inside
      · have still : (scan.passed loads data stop).offset ≤ data.length :=
          lineEnd_lt ends
        rcases passes with stops | ⟨goesOn, -⟩
        · rw [stops]
          exact still
        · rw [goesOn]
          exact inductionHypothesis still

/-- Where a line ends in the window the loop moves. -/
theorem scanPage_moves
    (initial : Bool)
    (limit rounds : Nat)
    {data : Bytes}
    {stop : Nat}
    (ends : lineEnd newlineByte data scan.offset = some stop) :
    scan.offset <
      (scanPage loads initial limit data (rounds + 1) scan).offset := by
  rcases scanPage_round loads initial limit rounds data scan with
    ⟨never, -⟩ | ⟨found, isFound, passes⟩
  · rw [ends] at never
    cases never
  · have forward :
        scan.offset + 1 ≤ (scan.passed loads data found).offset := by
      have := (lineEnd_eq_some.mp isFound).1
      simp only [PageScan.passed]
      omega
    rw [← Nat.succ_le_iff]
    rcases passes with stops | ⟨goesOn, -⟩
    · rw [stops]
      exact forward
    · rw [goesOn]
      exact scanPage_notBefore initial limit rounds forward

/-- Where no line ends in the window the loop stays. -/
theorem scanPage_stays
    (initial : Bool)
    (limit rounds : Nat)
    {data : Bytes}
    (never : lineEnd newlineByte data scan.offset = none) :
    scanPage loads initial limit data rounds scan = scan := by
  cases rounds with
  | zero => rfl
  | succ rounds =>
      rcases scanPage_round loads initial limit rounds data scan with
        ⟨-, stays⟩ | ⟨stop, ends, -⟩
      · exact stays
      · rw [never] at ends
        cases ends

/-- The loop of a request for more stops at the limit. -/
theorem scanPage_limit
    {limit : Nat}
    (rounds : Nat)
    (data : Bytes)
    (below : scan.records.length < limit) :
    (scanPage loads false limit data rounds scan).records.length ≤ limit := by
  induction rounds generalizing scan with
  | zero =>
      exact below.le
  | succ rounds inductionHypothesis =>
      rcases scanPage_round loads false limit rounds data scan with
        ⟨-, stays⟩ | ⟨stop, -, stops | ⟨goesOn, stillBelow⟩⟩
      · rw [stays]
        exact below.le
      · rw [stops, PageScan.passed, List.length_append]
        have oneMore :
            (if scan.discard then []
              else (lineRecord loads
                (data.extract scan.offset stop)).toList).length ≤ 1 := by
          split
          · exact Nat.zero_le 1
          · exact Option.length_toList_le
        omega
      · rw [goesOn]
        exact inductionHypothesis (stillBelow rfl below)

/-- A full window without a separator is part of one oversized line. -/
theorem passOversized_passes
    {data : Bytes}
    (isWindow : data = pageWindow content start)
    (placed :
      scan.discard = !startsLine newlineByte content (start + scan.offset))
    (stays :
      scan.offset = 0 →
        lineEnd newlineByte data 0 = none) :
    scan.Passes loads content start
      (passOversized data scan) := by
  unfold passOversized
  split
  case isTrue oversized =>
    obtain ⟨atFront, full⟩ := oversized
    have never := stays atFront
    have nonempty := maxReadBytes_pos
    have long : start + maxReadBytes ≤ content.length := by
      rw [isWindow, pageWindow_length] at full
      omega
    have oneLine (between : Nat) (above : start + 0 ≤ between)
        (below : between < start + maxReadBytes) :
        content[between]? ≠ some newlineByte :=
      oneLine_of_pageWindow isWindow never above below
    rw [atFront, Nat.add_zero] at placed
    refine {
      notBefore := by simp [atFront]
      placed := ?_
      accounts := ⟨[], _, by simp, rfl, ?_⟩ }
    · have last := oneLine (start + maxReadBytes - 1) (by omega) (by omega)
      simp [startsLine, full, last, nonempty.ne']
    · simp only [atFront, full, Nat.add_zero]
      cases inside : startsLine newlineByte content start with
      | false =>
          rw [placed, inside]
          exact PageAccounts.rest (by omega)
            (fun between above below => oneLine between above (by omega))
            inside
      | true =>
          have tooLong : deliveredRecord loads content start = none := by
            unfold deliveredRecord
            cases ends : lineEnd newlineByte content start with
            | none => rfl
            | some stop =>
                have behind : start + maxReadBytes ≤ stop := by
                  by_contra inside
                  obtain ⟨above, isNewline, -⟩ := lineEnd_eq_some.mp ends
                  exact oneLine stop above (by omega) isNewline
                have tooLong : ¬ stop + 1 - start ≤ maxReadBytes := by omega
                simp only
                rw [if_neg tooLong]
          have line : PageAccounts loads content start (start + maxReadBytes)
              (deliveredRecord loads content start).toList
              (if (deliveredRecord loads content start).isNone then 1
                else 0) :=
            PageAccounts.line (by omega)
              (fun between above below => oneLine between above (by omega))
              inside (.inr long)
          rw [placed, inside]
          simpa [tooLong] using line
  case isFalse => exact .refl placed

end Scanning

/-! ## One request -/

/-- A cursor stands in the file, and knows whether it stands inside a line. -/
structure PageCursor.Placed
    (content : Bytes)
    (cursor : PageCursor) : Prop where
  inside : cursor.offset ≤ content.length
  placed : cursor.discard = !startsLine newlineByte content cursor.offset

/--
The file as a request sees it after it held `before`: it may have grown until
its size is taken, and again until it is read.
-/
structure Grows
    (before : Bytes)
    (identity : Nat × Nat)
    (file : EvidenceFile) : Prop where
  regularBefore : file.regularBefore = true
  regular : file.regular = true
  ownerPrivate : file.ownerPrivate = true
  identityBefore : file.identityBefore = identity
  identity : file.identity = identity
  appended : before <+: file.content
  sizeAfter : before.length ≤ file.size
  sizeBefore : file.size ≤ file.content.length

/-- The limit a request works with. -/
def clampedLimit (limit : Int) : Nat :=
  (max 1 (min maxRecords limit)).toNat

theorem clampedLimit_pos (limit : Int) : 0 < clampedLimit limit := by
  unfold clampedLimit
  omega

section Paging

variable
  {loads : Bytes → Option ρ}
  {before : Bytes}
  {identity : Nat × Nat}
  {file : EvidenceFile}
  {cursor : PageCursor}

/-- What the loop and the treatment of oversized lines make of a window. -/
def pageResult
    (loads : Bytes → Option ρ)
    (initial : Bool)
    (limit : Int)
    (data : Bytes)
    (discard : Bool) : PageScan ρ :=
  passOversized data
    (scanPage loads initial (clampedLimit limit) data data.length
      { discard := discard })

/-- A request over a readable file returns what it made of its window. -/
theorem readPage_of_grows
    (grows : Grows before identity file)
    {asked : Option PageCursor}
    {initial discard : Bool}
    {start : Nat}
    (starts : pageStart file asked = ⟨initial, start, discard⟩)
    (limit : Int)
    {data : Bytes}
    (isWindow : data = pageWindow file.content start)
    {result : PageScan ρ}
    (isResult : pageResult loads initial limit data discard = result) :
    ∃ page,
      readPage loads (some file) asked limit = .ok page ∧
        page.records =
          result.records.drop (result.records.length - clampedLimit limit) ∧
        page.skipped = result.skipped ∧
        page.cursor =
          some ⟨identity, start + result.offset, result.discard⟩ := by
  have isData :
      file.content.extract start (start + maxReadBytes) = data :=
    isWindow.symm
  have isLimit :
      (max 1 (min maxRecords limit)).toNat = clampedLimit limit := rfl
  unfold pageResult at isResult
  unfold readPage
  simp only [grows.regularBefore, grows.regular, grows.ownerPrivate,
    grows.identity, grows.identityBefore, Bool.not_true, Bool.false_eq_true,
    if_false, ne_eq, not_true_eq_false, or_self, starts, isData, isLimit,
    isResult]
  exact ⟨_, rfl, rfl, rfl, rfl⟩

section Windows

variable
  {content data : Bytes}
  {start : Nat}
  {discard : Bool}

/-- The result of a request accounts for the lines it passed. -/
theorem pageResult_passes
    (isWindow : data = pageWindow content start)
    (initial : Bool)
    (limit : Int)
    (placed : discard = !startsLine newlineByte content start) :
    ({ discard := discard } : PageScan ρ).Passes loads content start
      (pageResult loads initial limit data discard) := by
  have scanned :=
    @scanPage_passes _ loads content start { discard := discard } data
      isWindow initial (clampedLimit limit) data.length placed
  refine scanned.trans (passOversized_passes isWindow scanned.placed ?_)
  intro stays
  cases ends : lineEnd newlineByte data 0 with
  | none => rfl
  | some stop =>
      have inside := lineEnd_lt ends
      obtain ⟨rounds, shape⟩ : ∃ rounds, data.length = rounds + 1 :=
        ⟨data.length - 1, by omega⟩
      have moves := @scanPage_moves _ loads { discard := discard } initial
        (clampedLimit limit) rounds _ _ ends
      rw [shape] at stays
      simp only at moves
      omega

/-- A request never passes what it has read. -/
theorem pageResult_inside
    (isWindow : data = pageWindow content start)
    (initial : Bool)
    (limit : Int)
    (inside : start ≤ content.length) :
    start + (pageResult loads initial limit data discard).offset ≤
      content.length := by
  have window := pageWindow_length content start
  rw [← isWindow] at window
  have scanned :=
    @scanPage_inside _ loads { discard := discard } initial
      (clampedLimit limit) data.length data (Nat.zero_le _)
  unfold pageResult passOversized
  split
  · simp only
    omega
  · omega

/-- A window whose first line is passed over leaves its end placed as well. -/
theorem pageResult_tail_placed
    (isWindow : data = pageWindow content start)
    (initial : Bool)
    (limit : Int)
    (full : start + maxReadBytes ≤ content.length) :
    (pageResult loads initial limit data true).discard =
      !startsLine newlineByte content
        (start + (pageResult loads initial limit data true).offset) := by
  have nonempty := maxReadBytes_pos
  have window : data.length = maxReadBytes := by
    rw [isWindow, pageWindow_length]
    omega
  obtain ⟨rounds, shape⟩ : ∃ rounds, data.length = rounds + 1 :=
    ⟨data.length - 1, by omega⟩
  unfold pageResult
  cases ends : lineEnd newlineByte data 0 with
  | none =>
      have last : content[start + maxReadBytes - 1]? ≠ some newlineByte :=
        oneLine_of_pageWindow isWindow ends (by omega) (by omega)
      rw [scanPage_stays _ _ _ ends]
      simp [passOversized, startsLine, window, last, nonempty.ne']
  | some stop =>
      have endsLine := lineEnd_of_pageWindow isWindow ends
      have placedBehind :
          false = !startsLine newlineByte content (start + (stop + 1)) := by
        have isNewline := (lineEnd_eq_some.mp endsLine).2.1
        rw [← Nat.add_assoc, startsLine_succ, isNewline]
        simp
      have first :
          scanPage loads initial (clampedLimit limit) data data.length
              { discard := true } =
            scanPage loads initial (clampedLimit limit) data rounds
              { offset := stop + 1, discard := false } := by
        rw [shape, scanPage]
        simp only [ends, if_true]
      have passes :=
        @scanPage_passes _ loads content start
          { offset := stop + 1, discard := false } data isWindow initial
          (clampedLimit limit) rounds placedBehind
      have moved := passes.notBefore
      simp only at moved
      rw [first]
      unfold passOversized
      rw [if_neg (by omega)]
      exact passes.placed

/-- Where a complete line remains the window is passed at least in part. -/
theorem pageResult_moves
    (isWindow : data = pageWindow content start)
    (initial : Bool)
    (limit : Int)
    {newline : Nat}
    (behind : start ≤ newline)
    (remains : content[newline]? = some newlineByte) :
    0 < (pageResult loads initial limit data discard).offset := by
  have inside := (List.getElem?_eq_some_iff.mp remains).1
  have window := pageWindow_length content start
  rw [← isWindow] at window
  unfold pageResult
  cases ends : lineEnd newlineByte data 0 with
  | none =>
      have far : start + maxReadBytes ≤ newline := by
        by_contra near
        exact oneLine_of_pageWindow isWindow ends (by omega) (by omega) remains
      have full : data.length = maxReadBytes := by omega
      rw [scanPage_stays _ _ _ ends]
      unfold passOversized
      rw [if_pos ⟨rfl, full⟩]
      simp only
      rw [full]
      exact maxReadBytes_pos
  | some stop =>
      have early := lineEnd_lt ends
      obtain ⟨rounds, shape⟩ : ∃ rounds, data.length = rounds + 1 :=
        ⟨data.length - 1, by omega⟩
      have moves :=
        @scanPage_moves _ loads { discard := discard } initial
          (clampedLimit limit) rounds _ _ ends
      rw [← shape] at moves
      unfold passOversized
      rw [if_neg (fun oversized => absurd oversized.1 (by omega))]
      exact moves

theorem length_pageResult_records
    (limit : Int) :
    (pageResult loads false limit data discard).records.length ≤
      clampedLimit limit := by
  have scanned :=
    @scanPage_limit _ loads { discard := discard } (clampedLimit limit)
      data.length data (clampedLimit_pos limit)
  unfold pageResult passOversized
  split
  · exact scanned
  · exact scanned

end Windows

/-- The first request places its cursor. -/
theorem readPage_first
    (grows : Grows before identity file)
    (limit : Int) :
    ∃ page after,
      readPage loads (some file) none limit = .ok page ∧
        page.cursor = some after ∧
        after.identity = identity ∧
        after.Placed file.content := by
  have size := grows.sizeBefore
  obtain ⟨start, isStart⟩ : ∃ start, start = file.size - maxReadBytes :=
    ⟨_, rfl⟩
  obtain ⟨data, isWindow⟩ : ∃ data, data = pageWindow file.content start :=
    ⟨_, rfl⟩
  have starts :
      pageStart file none = ⟨true, start, decide (0 < start)⟩ := by
    rw [isStart]
    rfl
  have inside : start ≤ file.content.length := by omega
  obtain ⟨page, isPage, -, -, cursor⟩ :=
    @readPage_of_grows _ loads _ _ _ grows none true _ _ starts limit _
      isWindow _ rfl
  refine ⟨page, _, isPage, cursor, rfl, ?_⟩
  refine {
    inside := pageResult_inside isWindow _ _ inside
    placed := ?_ }
  dsimp only
  rcases Nat.eq_zero_or_pos start with whole | tail
  · subst whole
    have passes :=
      @pageResult_passes _ loads _ _ _ (decide (0 < 0)) isWindow true limit
        (by simp [startsLine])
    exact passes.placed
  · have full : start + maxReadBytes ≤ file.content.length := by omega
    rw [decide_eq_true tail]
    exact pageResult_tail_placed isWindow true limit full

/-- A request for more keeps its cursor while the file grows. -/
theorem pageStart_of_grows
    (grows : Grows before identity file)
    (same : cursor.identity = identity)
    (placed : cursor.Placed before) :
    pageStart file (some cursor) =
      ⟨false, cursor.offset, cursor.discard⟩ := by
  have inside := placed.inside
  have size := grows.sizeAfter
  have keeps : resetsCursor file (some cursor) = false := by
    unfold resetsCursor
    rw [decide_eq_false_iff_not, same, grows.identity]
    simp only [ne_eq, not_true_eq_false, false_or]
    omega
  simp only [pageStart, keeps, Bool.false_eq_true, if_false]

/-- A request for more accounts for the lines between its two cursors. -/
theorem readPage_later
    (grows : Grows before identity file)
    (same : cursor.identity = identity)
    (placed : cursor.Placed before)
    (limit : Int) :
    ∃ page after,
      readPage loads (some file) (some cursor) limit = .ok page ∧
        page.cursor = some after ∧
        after.identity = identity ∧
        after.Placed file.content ∧
        cursor.offset ≤ after.offset ∧
        PageAccounts loads file.content cursor.offset after.offset page.records
          page.skipped := by
  have inside := placed.inside
  have size := grows.sizeAfter
  have sizeBefore := grows.sizeBefore
  have starts := pageStart_of_grows grows same placed
  have stillPlaced :
      cursor.discard =
        !startsLine newlineByte file.content cursor.offset := by
    obtain ⟨more, appended⟩ := grows.appended
    rw [← appended, startsLine_append inside]
    exact placed.placed
  obtain ⟨data, isWindow⟩ :
      ∃ data, data = pageWindow file.content cursor.offset :=
    ⟨_, rfl⟩
  obtain ⟨page, isPage, pageRecords, pageSkipped, pageCursor⟩ :=
    @readPage_of_grows _ loads _ _ _ grows _ _ _ _ starts limit _ isWindow _
      rfl
  have passes :=
    @pageResult_passes _ loads _ _ _ _ isWindow false limit stillPlaced
  have few := @length_pageResult_records _ loads data cursor.discard limit
  obtain ⟨records, skipped, sameRecords, sameSkipped, accounts⟩ :=
    passes.accounts
  refine ⟨page, _, isPage, pageCursor, rfl, ?_, Nat.le_add_right .., ?_⟩
  · exact {
      inside := pageResult_inside isWindow _ _ (by omega)
      placed := passes.placed }
  · rw [pageRecords, Nat.sub_eq_zero_of_le few, List.drop_zero, pageSkipped,
      sameRecords, sameSkipped]
    simpa using accounts

/-- Where a complete line remains a request for more moves its cursor. -/
theorem readPage_moves
    (grows : Grows before identity file)
    (same : cursor.identity = identity)
    (placed : cursor.Placed before)
    (limit : Int)
    {newline : Nat}
    (behind : cursor.offset ≤ newline)
    (remains : file.content[newline]? = some newlineByte) :
    ∃ page after,
      readPage loads (some file) (some cursor) limit = .ok page ∧
        page.cursor = some after ∧
        cursor.offset < after.offset := by
  have starts := pageStart_of_grows grows same placed
  obtain ⟨data, isWindow⟩ :
      ∃ data, data = pageWindow file.content cursor.offset :=
    ⟨_, rfl⟩
  obtain ⟨page, isPage, -, -, pageCursor⟩ :=
    @readPage_of_grows _ loads _ _ _ grows _ _ _ _ starts limit _ isWindow _
      rfl
  have moves :=
    @pageResult_moves _ loads _ _ _ cursor.discard isWindow false limit
      newline behind remains
  refine ⟨page, _, isPage, pageCursor, ?_⟩
  simp only
  omega

end Paging

/-! ## Successive requests -/

/-- A file that only grows between these requests and during them. -/
def GrowsAlong (identity : Nat × Nat) :
    (before : Bytes) → List (EvidenceFile × Int) → Prop
  | _, [] => True
  | before, (file, _) :: later =>
      Grows before identity file ∧ GrowsAlong identity file.content later

/-- What the last of the requests can read. -/
def finalContent (before : Bytes) : List (EvidenceFile × Int) → Bytes
  | [] => before
  | (file, _) :: later => finalContent file.content later

section Successive

variable
  {loads : Bytes → Option ρ}
  {before : Bytes}
  {identity : Nat × Nat}
  {requests : List (EvidenceFile × Int)}

theorem prefix_finalContent
    (grows : GrowsAlong identity before requests) :
    before <+: finalContent before requests := by
  induction requests generalizing before with
  | nil => exact List.prefix_refl _
  | cons request later inductionHypothesis =>
      obtain ⟨file, limit⟩ := request
      obtain ⟨first, rest⟩ := grows
      exact first.appended.trans (inductionHypothesis rest)

/-- The pages after a cursor account for the lines they pass. -/
theorem readPages_later
    (grows : GrowsAlong identity before requests)
    {cursor : PageCursor}
    (same : cursor.identity = identity)
    (placed : cursor.Placed before) :
    ∃ pages after,
      readPages loads requests (some cursor) = .ok (pages, some after) ∧
        after.Placed (finalContent before requests) ∧
        cursor.offset ≤ after.offset ∧
        PageAccounts loads (finalContent before requests) cursor.offset
          after.offset (pages.flatMap Page.records)
          (pages.map Page.skipped).sum := by
  induction requests generalizing before cursor with
  | nil =>
      exact ⟨[], cursor, rfl, placed, le_rfl, PageAccounts.nothing ..⟩
  | cons request later inductionHypothesis =>
      obtain ⟨file, limit⟩ := request
      obtain ⟨first, rest⟩ := grows
      obtain ⟨page, middle, isPage, isMiddle, sameMiddle, placedMiddle,
        forward, accounts⟩ :=
        @readPage_later _ loads _ _ _ _ first same placed limit
      obtain ⟨pages, after, arePages, placedAfter, onward, others⟩ :=
        inductionHypothesis rest sameMiddle placedMiddle
      obtain ⟨more, grown⟩ := prefix_finalContent rest
      have kept := accounts.grow placedMiddle.inside more
      rw [grown] at kept
      refine ⟨page :: pages, after, ?_, placedAfter, forward.trans onward, ?_⟩
      · simp only [readPages, isPage, isMiddle, arePages]
      · rw [List.flatMap_cons, List.map_cons, List.sum_cons]
        exact kept.append others forward onward

/-- The pages after the first one account for the lines behind it. -/
theorem readPages_account
    {file : EvidenceFile}
    {limit : Int}
    {later : List (EvidenceFile × Int)}
    (grows : GrowsAlong identity [] ((file, limit) :: later)) :
    ∃ page pages start stop,
      readPages loads ((file, limit) :: later) none =
          .ok (page :: pages, some stop) ∧
        page.cursor = some start ∧ start.offset ≤ stop.offset ∧
        stop.offset ≤ (finalContent file.content later).length ∧
        PageAccounts loads (finalContent file.content later) start.offset
          stop.offset (pages.flatMap Page.records)
          (pages.map Page.skipped).sum := by
  obtain ⟨first, rest⟩ := grows
  obtain ⟨page, start, isPage, isStart, same, placed⟩ :=
    @readPage_first _ loads _ _ _ first limit
  obtain ⟨pages, stop, arePages, placedStop, forward, accounts⟩ :=
    @readPages_later _ loads _ _ _ rest start same placed
  refine ⟨page, pages, start, stop, ?_, isStart, forward, placedStop.inside,
    accounts⟩
  simp only [readPages, isPage, isStart, arePages]

/--
Once the first page is read, the later pages return the record of every line
that starts between its cursor and theirs, each once and in the order of the
file, and count every other line there as skipped, also once.
-/
theorem pages_deliver_every_record_once
    (loads : Bytes → Option ρ)
    {file : EvidenceFile}
    {limit : Int}
    {later : List (EvidenceFile × Int)}
    (grows : GrowsAlong identity [] ((file, limit) :: later)) :
    let content := finalContent file.content later
    ∃ page pages start stop,
      readPages loads ((file, limit) :: later) none =
          .ok (page :: pages, some stop) ∧
        page.cursor = some start ∧ start.offset ≤ stop.offset ∧
        stop.offset ≤ content.length ∧
        pages.flatMap Page.records =
          (lineStarts newlineByte content start.offset stop.offset).filterMap
            (deliveredRecord loads content) ∧
        (pages.map Page.skipped).sum =
          (lineStarts newlineByte content start.offset stop.offset).countP
            fun position => (deliveredRecord loads content position).isNone := by
  obtain ⟨page, pages, start, stop, arePages, isStart, forward, inside,
    accounts⟩ := @readPages_account _ loads _ _ _ _ grows
  exact ⟨page, pages, start, stop, arePages, isStart, forward, inside,
    accounts.records, accounts.skipped⟩

end Successive

/-! ## A growing file -/

/-- The evidence file with these bytes. -/
def evidenceOf (content : Bytes) : EvidenceFile where
  regularBefore := true
  identityBefore := (1, 2)
  regular := true
  identity := (1, 2)
  ownerPrivate := true
  size := content.length
  content := content

theorem grows_evidenceOf
    (before more : Bytes) :
    Grows before (1, 2) (evidenceOf (before ++ more)) where
  regularBefore := rfl
  regular := rfl
  ownerPrivate := rfl
  identityBefore := rfl
  identity := rfl
  appended := List.prefix_append before more
  sizeAfter := by
    rw [evidenceOf, List.length_append]
    exact Nat.le_add_right _ _
  sizeBefore := le_rfl

/-- A line that is complete only when the second page is read. -/
theorem splitLine_delivered_once :
    let content := ascii "one\ntwo\n"
    ∃ page pages start stop,
      readPages some
            [(evidenceOf (ascii "one\ntw"), 1), (evidenceOf content, 1)]
            none =
          .ok (page :: pages, some stop) ∧
        page.cursor = some start ∧ start.offset ≤ stop.offset ∧
        stop.offset ≤ content.length ∧
        pages.flatMap Page.records =
          (lineStarts newlineByte content start.offset stop.offset).filterMap
            (deliveredRecord some content) ∧
        (pages.map Page.skipped).sum =
          (lineStarts newlineByte content start.offset stop.offset).countP
            fun position =>
              (deliveredRecord some content position).isNone :=
  @pages_deliver_every_record_once _ (1, 2) some
    (evidenceOf (ascii "one\ntw")) 1 [(evidenceOf (ascii "one\ntwo\n"), 1)]
    ⟨grows_evidenceOf [] (ascii "one\ntw"),
      grows_evidenceOf (ascii "one\ntw") (ascii "o\n"), trivial⟩

/-- A line that is still in the file moves the cursor. -/
theorem remainingLine_moves :
    ∃ page after,
      readPage some (some (evidenceOf (ascii "one\ntwo\n")))
            (some ⟨(1, 2), 4, false⟩) 1 =
          .ok page ∧
        page.cursor = some after ∧ 4 < after.offset :=
  @readPage_moves _ some (ascii "one\n") (1, 2) _ _
    (grows_evidenceOf (ascii "one\n") (ascii "two\n")) rfl
    ⟨by decide, by decide⟩ 1 7 (by decide) (by decide)

end PacketAudit
