import PacketAudit.Tcp.Drain

namespace PacketAudit

/-!
# Provenance spans in the detector

The functions of `detectors.py` that merge, clip and read provenance spans,
and what they keep: every complete span names the packets of each position it
lies over.
-/

/-- `tuple(dict.fromkeys(packet_ids))`. -/
def uniqueIds (packetIds : List Nat) : List Nat :=
  addPacketIds [] packetIds

/-- The span with its identifiers once each. -/
def ProvenanceSpan.normalized (span : ProvenanceSpan) : ProvenanceSpan :=
  { span with packetIds := uniqueIds span.packetIds }

/-- The sort key of `_coalesce_provenance`. -/
def ProvenanceSpan.sortsBefore (left right : ProvenanceSpan) : Bool :=
  decide (left.streamStart < right.streamStart) ||
    (decide (left.streamStart = right.streamStart) &&
      decide (left.streamEnd ≤ right.streamEnd))

/-- `_coalesce_provenance`. -/
def coalesceProvenance (spans : List ProvenanceSpan) : List ProvenanceSpan :=
  ((spans.filter fun span => span.streamStart < span.streamEnd).mergeSort
    ProvenanceSpan.sortsBefore).foldl
      (fun result span => pushSpan result span.normalized) []

/-- The loop of `_clip_provenance`. -/
def clipped (first last : Int) : List ProvenanceSpan → List ProvenanceSpan
  | [] => []
  | span :: rest =>
      if span.streamEnd ≤ first then
        clipped first last rest
      else if last ≤ span.streamStart then
        []
      else
        {
          span with
          streamStart := max first span.streamStart
          streamEnd := min last span.streamEnd
        } :: clipped first last rest

/-- `_clip_provenance`. -/
def clipProvenance
    (spans : List ProvenanceSpan)
    (first last : Int) : List ProvenanceSpan :=
  coalesceProvenance (clipped first last spans)

/-- What `_overlay_provenance` keeps of one existing span. -/
def outside (first last : Int) (span : ProvenanceSpan) : List ProvenanceSpan :=
  if span.streamEnd ≤ first ∨ last ≤ span.streamStart then
    [span]
  else
    (if span.streamStart < first then [{ span with streamEnd := first }]
      else []) ++
    (if last < span.streamEnd then [{ span with streamStart := last }]
      else [])

/-- `_overlay_provenance`. -/
def overlayProvenance
    (existing replacement : List ProvenanceSpan)
    (first last : Int) : List ProvenanceSpan :=
  coalesceProvenance (existing.flatMap (outside first last) ++ replacement)

/-- The loop of `_chunk_provenance`, with fallback spans for its gaps. -/
def fillGaps
    (fallbackIds : List Nat)
    (last : Int) :
    List ProvenanceSpan → (cursor : Int) → List ProvenanceSpan
  | [], cursor =>
      if cursor < last then [⟨cursor, last, fallbackIds, false⟩] else []
  | span :: rest, cursor =>
      (if cursor < span.streamStart then
          [⟨cursor, span.streamStart, fallbackIds, false⟩]
        else []) ++
      if span.streamEnd ≤ cursor then
        fillGaps fallbackIds last rest cursor
      else
        { span with streamStart := max cursor span.streamStart } ::
          fillGaps fallbackIds last rest span.streamEnd

/-- `_chunk_provenance`. -/
def chunkProvenance (chunk : StreamChunk) : List ProvenanceSpan :=
  let first := chunk.streamOffset
  let last := chunk.streamEnd
  let fallbackIds := uniqueIds chunk.packetIds
  if chunk.provenanceSpans.isEmpty then
    if first < last then [⟨first, last, fallbackIds, false⟩] else []
  else
    coalesceProvenance
      (fillGaps fallbackIds last
        (clipProvenance chunk.provenanceSpans first last) first)

/-- The loop of `_append_direction_provenance`. -/
def appendProvenance
    (existing added : List ProvenanceSpan) : List ProvenanceSpan :=
  added.foldl
    (fun spans span =>
      if span.streamEnd ≤ span.streamStart then spans
      else pushSpan spans span.normalized)
    existing

/-- `_limit_provenance_ids`. -/
def limitProvenanceIds
    (limit : Nat)
    (packetIds : List Nat)
    (complete : Bool) : List Nat × Bool :=
  let unique := uniqueIds packetIds
  let bounded := unique.take limit
  (bounded, complete && decide (unique.length ≤ limit) && !bounded.isEmpty)

/-- The locals of the loop of `_provenance_for_span`. -/
structure SpanReading where
  cursor : Int
  packetIds : List Nat := []
  complete : Bool
  deriving Repr, DecidableEq

/-- The loop of `_provenance_for_span`. -/
def readSpans
    (first last : Int) :
    List ProvenanceSpan → SpanReading → SpanReading
  | [], reading => reading
  | span :: rest, reading =>
      if span.streamEnd ≤ first then
        readSpans first last rest reading
      else if last ≤ span.streamStart then
        reading
      else
        let unbroken :=
          reading.complete && decide (span.streamStart ≤ reading.cursor)
        let stop := min last span.streamEnd
        if stop ≤ max first span.streamStart then
          readSpans first last rest { reading with complete := unbroken }
        else
          readSpans first last rest {
            cursor := max reading.cursor stop
            packetIds := reading.packetIds ++ span.packetIds
            complete := unbroken && span.packetIdsComplete
          }

/-- `_provenance_for_span`, for absolute positions. -/
def provenanceForSpan
    (limit : Nat)
    (contextIds : List Nat)
    (contextComplete : Bool)
    (spans : List ProvenanceSpan)
    (first last : Int) : List Nat × Bool :=
  if last ≤ first then
    limitProvenanceIds limit contextIds false
  else
    let reading :=
      readSpans first last spans
        { cursor := first, complete := contextComplete }
    limitProvenanceIds limit reading.packetIds
      (reading.complete && decide (last ≤ reading.cursor))

/-- `_combine_provenance`. -/
def combineProvenance
    (limit : Nat)
    (values : List (List Nat × Bool)) : List Nat × Bool :=
  limitProvenanceIds limit (values.flatMap Prod.fst)
    (values.all Prod.snd)

/-! ## Spans that name the packets of their positions -/

/-- The identifiers that belong to each position of a stream. -/
abbrev Origins := Int → Option (List Nat)

/-- The span names exactly the packets of every position it lies over. -/
def NamesOrigins (origins : Origins) (span : ProvenanceSpan) : Prop :=
  span.packetIdsComplete = true →
    ∀ position, span.streamStart ≤ position → position < span.streamEnd →
      ∃ packetIds,
        origins position = some packetIds ∧
          ∀ packetId, packetId ∈ span.packetIds ↔ packetId ∈ packetIds

/-- Every span of a list does. -/
def AllNameOrigins (origins : Origins) (spans : List ProvenanceSpan) : Prop :=
  ∀ span ∈ spans, NamesOrigins origins span

@[simp] theorem mem_uniqueIds
    {packetIds : List Nat}
    {packetId : Nat} :
    packetId ∈ uniqueIds packetIds ↔ packetId ∈ packetIds := by
  simp [uniqueIds, mem_addPacketIds]

theorem nodup_addPacketIds
    {known : List Nat}
    (nodup : known.Nodup)
    (added : List Nat) :
    (addPacketIds known added).Nodup := by
  induction added generalizing known with
  | nil =>
      exact nodup
  | cons first rest inductionHypothesis =>
      rw [addPacketIds_cons]
      apply inductionHypothesis
      split
      · exact nodup
      case isFalse isNew =>
        refine List.nodup_append.mpr ⟨nodup, List.nodup_singleton _, ?_⟩
        rintro one member other isFirst rfl
        rw [List.mem_singleton] at isFirst
        subst isFirst
        exact isNew member

theorem nodup_uniqueIds (packetIds : List Nat) :
    (uniqueIds packetIds).Nodup :=
  nodup_addPacketIds List.nodup_nil packetIds

section Naming

variable {origins : Origins}
variable {spans : List ProvenanceSpan}
variable {span : ProvenanceSpan}

/-- A part of a span names what the span names. -/
theorem NamesOrigins.part
    {part : ProvenanceSpan}
    (names : NamesOrigins origins span)
    (samePacketIds : part.packetIds = span.packetIds)
    (sameComplete : part.packetIdsComplete = span.packetIdsComplete)
    (startsInside : span.streamStart ≤ part.streamStart)
    (endsInside : part.streamEnd ≤ span.streamEnd) :
    NamesOrigins origins part := by
  intro complete position fromStart beforeEnd
  rw [samePacketIds]
  exact names (sameComplete ▸ complete) position
    (startsInside.trans fromStart) (beforeEnd.trans_le endsInside)

theorem NamesOrigins.normalized
    (names : NamesOrigins origins span) :
    NamesOrigins origins span.normalized := by
  intro complete position fromStart beforeEnd
  obtain ⟨packetIds, isOrigin, same⟩ :=
    names complete position fromStart beforeEnd
  refine ⟨packetIds, isOrigin, fun packetId => ?_⟩
  rw [← same packetId]
  exact mem_uniqueIds

/-- A fallback span names nothing. -/
theorem namesOrigins_of_incomplete
    (incomplete : span.packetIdsComplete = false) :
    NamesOrigins origins span := by
  intro complete
  rw [incomplete] at complete
  cases complete

theorem allNameOrigins_pushSpan
    (all : AllNameOrigins origins spans)
    (names : NamesOrigins origins span) :
    AllNameOrigins origins (pushSpan spans span) := by
  intro other member
  rcases pushSpan_cases spans span with
    appended | ⟨front, previous, shape, adjacent, sameIds, sameComplete,
      merged⟩
  · rw [appended] at member
    rcases List.mem_append.mp member with isOld | isNew
    · exact all other isOld
    · obtain rfl := List.mem_singleton.mp isNew
      exact names
  · rw [merged] at member
    rcases List.mem_append.mp member with isOld | isMerged
    · exact all other (by rw [shape]; exact List.mem_append_left _ isOld)
    · obtain rfl := List.mem_singleton.mp isMerged
      have previousNames := all previous (by rw [shape]; simp)
      intro complete position fromStart beforeEnd
      by_cases inPrevious : position < previous.streamEnd
      · exact previousNames complete position fromStart inPrevious
      · obtain ⟨packetIds, isOrigin, same⟩ :=
          names (sameComplete ▸ complete) position
            (by rw [← adjacent]; exact not_lt.mp inPrevious) beforeEnd
        refine ⟨packetIds, isOrigin, fun packetId => ?_⟩
        rw [← same packetId]
        simp only [sameIds]

/-- Pushing spans one by one keeps the property. -/
theorem allNameOrigins_foldl
    {push : List ProvenanceSpan → ProvenanceSpan → List ProvenanceSpan}
    (pushes :
      ∀ {known added},
        AllNameOrigins origins known → NamesOrigins origins added →
          AllNameOrigins origins (push known added))
    {known added : List ProvenanceSpan}
    (allKnown : AllNameOrigins origins known)
    (allAdded : AllNameOrigins origins added) :
    AllNameOrigins origins (added.foldl push known) := by
  induction added generalizing known with
  | nil =>
      exact allKnown
  | cons first rest inductionHypothesis =>
      exact inductionHypothesis
        (pushes allKnown (allAdded first List.mem_cons_self))
        fun other member => allAdded other (List.mem_cons_of_mem _ member)

theorem allNameOrigins_coalesceProvenance
    (all : AllNameOrigins origins spans) :
    AllNameOrigins origins (coalesceProvenance spans) := by
  refine allNameOrigins_foldl
    (fun known added => allNameOrigins_pushSpan known added.normalized)
    (by simp [AllNameOrigins]) ?_
  intro other member
  rw [List.mem_mergeSort] at member
  exact all other (List.mem_of_mem_filter member)

theorem allNameOrigins_clipped
    (all : AllNameOrigins origins spans)
    (first last : Int) :
    AllNameOrigins origins (clipped first last spans) := by
  induction spans with
  | nil =>
      exact all
  | cons span rest inductionHypothesis =>
      have restNames :=
        inductionHypothesis fun other member =>
          all other (List.mem_cons_of_mem _ member)
      unfold clipped
      split
      · exact restNames
      split
      · simp [AllNameOrigins]
      intro other member
      rcases List.mem_cons.mp member with rfl | isRest
      · exact (all span List.mem_cons_self).part rfl rfl
          (le_max_right _ _) (min_le_right _ _)
      · exact restNames other isRest

theorem allNameOrigins_clipProvenance
    (all : AllNameOrigins origins spans)
    (first last : Int) :
    AllNameOrigins origins (clipProvenance spans first last) :=
  allNameOrigins_coalesceProvenance (allNameOrigins_clipped all first last)

theorem allNameOrigins_overlayProvenance
    {replacement : List ProvenanceSpan}
    (all : AllNameOrigins origins spans)
    (replacements : AllNameOrigins origins replacement)
    (first last : Int) :
    AllNameOrigins origins
      (overlayProvenance spans replacement first last) := by
  apply allNameOrigins_coalesceProvenance
  intro other member
  rcases List.mem_append.mp member with isOutside | isReplacement
  · obtain ⟨existing, isExisting, isPart⟩ := List.mem_flatMap.mp isOutside
    have names := all existing isExisting
    unfold outside at isPart
    split at isPart
    · obtain rfl := List.mem_singleton.mp isPart
      exact names
    case isFalse overlaps =>
      rw [not_or, not_le, not_le] at overlaps
      rcases List.mem_append.mp isPart with isLeft | isRight
      · split at isLeft
        · obtain rfl := List.mem_singleton.mp isLeft
          exact names.part rfl rfl le_rfl overlaps.1.le
        · cases isLeft
      · split at isRight
        · obtain rfl := List.mem_singleton.mp isRight
          exact names.part rfl rfl overlaps.2.le le_rfl
        · cases isRight
  · exact replacements other isReplacement

theorem allNameOrigins_appendProvenance
    {added : List ProvenanceSpan}
    (all : AllNameOrigins origins spans)
    (allAdded : AllNameOrigins origins added) :
    AllNameOrigins origins (appendProvenance spans added) := by
  refine allNameOrigins_foldl ?_ all allAdded
  intro known next knownNames nextNames
  split
  · exact knownNames
  · exact allNameOrigins_pushSpan knownNames nextNames.normalized

theorem allNameOrigins_fillGaps
    (all : AllNameOrigins origins spans)
    (fallbackIds : List Nat)
    (last cursor : Int) :
    AllNameOrigins origins (fillGaps fallbackIds last spans cursor) := by
  induction spans generalizing cursor with
  | nil =>
      unfold fillGaps
      intro other member
      split at member
      · obtain rfl := List.mem_singleton.mp member
        exact namesOrigins_of_incomplete rfl
      · cases member
  | cons span rest inductionHypothesis =>
      have restNames :=
        inductionHypothesis fun other member =>
          all other (List.mem_cons_of_mem _ member)
      unfold fillGaps
      intro other member
      rcases List.mem_append.mp member with isGap | isRest
      · split at isGap
        · obtain rfl := List.mem_singleton.mp isGap
          exact namesOrigins_of_incomplete rfl
        · cases isGap
      · split at isRest
        · exact restNames cursor other isRest
        · rcases List.mem_cons.mp isRest with rfl | isLater
          · exact (all span List.mem_cons_self).part rfl rfl
              (le_max_right _ _) le_rfl
          · exact restNames _ other isLater

/-- The spans that the detector takes from a chunk. -/
theorem allNameOrigins_chunkProvenance
    {chunk : StreamChunk}
    (all : AllNameOrigins origins chunk.provenanceSpans) :
    AllNameOrigins origins (chunkProvenance chunk) := by
  unfold chunkProvenance
  simp only
  split
  · intro other member
    split at member
    · obtain rfl := List.mem_singleton.mp member
      exact namesOrigins_of_incomplete rfl
    · cases member
  · exact allNameOrigins_coalesceProvenance
      (allNameOrigins_fillGaps (allNameOrigins_clipProvenance all _ _) _ _ _)

end Naming

/-! ## Reading the packets of a range -/

/-- What has been read names exactly the packets of a range's front. -/
structure ReadsFront
    (origins : Origins)
    (first last : Int)
    (reading : SpanReading) : Prop where
  fromFirst : first ≤ reading.cursor
  toLast : reading.cursor ≤ last
  named :
    ∀ packetId ∈ reading.packetIds,
      ∃ position packetIds,
        first ≤ position ∧ position < last ∧
          origins position = some packetIds ∧ packetId ∈ packetIds
  covered :
    ∀ position, first ≤ position → position < reading.cursor →
      ∃ packetIds,
        origins position = some packetIds ∧
          ∀ packetId ∈ packetIds, packetId ∈ reading.packetIds

/-- A reading that stays complete extends to the spans that follow. -/
theorem ReadsFront.readSpans
    {origins : Origins}
    {first last : Int}
    {spans : List ProvenanceSpan}
    (all : AllNameOrigins origins spans)
    {reading : SpanReading}
    (reads : reading.complete = true → ReadsFront origins first last reading)
    (complete : (readSpans first last spans reading).complete = true) :
    ReadsFront origins first last (readSpans first last spans reading) := by
  induction spans generalizing reading with
  | nil =>
      exact reads complete
  | cons span rest inductionHypothesis =>
      have restNames : AllNameOrigins origins rest :=
        fun other member => all other (List.mem_cons_of_mem _ member)
      unfold PacketAudit.readSpans at complete ⊢
      split
      · rw [if_pos ‹_›] at complete
        exact inductionHypothesis restNames reads complete
      rw [if_neg ‹_›] at complete
      split
      · rw [if_pos ‹_›] at complete
        exact reads complete
      rw [if_neg ‹_›] at complete
      simp only at complete ⊢
      split
      · rw [if_pos ‹_›] at complete
        refine inductionHypothesis restNames ?_ complete
        intro stillComplete
        rw [Bool.and_eq_true] at stillComplete
        have before := reads stillComplete.1
        exact ⟨before.fromFirst, before.toLast, before.named,
          before.covered⟩
      case isFalse notBehind notBefore intersects =>
        rw [if_neg intersects] at complete
        refine inductionHypothesis restNames ?_ complete
        intro stillComplete
        simp only [Bool.and_eq_true, decide_eq_true_eq] at stillComplete
        obtain ⟨⟨wasComplete, adjoins⟩, spanComplete⟩ := stillComplete
        have before := reads wasComplete
        have names := all span List.mem_cons_self spanComplete
        rw [not_le] at notBehind notBefore intersects
        refine {
          fromFirst := before.fromFirst.trans (le_max_left _ _)
          toLast := max_le before.toLast (min_le_left _ _)
          named := ?_
          covered := ?_
        }
        · intro packetId member
          rcases List.mem_append.mp member with isOld | isNew
          · exact before.named packetId isOld
          · obtain ⟨lower, upper⟩ :
                max first span.streamStart < last ∧
                  max first span.streamStart < span.streamEnd :=
              lt_min_iff.mp intersects
            obtain ⟨packetIds, isOrigin, same⟩ :=
              names (max first span.streamStart) (le_max_right _ _) upper
            exact ⟨_, packetIds, le_max_left _ _, lower, isOrigin,
              (same packetId).mp isNew⟩
        · intro position fromFirst beforeCursor
          by_cases isOld : position < reading.cursor
          · obtain ⟨packetIds, isOrigin, known⟩ :=
              before.covered position fromFirst isOld
            exact ⟨packetIds, isOrigin, fun packetId member =>
              List.mem_append_left _ (known packetId member)⟩
          · have inSpan : position < span.streamEnd := by
              rcases lt_max_iff.mp beforeCursor with early | late
              · exact absurd early isOld
              · exact late.trans_le (min_le_right _ _)
            obtain ⟨packetIds, isOrigin, same⟩ :=
              names position (adjoins.trans (not_lt.mp isOld)) inSpan
            exact ⟨packetIds, isOrigin, fun packetId member =>
              List.mem_append_right _ ((same packetId).mpr member)⟩

/-- A complete answer names exactly the packets of the range. -/
theorem provenanceForSpan_exact
    {origins : Origins}
    {spans : List ProvenanceSpan}
    (all : AllNameOrigins origins spans)
    {limit : Nat}
    {contextIds : List Nat}
    {contextComplete : Bool}
    {first last : Int}
    (complete :
      (provenanceForSpan limit contextIds contextComplete spans first
        last).2 = true) :
    let answer :=
      (provenanceForSpan limit contextIds contextComplete spans first last).1
    first < last ∧ answer.Nodup ∧
      (∀ position, first ≤ position → position < last →
        ∃ packetIds, origins position = some packetIds) ∧
      ∀ packetId,
        packetId ∈ answer ↔
          ∃ position packetIds,
            first ≤ position ∧ position < last ∧
              origins position = some packetIds ∧ packetId ∈ packetIds := by
  unfold provenanceForSpan at complete ⊢
  split at complete
  · simp [limitProvenanceIds] at complete
  case isFalse inOrder =>
    rw [not_le] at inOrder
    rw [if_neg (not_le.mpr inOrder)]
    simp only [limitProvenanceIds, Bool.and_eq_true,
      decide_eq_true_eq] at complete ⊢
    obtain ⟨⟨⟨allComplete, reachesLast⟩, inLimit⟩, -⟩ := complete
    have front :=
      @ReadsFront.readSpans origins first last spans all
        { cursor := first, complete := contextComplete }
        (fun _ => {
          fromFirst := le_rfl
          toLast := inOrder.le
          named := by simp
          covered := by
            intro position fromFirst beforeFirst
            exact absurd fromFirst (not_le.mpr beforeFirst)
        })
        allComplete
    rw [List.take_of_length_le inLimit]
    refine ⟨inOrder, nodup_uniqueIds _, ?_, ?_⟩
    · intro position fromFirst beforeLast
      obtain ⟨packetIds, isOrigin, -⟩ :=
        front.covered position fromFirst (beforeLast.trans_le reachesLast)
      exact ⟨packetIds, isOrigin⟩
    · intro packetId
      rw [mem_uniqueIds]
      constructor
      · exact front.named packetId
      · rintro ⟨position, packetIds, fromFirst, beforeLast, isOrigin,
          member⟩
        obtain ⟨known, isKnown, all⟩ :=
          front.covered position fromFirst
            (beforeLast.trans_le reachesLast)
        rw [isOrigin] at isKnown
        cases isKnown
        exact all packetId member

end PacketAudit
