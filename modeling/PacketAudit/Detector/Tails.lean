import PacketAudit.Library.Islands
import PacketAudit.Detector.Merge

namespace PacketAudit

/-!
# What merging and trimming do to a tail

The spans of a tail tile the end of its window, and every operation on spans
keeps them so.  A trimmed tail is the end of the one before; a tail that a
later chunk is merged into becomes the end of what is scanned, which the chunk
ends.
-/

/-! ## Spans that tile a window -/

namespace Tiles

variable {first last : Int}
variable {spans : List ProvenanceSpan}

/-- The spans of a tiling are nonempty and lie in its window. -/
theorem inside
    (tiles : Tiles first last spans)
    {span : ProvenanceSpan}
    (member : span ∈ spans) :
    first ≤ span.streamStart ∧ span.streamStart < span.streamEnd ∧
      span.streamEnd ≤ last := by
  induction spans generalizing first with
  | nil => cases member
  | cons head rest inductionHypothesis =>
      obtain ⟨starts, nonempty, later⟩ := tiles
      rcases List.mem_cons.mp member with rfl | inRest
      · exact ⟨starts.ge, starts ▸ nonempty, later.le⟩
      · obtain ⟨begins, spanNonempty, ends⟩ :=
          inductionHypothesis later inRest
        exact ⟨nonempty.le.trans begins, spanNonempty, ends⟩

/-- They are sorted, and no two of them overlap. -/
theorem pairwise
    (tiles : Tiles first last spans) :
    spans.Pairwise fun earlier later =>
      earlier.streamEnd ≤ later.streamStart := by
  induction spans generalizing first with
  | nil => exact .nil
  | cons head rest inductionHypothesis =>
      obtain ⟨-, -, later⟩ := tiles
      exact List.pairwise_cons.mpr
        ⟨fun other member => (later.inside member).1,
          inductionHypothesis later⟩

/-- Without its first span a tiling begins later. -/
theorem drop_one
    (tiles : Tiles first last spans) :
    ∃ later, first ≤ later ∧ Tiles later last (spans.drop 1) := by
  cases spans with
  | nil => exact ⟨first, le_rfl, tiles⟩
  | cons head rest =>
      obtain ⟨-, nonempty, later⟩ := tiles
      exact ⟨head.streamEnd, nonempty.le, later⟩

/-- Spans pushed one by one onto a tiling go on with it. -/
theorem pushAll
    {middle : Int}
    {known : List ProvenanceSpan}
    (knownTiles : Tiles first middle known)
    (tiles : Tiles middle last spans) :
    Tiles first last
      (spans.foldl (fun result span => pushSpan result span.normalized)
        known) := by
  induction spans generalizing middle known with
  | nil =>
      have same : middle = last := tiles
      rw [← same]
      exact knownTiles
  | cons span rest inductionHypothesis =>
      obtain ⟨starts, nonempty, later⟩ := tiles
      subst starts
      have pushed :
          Tiles first span.normalized.streamEnd
            (pushSpan known span.normalized) :=
        tiles_pushSpan knownTiles nonempty
      exact inductionHypothesis pushed later

theorem coalesceProvenance
    (tiles : Tiles first last spans) :
    Tiles first last (PacketAudit.coalesceProvenance spans) := by
  have all :
      (spans.filter fun span => span.streamStart < span.streamEnd) =
        spans :=
    List.filter_eq_self.mpr fun span member =>
      decide_eq_true (tiles.inside member).2.1
  have sorted :
      spans.Pairwise fun left right => left.sortsBefore right := by
    refine tiles.pairwise.imp_of_mem ?_
    intro left right isLeft isRight before
    have nonempty := (tiles.inside isLeft).2.1
    simp [ProvenanceSpan.sortsBefore, nonempty.trans_le before]
  unfold PacketAudit.coalesceProvenance
  rw [all, List.mergeSort_of_pairwise sorted]
  have empty : Tiles first first [] := rfl
  exact empty.pushAll tiles

/-- Clipping a tiling to a later window with the same end. -/
theorem clipped
    (tiles : Tiles first last spans)
    {start : Int}
    (inOrder : start ≤ last) :
    Tiles (max start first) last (PacketAudit.clipped start last spans) := by
  induction spans generalizing first with
  | nil =>
      have same : first = last := tiles
      subst same
      exact max_eq_right inOrder
  | cons span rest inductionHypothesis =>
      obtain ⟨starts, nonempty, later⟩ := tiles
      have clippedRest := inductionHypothesis later
      have ends := later.le
      unfold PacketAudit.clipped
      split
      case isTrue behind =>
        rw [max_eq_left behind] at clippedRest
        rw [max_eq_left (nonempty.le.trans behind)]
        exact clippedRest
      case isFalse notBehind =>
        rw [not_le] at notBehind
        rw [if_neg (by omega)]
        rw [max_eq_right notBehind.le] at clippedRest
        refine ⟨by rw [starts], ?_, ?_⟩
        · rw [min_eq_right ends]
          exact max_lt notBehind nonempty
        · rw [min_eq_right ends]
          exact clippedRest

theorem clipProvenance
    (tiles : Tiles first last spans)
    {start : Int}
    (inOrder : start ≤ last) :
    Tiles (max start first) last
      (PacketAudit.clipProvenance spans start last) :=
  (tiles.clipped inOrder).coalesceProvenance

theorem appendProvenance
    {middle : Int}
    {added : List ProvenanceSpan}
    (tiles : Tiles first middle spans)
    (addedTiles : Tiles middle last added) :
    Tiles first last (PacketAudit.appendProvenance spans added) := by
  have pushes :
      PacketAudit.appendProvenance spans added =
        added.foldl
          (fun result span => pushSpan result span.normalized) spans := by
    refine List.foldl_ext _ _ _ fun result span member => ?_
    rw [if_neg (not_le.mpr (addedTiles.inside member).2.1)]
  rw [pushes]
  exact tiles.pushAll addedTiles

end Tiles

/-- The spans are nonempty and end before a position. -/
def EndBefore (last : Int) (spans : List ProvenanceSpan) : Prop :=
  ∀ span ∈ spans, span.streamStart < span.streamEnd ∧ span.streamEnd ≤ last

theorem endBefore_pushSpan
    {last : Int}
    {spans : List ProvenanceSpan}
    {span : ProvenanceSpan}
    (endBefore : EndBefore last spans)
    (nonempty : span.streamStart < span.streamEnd)
    (ends : span.streamEnd ≤ last) :
    EndBefore last (pushSpan spans span) := by
  intro other member
  rcases pushSpan_cases spans span with
    appended | ⟨front, previous, shape, adjacent, -, -, merged⟩
  · rw [appended] at member
    rcases List.mem_append.mp member with isOld | isNew
    · exact endBefore other isOld
    · rw [List.mem_singleton.mp isNew]
      exact ⟨nonempty, ends⟩
  · rw [merged] at member
    have isPrevious : previous ∈ spans := by simp [shape]
    rcases List.mem_append.mp member with isOld | isMerged
    · exact endBefore other (by simp [shape, isOld])
    · rw [List.mem_singleton.mp isMerged]
      have previousNonempty := (endBefore previous isPrevious).1
      exact ⟨by simp only; omega, ends⟩

theorem endBefore_clipProvenance
    (spans : List ProvenanceSpan)
    (first last : Int) :
    EndBefore last (clipProvenance spans first last) := by
  have clippedEnds : ∀ span ∈ clipped first last spans,
      span.streamEnd ≤ last := by
    induction spans with
    | nil => simp [clipped]
    | cons head rest inductionHypothesis =>
        intro span member
        unfold clipped at member
        split at member
        · exact inductionHypothesis span member
        split at member
        · cases member
        rcases List.mem_cons.mp member with rfl | inRest
        · exact min_le_left _ _
        · exact inductionHypothesis span inRest
  unfold clipProvenance coalesceProvenance
  refine List.foldlRecOn _ _ (by simp [EndBefore]) ?_
  intro known endBefore span member
  rw [List.mem_mergeSort, List.mem_filter, decide_eq_true_eq] at member
  exact endBefore_pushSpan endBefore member.2 (clippedEnds span member.1)

theorem tiles_fillGaps
    (fallbackIds : List Nat)
    {last cursor : Int}
    {spans : List ProvenanceSpan}
    (endBefore : EndBefore last spans)
    (inOrder : cursor ≤ last) :
    Tiles cursor last (fillGaps fallbackIds last spans cursor) := by
  induction spans generalizing cursor with
  | nil =>
      unfold fillGaps
      split
      case isTrue before => exact ⟨rfl, before, rfl⟩
      case isFalse notBefore => exact le_antisymm inOrder (not_lt.mp notBefore)
  | cons span rest inductionHypothesis =>
      obtain ⟨nonempty, ends⟩ := endBefore span List.mem_cons_self
      have restEnds : EndBefore last rest :=
        fun other member => endBefore other (List.mem_cons_of_mem _ member)
      unfold fillGaps
      by_cases behind : span.streamEnd ≤ cursor
      · rw [if_neg (by omega), if_pos behind]
        exact inductionHypothesis restEnds inOrder
      · rw [if_neg behind]
        have gap :
            Tiles cursor (max cursor span.streamStart)
              (if cursor < span.streamStart then
                [⟨cursor, span.streamStart, fallbackIds, false⟩]
              else []) := by
          split
          case isTrue before =>
            exact ⟨rfl, before, (max_eq_right before.le).symm⟩
          case isFalse notBefore =>
            exact (max_eq_left (not_lt.mp notBefore)).symm
        exact gap.append
          ⟨rfl, max_lt (not_le.mp behind) nonempty,
            inductionHypothesis restEnds ends⟩

/-- A chunk's spans tile its bytes, whatever spans came with it. -/
theorem tiles_chunkProvenance (chunk : StreamChunk) :
    Tiles chunk.streamOffset chunk.streamEnd (chunkProvenance chunk) := by
  have inOrder : chunk.streamOffset ≤ chunk.streamEnd := by
    unfold StreamChunk.streamEnd
    omega
  unfold chunkProvenance
  simp only
  split
  · split
    case isTrue nonempty => exact ⟨rfl, nonempty, rfl⟩
    case isFalse empty => exact le_antisymm inOrder (not_lt.mp empty)
  · exact (tiles_fillGaps _ (endBefore_clipProvenance _ _ _)
      inOrder).coalesceProvenance

namespace Detector

open Library

/-! ## Trimmed tails -/

/-- The spans of a tail tile the end of its window. -/
def DirectionState.SpansInside (tail : DirectionState) : Prop :=
  ∃ first, tail.baseOffset ≤ first ∧
    Tiles first tail.tailEnd tail.provenanceSpans

theorem DirectionState.base_le_tailEnd (tail : DirectionState) :
    tail.baseOffset ≤ tail.tailEnd := by
  unfold DirectionState.tailEnd
  omega

/-- A tail that is the end of another one. -/
structure Narrowed (tail next : DirectionState) : Prop where
  suffix : next.data <:+ tail.data
  tailEnd : next.tailEnd = tail.tailEnd
  spans : tail.SpansInside → next.SpansInside

theorem Narrowed.refl (tail : DirectionState) : Narrowed tail tail :=
  ⟨List.suffix_rfl, rfl, id⟩

theorem Narrowed.trans
    {first second third : DirectionState}
    (earlier : Narrowed first second)
    (later : Narrowed second third) :
    Narrowed first third where
  suffix := later.suffix.trans earlier.suffix
  tailEnd := later.tailEnd.trans earlier.tailEnd
  spans inside := later.spans (earlier.spans inside)

theorem narrowed_keepLast
    (keep : Nat)
    (tail : DirectionState) :
    Narrowed tail (SensitiveDetector.keepLast keep tail) := by
  unfold SensitiveDetector.keepLast
  split
  case isTrue longer =>
    refine ⟨List.drop_suffix _ _, ?_, ?_⟩
    · simp only [DirectionState.tailEnd, List.length_drop]
      omega
    · rintro ⟨first, begins, tiles⟩
      have sameEnd :
          tail.baseOffset + ((tail.data.length - keep : Nat) : Int) +
              ((tail.data.drop (tail.data.length - keep)).length : Int) =
            tail.tailEnd := by
        simp only [DirectionState.tailEnd, List.length_drop]
        omega
      have inOrder :
          tail.baseOffset + ((tail.data.length - keep : Nat) : Int) ≤
            tail.tailEnd := by
        unfold DirectionState.tailEnd
        omega
      refine ⟨_, le_max_left _ first, ?_⟩
      unfold DirectionState.tailEnd
      simp only
      rw [sameEnd]
      exact (tiles.clipProvenance inOrder).coalesceProvenance
  case isFalse => exact .refl tail

theorem narrowed_dropSpan (tail : DirectionState) :
    Narrowed tail
      { tail with provenanceSpans := tail.provenanceSpans.drop 1 } := by
  refine ⟨List.suffix_rfl, rfl, ?_⟩
  rintro ⟨first, begins, tiles⟩
  obtain ⟨later, afterFirst, laterTiles⟩ := tiles.drop_one
  exact ⟨later, begins.trans afterFirst, laterTiles⟩

/-! ## Merged tails -/

/-- Clipping spans that tile up to a tail's end. -/
theorem spansInside_replaceClipped
    {tail : DirectionState}
    {spans : List ProvenanceSpan}
    {first : Int}
    (tiles : Tiles first tail.tailEnd spans) :
    (replaceClipped spans tail).SpansInside :=
  ⟨max tail.baseOffset first, le_max_left _ _,
    (tiles.clipProvenance tail.base_le_tailEnd).coalesceProvenance⟩

theorem lastBytes_suffix
    (count : Nat)
    (data : Bytes) :
    lastBytes count data <:+ data :=
  List.drop_suffix _ _

theorem length_lastBytes
    (count : Nat)
    (data : Bytes) :
    (lastBytes count data).length = min count data.length := by
  unfold lastBytes
  rw [List.length_drop]
  omega

/-- What the merging of a chunk that goes on to the right gives. -/
structure GoesOn
    (overlapBytes : Nat)
    (tail : DirectionState)
    (chunk : StreamChunk)
    (merged : MergedTail) : Prop where
  /-- The end of the old tail, if the chunk adjoins it, and the chunk. -/
  scanned :
    ∃ earlier,
      earlier <:+ tail.data ∧
        (earlier ≠ [] → tail.tailEnd = chunk.streamOffset) ∧
        (tail.tailEnd = chunk.streamOffset →
          earlier = tail.data ∨ merged.scanData.length = overlapBytes) ∧
        merged.scanData = earlier ++ chunk.data ∧
        merged.scanStart + earlier.length = chunk.streamOffset
  suffix : merged.tail.data <:+ merged.scanData
  tailEnd : merged.tail.tailEnd = chunk.streamEnd
  bounded :
    merged.tail.data.length ≤ overlapBytes + trimSlack overlapBytes
  spans : merged.tail.SpansInside

section Merging

variable {overlapBytes : Nat}
variable {tail : DirectionState}
variable {chunk : StreamChunk}

theorem tailEnd_restartTail :
    (restartTail overlapBytes tail chunk).tailEnd = chunk.streamEnd := by
  simp [restartTail, replaceClipped, DirectionState.tailEnd]

theorem goesOn_mergeIsland
    (counts : ProvenanceCounts)
    (apart : tail.data = [] ∨ tail.tailEnd ≠ chunk.streamOffset) :
    GoesOn overlapBytes tail chunk
      (mergeIsland overlapBytes counts tail chunk) where
  scanned := by
    refine ⟨[], List.nil_suffix, fun nonempty => absurd rfl nonempty, ?_,
      rfl, by simp [mergeIsland]⟩
    intro adjoins
    rcases apart with empty | notAdjoining
    · exact .inl empty.symm
    · exact absurd adjoins notAdjoining
  suffix := lastBytes_suffix overlapBytes chunk.data
  tailEnd := tailEnd_restartTail
  bounded := by
    have kept := length_lastBytes overlapBytes chunk.data
    change (lastBytes overlapBytes chunk.data).length ≤ _
    omega
  spans := by
    have tiles :
        Tiles chunk.streamOffset (restartTail overlapBytes tail chunk).tailEnd
          (chunkProvenance chunk) := by
      rw [tailEnd_restartTail]
      exact tiles_chunkProvenance chunk
    exact spansInside_replaceClipped tiles

/-- The old tail and an adjoining chunk. -/
theorem tailEnd_extended
    (adjoins : chunk.streamOffset = tail.tailEnd) :
    (extended tail chunk).tailEnd = chunk.streamEnd := by
  simp only [extended, DirectionState.tailEnd, StreamChunk.streamEnd,
    List.length_append] at adjoins ⊢
  omega

theorem spansInside_extended
    (inside : tail.SpansInside)
    (adjoins : chunk.streamOffset = tail.tailEnd) :
    ∃ first, tail.baseOffset ≤ first ∧
      Tiles first chunk.streamEnd (extended tail chunk).provenanceSpans := by
  obtain ⟨first, begins, tiles⟩ := inside
  have chunkTiles := tiles_chunkProvenance chunk
  rw [adjoins] at chunkTiles
  exact ⟨first, begins, tiles.appendProvenance chunkTiles⟩

theorem goesOn_mergeAdjoining
    (counts : ProvenanceCounts)
    (inside : tail.SpansInside)
    (adjoins : chunk.streamOffset = tail.tailEnd) :
    GoesOn overlapBytes tail chunk
      (mergeAdjoining overlapBytes counts tail chunk) := by
  obtain ⟨first, begins, tiles⟩ := spansInside_extended inside adjoins
  have wholeEnd := tailEnd_extended adjoins
  have wholeData : (extended tail chunk).data = tail.data ++ chunk.data := rfl
  have scanStart : tail.baseOffset + (tail.data.length : Int) =
      chunk.streamOffset := adjoins.symm
  unfold mergeAdjoining
  simp only
  split
  case isTrue longChunk =>
    have kept := length_lastBytes overlapBytes chunk.data
    have keptEnd :
        chunk.streamEnd -
              ((lastBytes overlapBytes chunk.data).length : Int) +
            ((lastBytes overlapBytes chunk.data).length : Int) =
          chunk.streamEnd := sub_add_cancel _ _
    exact {
      scanned := ⟨tail.data, List.suffix_rfl, fun _ => adjoins.symm,
        fun _ => .inl rfl, rfl, scanStart⟩
      suffix :=
        (lastBytes_suffix overlapBytes chunk.data).trans
          (List.suffix_append _ _)
      tailEnd := keptEnd
      bounded := by
        change (lastBytes overlapBytes chunk.data).length ≤ _
        omega
      spans := by
        rw [← keptEnd] at tiles
        exact spansInside_replaceClipped tiles
    }
  case isFalse shortChunk =>
    rw [not_lt] at shortChunk
    split
    case isTrue tooLong =>
      have keptLength :
          ((extended tail chunk).data.drop
              ((extended tail chunk).data.length - overlapBytes)).length =
            overlapBytes := by
        rw [List.length_drop]
        omega
      have overflow_le :
          (extended tail chunk).data.length - overlapBytes ≤
            tail.data.length := by
        rw [wholeData, List.length_append]
        omega
      have keptEnd :
          (extended tail chunk).baseOffset +
                (((extended tail chunk).data.length - overlapBytes : Nat) :
                  Int) +
              (((extended tail chunk).data.drop
                ((extended tail chunk).data.length -
                  overlapBytes)).length : Int) =
            chunk.streamEnd := by
        rw [← wholeEnd, keptLength]
        unfold DirectionState.tailEnd
        omega
      refine {
        scanned := ?_
        suffix := List.suffix_rfl
        tailEnd := keptEnd
        bounded := ?_
        spans := ?_
      }
      · refine ⟨tail.data.drop
          ((extended tail chunk).data.length - overlapBytes),
          List.drop_suffix _ _, fun _ => adjoins.symm,
          fun _ => .inr keptLength, ?_, ?_⟩
        · exact List.drop_append_of_le_length overflow_le
        · rw [List.length_drop]
          simp only [replaceClipped]
          change tail.baseOffset + _ + _ = _
          omega
      · change ((extended tail chunk).data.drop _).length ≤ _
        omega
      · rw [← keptEnd] at tiles
        exact spansInside_replaceClipped tiles
    case isFalse shortEnough =>
      exact {
        scanned := ⟨tail.data, List.suffix_rfl, fun _ => adjoins.symm,
          fun _ => .inl rfl, rfl, scanStart⟩
        suffix := List.suffix_rfl
        tailEnd := wholeEnd
        bounded := not_lt.mp shortEnough
        spans := ⟨first, begins, by rw [← wholeEnd] at tiles; exact tiles⟩
      }

/-- A chunk that begins behind the tail, or where it ends. -/
theorem goesOn_mergeTail
    (counts : ProvenanceCounts)
    (inside : tail.data ≠ [] → tail.SpansInside)
    (ahead : tail.data ≠ [] → tail.tailEnd ≤ chunk.streamOffset)
    (nonempty : chunk.data ≠ []) :
    GoesOn overlapBytes tail chunk
      (mergeTail overlapBytes counts tail chunk) := by
  unfold mergeTail
  split
  case isTrue empty =>
    exact goesOn_mergeIsland counts (.inl (List.isEmpty_iff.mp empty))
  case isFalse notEmpty =>
    rw [List.isEmpty_iff] at notEmpty
    have isAhead := ahead notEmpty
    have longer : chunk.streamOffset < chunk.streamEnd := by
      have := List.length_pos_iff.mpr nonempty
      unfold StreamChunk.streamEnd
      omega
    rw [if_neg (by omega)]
    split
    case isTrue gap =>
      refine goesOn_mergeIsland counts (.inr ?_)
      have ordered := tail.base_le_tailEnd
      omega
    case isFalse noGap =>
      have adjoins : chunk.streamOffset = tail.tailEnd := by omega
      rw [if_pos adjoins]
      exact goesOn_mergeAdjoining counts (inside notEmpty) adjoins

end Merging

end Detector

end PacketAudit
