import PacketAudit.Library.Pieces
import PacketAudit.Http.WireSpans

namespace PacketAudit

open Library

/-!
# Form fields by splitting

The fields of a complete body as its pieces between `&` and `;` give them, and
that one pattern finds the same fields.
-/

/-! ## The reference -/

/-- `&` and `;`. -/
def isFormSeparator (byte : UInt8) : Bool :=
  byte = 38 || byte = 59

/-- The bytes of a piece before its first equals sign. -/
def pieceName (piece : Bytes) : Bytes :=
  piece.takeWhile fun byte => byte ≠ 61

/-- The bytes of a piece behind its first equals sign. -/
def pieceValue (piece : Bytes) : Bytes :=
  piece.drop ((pieceName piece).length + 1)

/-- The field of a piece at a position, if the piece is one. -/
def pieceField (placed : Nat × Bytes) : Option Field :=
  let name := pieceName placed.2
  let value := pieceValue placed.2
  if 61 ∈ placed.2 ∧ 1 ≤ name.length ∧ name.length ≤ 256 ∧
      value.length ≤ 8192 then
    some {
      name := unquotePlus (decodeReplace name)
      value := unquotePlus (decodeReplace value)
      encoded := decodeReplace value
      start := placed.1 + name.length + 1
      stop := placed.1 + name.length + 1 + value.length
    }
  else
    none

/-- The fields of the pieces, in order and at most 256. -/
def splitFormFields (data : Bytes) : List Field :=
  ((placedPieces isFormSeparator data).filterMap pieceField).take maxFields

/-! ## One piece -/

theorem isFormValueByte_eq (byte : UInt8) :
    isFormValueByte byte = !isFormSeparator byte := by
  simp [isFormValueByte, isFormSeparator]

theorem isFormNameByte_eq (byte : UInt8) :
    isFormNameByte byte = (decide (byte ≠ 61) && !isFormSeparator byte) := by
  simp [isFormNameByte, isFormSeparator, Bool.and_assoc]

/-- The pattern's name is that of the piece. -/
theorem takeWhile_isFormNameByte (rest : Bytes) :
    rest.takeWhile isFormNameByte =
      pieceName (firstPiece isFormSeparator rest) := by
  rw [pieceName, firstPiece, List.takeWhile_takeWhile]
  congr 1
  funext byte
  rw [isFormNameByte_eq]
  simp

/-- A piece and what follows it: nothing, or a separator. -/
structure PieceOf (rest piece behind : Bytes) : Prop where
  shape : rest = piece ++ behind
  noSeparator : ∀ byte ∈ piece, isFormSeparator byte = false
  separates : ∀ byte, behind[0]? = some byte → isFormSeparator byte = true

theorem pieceOf_firstPiece (rest : Bytes) :
    ∃ behind, PieceOf rest (firstPiece isFormSeparator rest) behind := by
  refine ⟨rest.dropWhile fun byte => !isFormSeparator byte, ?_, ?_, ?_⟩
  · rw [firstPiece, List.takeWhile_append_dropWhile]
  · intro byte member
    simpa using List.mem_takeWhile_imp member
  · intro byte isFirst
    have stops :=
      List.head?_dropWhile_not (fun byte => !isFormSeparator byte) rest
    rw [List.head?_eq_getElem?, isFirst] at stops
    simpa using stops

theorem pieceName_cons
    {byte : UInt8}
    (notEquals : byte ≠ 61)
    (rest : Bytes) :
    pieceName (byte :: rest) = byte :: pieceName rest :=
  List.takeWhile_cons_of_pos (by simpa using notEquals)

/-- A piece with an equals sign is its name and its value. -/
theorem pieceName_append_value
    {piece : Bytes}
    (hasEquals : 61 ∈ piece) :
    piece = pieceName piece ++ 61 :: pieceValue piece := by
  induction piece with
  | nil => cases hasEquals
  | cons byte rest inductionHypothesis =>
      by_cases isEquals : byte = 61
      · subst isEquals
        rfl
      · have inRest : 61 ∈ rest :=
          (List.mem_cons.mp hasEquals).resolve_left fun same =>
            isEquals same.symm
        have behind : pieceValue (byte :: rest) = pieceValue rest := by
          rw [pieceValue, pieceName_cons isEquals, List.length_cons,
            List.drop_succ_cons, pieceValue]
        rw [pieceName_cons isEquals, behind, List.cons_append,
          ← inductionHypothesis inRest]

theorem pieceName_of_not_mem
    {piece : Bytes}
    (noEquals : 61 ∉ piece) :
    pieceName piece = piece := by
  refine List.takeWhile_eq_self_iff.mpr ?_
  intro byte member
  rw [decide_eq_true_eq]
  rintro rfl
  exact noEquals member

/-- The pattern's value is that of the piece, cut off behind 8192 bytes. -/
theorem takeWhile_isFormValueByte
    {value behind : Bytes}
    (noSeparator : ∀ byte ∈ value, isFormSeparator byte = false)
    (separates :
      ∀ byte, behind[0]? = some byte → isFormSeparator byte = true) :
    (value ++ behind).takeWhile isFormValueByte = value := by
  have isValue : ∀ byte ∈ value, isFormValueByte byte = true := by
    intro byte member
    rw [isFormValueByte_eq, noSeparator byte member]
    rfl
  rw [List.takeWhile_append_of_pos isValue]
  cases behind with
  | nil => rw [List.takeWhile_nil, List.append_nil]
  | cons byte behind =>
      have stops : ¬isFormValueByte byte = true := by
        rw [isFormValueByte_eq, separates byte rfl]
        simp
      rw [List.takeWhile_cons_of_neg stops, List.append_nil]

section Piece

variable {data name value behind : Bytes} {start : Nat}
variable (shape : data.drop start = name ++ 61 :: (value ++ behind))

include shape

theorem getElem?_behindEquals (offset : Nat) :
    data[start + name.length + 1 + offset]? = (value ++ behind)[offset]? := by
  have inRest :
      data[start + (name.length + 1 + offset)]? =
        (name ++ 61 :: (value ++ behind))[name.length + 1 + offset]? := by
    rw [← shape, List.getElem?_drop]
  rw [Nat.add_assoc, Nat.add_assoc, ← Nat.add_assoc name.length, inRest,
    List.getElem?_append_right (by omega),
    show name.length + 1 + offset - name.length = offset + 1 by omega,
    List.getElem?_cons_succ]

theorem drop_behindEquals :
    data.drop (start + name.length + 1) = value ++ behind := by
  refine List.ext_getElem? fun offset => ?_
  rw [List.getElem?_drop]
  exact getElem?_behindEquals shape offset

/-- The groups of the pattern in a piece with an equals sign. -/
theorem formGroupsAt_piece
    (isName : (data.drop start).takeWhile isFormNameByte = name)
    (noSeparator : ∀ byte ∈ value, isFormSeparator byte = false)
    (separates :
      ∀ byte, behind[0]? = some byte → isFormSeparator byte = true) :
    formGroupsAt data start =
      if 1 ≤ name.length ∧ name.length ≤ 256 then
        some ⟨start, start + name.length + 1,
          start + name.length + 1 + min 8192 value.length⟩
      else
        none := by
  have isEquals : data[start + name.length]? = some 61 := by
    have inRest := congrArg (·[name.length]?) shape
    rwa [List.getElem?_drop, List.getElem?_append_right (Nat.le_refl _),
      Nat.sub_self, List.getElem?_cons_zero] at inRest
  simp only [formGroupsAt, isName, isEquals, and_true,
    drop_behindEquals shape,
    takeWhile_isFormValueByte noSeparator separates, List.length_take]

/-- The field of the groups, unless the value goes on behind them. -/
theorem formField_piece
    (noSeparator : ∀ byte ∈ value, isFormSeparator byte = false)
    (separates :
      ∀ byte, behind[0]? = some byte → isFormSeparator byte = true) :
    formField data true ⟨start, start + name.length + 1,
        start + name.length + 1 + min 8192 value.length⟩ =
      if value.length ≤ 8192 then
        some {
          name := unquotePlus (decodeReplace name)
          value := unquotePlus (decodeReplace value)
          encoded := decodeReplace value
          start := start + name.length + 1
          stop := start + name.length + 1 + value.length
        }
      else
        none := by
  have next := getElem?_behindEquals shape (min 8192 value.length)
  by_cases short : value.length ≤ 8192
  · rw [Nat.min_eq_right short, List.getElem?_append_right (Nat.le_refl _),
      Nat.sub_self] at next
    have ends :
        ¬(start + name.length + 1 + value.length < data.length ∧
          behind[0]? ≠ some 38 ∧ behind[0]? ≠ some 59) := by
      rintro ⟨inside, notAmpersand, notSemicolon⟩
      obtain ⟨byte, isByte⟩ :
          ∃ byte, data[start + name.length + 1 + value.length]? = some byte :=
        ⟨_, List.getElem?_eq_getElem inside⟩
      have isFirst := next.symm.trans isByte
      have isSeparator := separates byte isFirst
      rw [isFirst] at notAmpersand notSemicolon
      simp only [isFormSeparator, Bool.or_eq_true, decide_eq_true_eq]
        at isSeparator
      rcases isSeparator with rfl | rfl <;> contradiction
    have isName : data.extract start (start + name.length) = name := by
      rw [List.extract_eq_take_drop, shape, Nat.add_sub_cancel_left,
        List.take_left']
      rfl
    have isValue :
        data.extract (start + name.length + 1)
            (start + name.length + 1 + value.length) =
          value := by
      rw [List.extract_eq_take_drop, drop_behindEquals shape,
        Nat.add_sub_cancel_left, List.take_left']
      rfl
    simp only [formField, Nat.min_eq_right short, next, if_neg ends,
      Bool.true_eq_false, false_and, if_false, if_true,
      Nat.add_sub_cancel, isName, isValue, if_pos short]
  · have inValue : 8192 < value.length := by omega
    rw [Nat.min_eq_left inValue.le, List.getElem?_append_left inValue,
      List.getElem?_eq_getElem inValue] at next
    have inside := (List.getElem?_eq_some_iff.mp next).1
    have goesOn := noSeparator _ (List.getElem_mem inValue)
    simp only [isFormSeparator, Bool.or_eq_false_iff, decide_eq_false_iff_not]
      at goesOn
    rw [if_neg short, formField, Nat.min_eq_left inValue.le]
    simp only [next, ne_eq, Option.some.injEq]
    rw [if_pos ⟨inside, goesOn⟩]

end Piece

/-- The field of the pattern's groups is that of the piece. -/
theorem formGroupsAt_bind_formField
    (data : Bytes)
    (start : Nat) :
    (formGroupsAt data start).bind (formField data true) =
      pieceField (start, firstPiece isFormSeparator (data.drop start)) := by
  obtain ⟨behind, isPiece⟩ := pieceOf_firstPiece (data.drop start)
  have isName := takeWhile_isFormNameByte (data.drop start)
  generalize firstPiece isFormSeparator (data.drop start) = piece
    at isPiece isName ⊢
  by_cases hasEquals : 61 ∈ piece
  · have halves := pieceName_append_value hasEquals
    have shape := isPiece.shape
    rw [halves, List.append_assoc, List.cons_append] at shape
    have noSeparator :
        ∀ byte ∈ pieceValue piece, isFormSeparator byte = false :=
      fun byte member =>
        isPiece.noSeparator byte (List.mem_of_mem_drop member)
    rw [formGroupsAt_piece shape isName noSeparator isPiece.separates]
    by_cases named :
        1 ≤ (pieceName piece).length ∧ (pieceName piece).length ≤ 256
    · rw [if_pos named, Option.bind_some,
        formField_piece shape noSeparator isPiece.separates]
      simp [pieceField, hasEquals, named]
    · rw [if_neg named, Option.bind_none, pieceField, if_neg]
      rintro ⟨-, notEmpty, notLong, -⟩
      exact named ⟨notEmpty, notLong⟩
  · have isEquals : data[start + piece.length]? ≠ some 61 := by
      rw [← List.getElem?_drop, isPiece.shape,
        List.getElem?_append_right (Nat.le_refl _), Nat.sub_self]
      intro isEquals
      have separates := isPiece.separates 61 isEquals
      cases separates
    rw [pieceName_of_not_mem hasEquals] at isName
    rw [pieceField, if_neg (by simp [hasEquals]), formGroupsAt]
    simp only [isName]
    rw [if_neg (by simp [isEquals]), Option.bind_none]

/-! ## All pieces -/

/-- A match at a position ends behind it, and before the next separator. -/
structure FormMatch.Covers
    (data : Bytes)
    (position : Nat)
    (found : FormMatch) : Prop where
  after : position < found.stop
  inside : found.stop ≤ data.length
  noSeparator :
    ∀ index, position < index → index < found.stop →
      data[index]?.any isFormSeparator = false

/-- No match starts within what a match covers. -/
theorem FormMatch.Covers.formMatchAt_none
    {data : Bytes}
    {position index : Nat}
    {found : FormMatch}
    (covers : found.Covers data position)
    (behind : position < index)
    (before : index < found.stop) :
    formMatchAt data index = none := by
  have noSeparator := covers.noSeparator index behind before
  rw [formMatchAt, if_neg (by omega), Option.none_or, if_neg]
  rintro (isSeparator | isSeparator) <;>
    (rw [isSeparator] at noSeparator; cases noSeparator)

theorem any_of_lt_takeWhile
    (keeps : UInt8 → Bool)
    (noSeparator : ∀ byte, keeps byte = true → isFormSeparator byte = false)
    {rest : Bytes}
    {index : Nat}
    (within : index < (rest.takeWhile keeps).length) :
    rest[index]?.any isFormSeparator = false := by
  have isPrefix := List.takeWhile_prefix (l := rest) keeps
  have kept := List.mem_takeWhile_imp (List.getElem_mem within)
  rw [isPrefix.getElem within] at kept
  rw [List.getElem?_eq_getElem (Nat.lt_of_lt_of_le within isPrefix.length_le),
    Option.any_some]
  exact noSeparator _ kept

/-- The groups of the pattern hold no separator. -/
theorem formGroupsAt_covers
    {data : Bytes}
    {nameStart : Nat}
    {found : FormMatch}
    (isMatch : formGroupsAt data nameStart = some found) :
    nameStart < found.stop ∧ found.stop ≤ data.length ∧
      ∀ index, nameStart ≤ index → index < found.stop →
        data[index]?.any isFormSeparator = false := by
  have ofBody := formGroupsAt_of isMatch
  simp only [formGroupsAt] at isMatch
  split at isMatch
  case isFalse => cases isMatch
  case isTrue conditions =>
    obtain ⟨-, -, isEquals⟩ := conditions
    have inside := ofBody.inside
    cases isMatch
    refine ⟨by simp only; omega, inside, ?_⟩
    intro index fromStart before
    simp only [List.length_take] at before
    obtain ⟨offset, rfl⟩ := Nat.exists_eq_add_of_le fromStart
    rcases Nat.lt_trichotomy offset
        ((data.drop nameStart).takeWhile isFormNameByte).length with
      inName | rfl | behind
    · rw [← List.getElem?_drop]
      refine any_of_lt_takeWhile isFormNameByte (fun byte isName => ?_) inName
      rw [isFormNameByte_eq, Bool.and_eq_true, Bool.not_eq_true'] at isName
      exact isName.2
    · rw [isEquals]
      rfl
    · obtain ⟨later, rfl⟩ := Nat.exists_eq_add_of_lt behind
      rw [← Nat.add_assoc, ← Nat.add_assoc, Nat.add_right_comm _ later 1,
        ← List.getElem?_drop]
      refine any_of_lt_takeWhile isFormValueByte (fun byte isValue => ?_)
        (Nat.lt_of_lt_of_le (by omega) (Nat.min_le_right 8192 _))
      rw [isFormValueByte_eq, Bool.not_eq_true'] at isValue
      exact isValue

theorem formMatchAt_covers
    {data : Bytes}
    {position : Nat}
    {found : FormMatch}
    (isMatch : formMatchAt data position = some found) :
    found.Covers data position := by
  rw [formMatchAt, Option.or_eq_some_iff] at isMatch
  rcases isMatch with atStart | ⟨-, behindSeparator⟩
  · split at atStart
    case isFalse => cases atStart
    case isTrue isStart =>
      obtain ⟨after, inside, noSeparator⟩ := formGroupsAt_covers atStart
      subst isStart
      exact ⟨after, inside, fun index behind => noSeparator index behind.le⟩
  · split at behindSeparator
    case isFalse => cases behindSeparator
    case isTrue =>
      obtain ⟨after, inside, noSeparator⟩ :=
        formGroupsAt_covers behindSeparator
      exact ⟨by omega, inside, fun index behind => noSeparator index behind⟩

theorem formMatchesFrom_eq
    {data : Bytes}
    {rounds position : Nat}
    (enough : data.length - position ≤ rounds) :
    formMatchesFrom data rounds position =
      (List.range' position (data.length - position)).filterMap
        (formMatchAt data) := by
  induction rounds generalizing position with
  | zero =>
      rw [Nat.le_zero.mp enough]
      rfl
  | succ rounds inductionHypothesis =>
      rw [formMatchesFrom]
      split
      case h_1 nothing =>
        exact (List.filterMap_eq_nil_iff.mpr
          (List.findSome?_eq_none_iff.mp nothing)).symm
      case h_2 found isFirst =>
        obtain ⟨index, fromHere, -, isFound, all⟩ :=
          filterMap_range'_of_findSome? isFirst
        have covered := formMatchAt_covers isFound
        have after := covered.after
        rw [all, inductionHypothesis (by omega),
          filterMap_range'_skip _ (by omega : index + 1 ≤ found.stop)]
        intro earlier isBehind isBefore
        exact covered.formMatchAt_none isBehind isBefore

/-- A separator that the pattern starts at. -/
theorem any_isFormSeparator
    (data : Bytes)
    (index : Nat) :
    data[index]?.any isFormSeparator = true ↔
      data[index]? = some 38 ∨ data[index]? = some 59 := by
  cases data[index]? <;>
    simp [isFormSeparator]

/-- Behind the first byte the pattern starts at separators only. -/
theorem formMatchAt_bind_of_pos
    {index : Nat}
    (positive : 0 < index)
    (data : Bytes) :
    (formMatchAt data index).bind (formField data true) =
      (if data[index]?.any isFormSeparator then
        some (index + 1,
          firstPiece isFormSeparator (data.drop (index + 1)))
      else
        none).bind pieceField := by
  rw [formMatchAt, if_neg (by omega), Option.none_or]
  simp only [any_isFormSeparator]
  split
  · rw [Option.bind_some, formGroupsAt_bind_formField]
  · rfl

/-- At the first byte the pattern takes the first piece or the second. -/
theorem formMatchAt_zero_bind
    (byte : UInt8)
    (rest : Bytes) :
    ((formMatchAt (byte :: rest) 0).bind
        (formField (byte :: rest) true)).toList =
      (pieceField
          (0, firstPiece isFormSeparator (byte :: rest))).toList ++
        ((if (byte :: rest)[0]?.any isFormSeparator then
          some (0 + 1,
            firstPiece isFormSeparator ((byte :: rest).drop (0 + 1)))
        else
          none).bind pieceField).toList := by
  have first := formGroupsAt_bind_formField (byte :: rest) 0
  have second := formGroupsAt_bind_formField (byte :: rest) 1
  rw [List.drop_zero] at first
  rw [formMatchAt, if_pos rfl]
  by_cases separates : isFormSeparator byte = true
  · have noPiece : firstPiece isFormSeparator (byte :: rest) = [] := by
      rw [firstPiece_cons, if_pos separates]
    have noGroups : formGroupsAt (byte :: rest) 0 = none := by
      simp [formGroupsAt, isFormNameByte_eq, separates]
    have starts :
        (byte :: rest)[0]? = some 38 ∨ (byte :: rest)[0]? = some 59 :=
      (any_isFormSeparator _ _).mp separates
    rw [noGroups, Option.none_or, if_pos starts, second, noPiece]
    simp [separates, pieceField]
  · have starts :
        ¬((byte :: rest)[0]? = some 38 ∨ (byte :: rest)[0]? = some 59) :=
      fun isSeparator => separates ((any_isFormSeparator _ _).mpr isSeparator)
    rw [if_neg starts, Option.or_none, first]
    simp [separates]

/-- The pattern and the splitting give the same fields of a complete body. -/
theorem form_fields_eq_reference (data : Bytes) :
    formFields data true = splitFormFields data := by
  have behind := laterPieces_drop isFormSeparator data 0
  rw [List.drop_zero, Nat.sub_zero] at behind
  rw [formFields, formMatches, formMatchesFrom_eq (Nat.sub_le _ _),
    splitFormFields, placedPieces, placeFrom_splitOnP, behind, Nat.sub_zero]
  congr 1
  cases data with
  | nil => rfl
  | cons byte rest =>
      have tails :
          (List.range' (0 + 1) rest.length).filterMap (fun index =>
              (formMatchAt (byte :: rest) index).bind
                (formField (byte :: rest) true)) =
            (List.range' (0 + 1) rest.length).filterMap fun index =>
              (if (byte :: rest)[index]?.any isFormSeparator then
                some (index + 1,
                  firstPiece isFormSeparator
                    ((byte :: rest).drop (index + 1)))
              else
                none).bind pieceField :=
        List.filterMap_congr fun index member =>
          formMatchAt_bind_of_pos (List.mem_range'_1.mp member).1 _
      rw [List.filterMap_filterMap, List.length_cons, List.range'_succ]
      simp only [List.filterMap_eq_flatMap_toList, List.flatMap_cons]
        at tails ⊢
      rw [tails, formMatchAt_zero_bind, List.append_assoc]
      simp only [Option.toList_bind, List.flatMap_append, List.flatMap_assoc]
      rfl

end PacketAudit
