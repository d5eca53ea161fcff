import PacketAudit.Cleartext.Redis

namespace PacketAudit

/-!
# The Redis recognizer inverts the RESP encoding

Commands are encoded as arrays of length-prefixed bulk strings.  On any
concatenation of encoded commands `scan_redis` stops at the frame boundaries
and nowhere else, whatever bytes the arguments consist of, and reports each
command by what the command itself submits.
-/

open Library

/-! ## Encoding -/

/-- The decimal digits of a number. -/
def decimalText (value : Nat) : Bytes :=
  if value < 10 then
    [UInt8.ofNat (48 + value)]
  else
    decimalText (value / 10) ++ [UInt8.ofNat (48 + value % 10)]

/-- One argument as a bulk string. -/
def encodeArgument (argument : Bytes) : Bytes :=
  36 :: (decimalText argument.length ++ (crlf ++ (argument ++ crlf)))

/-- One command as an array of bulk strings. -/
def encodeCommand (arguments : List Bytes) : Bytes :=
  42 :: (decimalText arguments.length ++
    (crlf ++ arguments.flatMap encodeArgument))

/-- Commands sent one after another. -/
def encodeCommands (commands : List (List Bytes)) : Bytes :=
  commands.flatMap encodeCommand

/-! ## What a command submits -/

/-- No argument and not the whole frame is over its limit. -/
def InLimits (arguments : List Bytes) : Prop :=
  (∀ argument ∈ arguments, argument.length ≤ maxFieldBytes) ∧
    (encodeCommand arguments).length ≤ maxAuthMessageBytes

instance (arguments : List Bytes) : Decidable (InLimits arguments) :=
  inferInstanceAs (Decidable (_ ∧ _))

/-- The command's name, in any case, is this one. -/
def HasName (name : String) (arguments : List Bytes) : Prop :=
  arguments.head?.map upper = some (ascii name)

instance (name : String) (arguments : List Bytes) :
    Decidable (HasName name arguments) :=
  inferInstanceAs (Decidable (_ = _))

/-- The user and password of an AUTH command. -/
def authCredentials : List Bytes → Option (Bytes × Bytes)
  | [_, password] => some (ascii "default", password)
  | [_, username, password] => some (username, password)
  | _ => none

/-- The user and password in the options of a HELLO command. -/
def helloCredentials : List Bytes → Option (Bytes × Bytes)
  | [auth, username, password] =>
      if upper auth = ascii "AUTH" then some (username, password) else none
  | [first, second, third, fourth, fifth] =>
      if upper first = ascii "AUTH" ∧ upper fourth = ascii "SETNAME" then
        some (second, third)
      else if upper first = ascii "SETNAME" ∧ upper third = ascii "AUTH" then
        some (fourth, fifth)
      else
        none
  | _ => none

/-- The user and password a command submits. -/
def submittedCredentials (arguments : List Bytes) : Option (Bytes × Bytes) :=
  if HasName "AUTH" arguments then
    authCredentials arguments
  else if HasName "HELLO" arguments then
    match arguments with
    | _ :: version :: options =>
        if version = ascii "2" ∨ version = ascii "3" then
          helloCredentials options
        else
          none
    | _ => none
  else
    none

/-- The records of a command whose frame starts at this position. -/
def commandRecords
    (start : Nat)
    (arguments : List Bytes) : List CleartextRecord :=
  let stop := start + (encodeCommand arguments).length
  if InLimits arguments then
    match submittedCredentials arguments with
    | some (username, password) => [{
        start, stop
        material :=
          .redisAuth
            (if HasName "AUTH" arguments then "AUTH" else "HELLO AUTH")
            (cleartextValue username) (cleartextValue password) }]
    | none =>
        if HasName "AUTH" arguments then
          [coverageRecord start stop "redis" "redis_auth_invalid_arguments"]
        else
          []
  else if HasName "AUTH" arguments ∨ HasName "HELLO" arguments then
    [coverageRecord start stop "redis" "redis_auth_field_or_message_limit"]
  else
    []

/-- The records of commands sent one after another. -/
def expectedRecords
    (start : Nat) :
    List (List Bytes) → List CleartextRecord
  | [] => []
  | arguments :: rest =>
      commandRecords start arguments ++
        expectedRecords (start + (encodeCommand arguments).length) rest

/-! ## Decimal lines -/

theorem digit_toNat
    {digit : Nat}
    (small : digit < 10) :
    (UInt8.ofNat (48 + digit)).toNat = 48 + digit := by
  rw [UInt8.toNat_ofNat']
  omega

theorem isDigit_iff
    {byte : UInt8} :
    isDigit byte = true ↔ 48 ≤ byte.toNat ∧ byte.toNat ≤ 57 := by
  simp [isDigit, UInt8.le_iff_toNat_le]

theorem decimalText_ne_nil (value : Nat) : decimalText value ≠ [] := by
  unfold decimalText
  split <;> simp

theorem isDigit_of_mem_decimalText
    (value : Nat)
    {byte : UInt8}
    (member : byte ∈ decimalText value) :
    isDigit byte = true := by
  induction value using decimalText.induct with
  | case1 value small =>
      rw [decimalText, if_pos small, List.mem_singleton] at member
      rw [member, isDigit_iff, digit_toNat small]
      omega
  | case2 value large inductionHypothesis =>
      rw [decimalText, if_neg large, List.mem_append] at member
      rcases member with inFront | isLast
      · exact inductionHypothesis inFront
      · rw [List.mem_singleton.mp isLast, isDigit_iff,
          digit_toNat (Nat.mod_lt _ (by omega))]
        omega

theorem decimalValue_decimalText (value : Nat) :
    decimalValue (decimalText value) = value := by
  induction value using decimalText.induct with
  | case1 value small =>
      rw [decimalText, if_pos small]
      simp only [decimalValue, List.foldl_cons, List.foldl_nil,
        digit_toNat small]
      omega
  | case2 value large inductionHypothesis =>
      rw [decimalText, if_neg large]
      unfold decimalValue at inductionHypothesis ⊢
      rw [List.foldl_append, inductionHypothesis]
      simp only [List.foldl_cons, List.foldl_nil,
        digit_toNat (Nat.mod_lt value (by omega))]
      omega

theorem length_decimalText_le
    {count value : Nat}
    (small : value < 10 ^ (count + 1)) :
    (decimalText value).length ≤ count + 1 := by
  induction count generalizing value with
  | zero =>
      rw [decimalText, if_pos (by simpa using small)]
      simp
  | succ count inductionHypothesis =>
      rw [decimalText]
      split
      · simp
      · have shorter : value / 10 < 10 ^ (count + 1) := by
          rw [Nat.div_lt_iff_lt_mul (by omega), ← Nat.pow_succ]
          exact small
        have := inductionHypothesis shorter
        simp only [List.length_append, List.length_singleton]
        omega

/-- An occurrence of CRLF starts with a carriage return. -/
theorem getElem?_of_occursAt_crlf
    {data : Bytes}
    {index : Nat}
    (occurs : OccursAt crlf data index) :
    data[index]? = some 13 := by
  have first := congrArg (·[0]?) occurs
  simp only [crlf, List.length_cons, List.length_nil,
    List.extract_eq_take_drop, List.getElem?_cons_zero] at first
  rw [List.getElem?_take_of_lt (by omega), List.getElem?_drop,
    Nat.add_zero] at first
  exact first

/-- The decimal line written for a number reads back as the number. -/
theorem decimalLine_decimalText
    (front rest : Bytes)
    {value : Nat}
    (small : value < 10 ^ 10) :
    decimalLine (front ++ (decimalText value ++ (crlf ++ rest)))
        front.length =
      some (value, front.length + (decimalText value).length + 2) := by
  have short : (decimalText value).length ≤ 10 :=
    length_decimalText_le small
  have found :
      findSub crlf (front ++ (decimalText value ++ (crlf ++ rest)))
          front.length (front.length + 13) =
        some (front.length + (decimalText value).length) := by
    rw [findSub_eq_some]
    refine ⟨⟨by omega, ?_⟩, ?_, ?_⟩
    · simp only [List.length_append, crlf, List.length_cons,
        List.length_nil]
      omega
    · have behind :=
        occursAt_append_front crlf (decimalText value) (crlf ++ rest) 0
      rw [occursAt_append_front]
      apply behind.mpr
      simp [OccursAt, List.extract_eq_take_drop]
    · intro earlier fromFront before occurs
      obtain ⟨offset, rfl⟩ := Nat.exists_eq_add_of_le fromFront
      have inside : offset < (decimalText value).length := by omega
      have carriageReturn := getElem?_of_occursAt_crlf occurs
      rw [List.getElem?_append_right (by omega),
        Nat.add_sub_cancel_left, List.getElem?_append_left inside]
        at carriageReturn
      have digit :=
        isDigit_of_mem_decimalText value
          (List.mem_of_getElem? carriageReturn)
      simp [isDigit] at digit
  unfold decimalLine
  rw [found]
  dsimp only
  rw [extract_append_front front (decimalText value) (crlf ++ rest) rfl rfl]
  have digits : (decimalText value).all isDigit = true :=
    List.all_eq_true.mpr fun byte member =>
      isDigit_of_mem_decimalText value member
  have accepted :
      ¬ ((decimalText value).isEmpty ∨ 10 < (decimalText value).length ∨
        ¬ (decimalText value).all isDigit) := by
    simp only [List.isEmpty_iff, decimalText_ne_nil, digits, not_true,
      or_false, false_or]
    omega
  rw [if_neg accepted, decimalValue_decimalText]

/-! ## Frames -/

theorem length_encodeArgument (argument : Bytes) :
    (encodeArgument argument).length =
      (decimalText argument.length).length + argument.length + 5 := by
  simp only [encodeArgument, crlf, List.length_cons, List.length_append,
    List.length_nil]
  omega

/-- One argument of an encoded command, read where it starts. -/
theorem respArguments_encodeArgument
    (front argument rest : Bytes)
    (small : argument.length < 10 ^ 10)
    (start remaining : Nat)
    (first : Bool)
    (arguments : Option (List Bytes))
    (knownAuthCommand : Bool) :
    let stop := front.length + (encodeArgument argument).length
    respArguments (front ++ (encodeArgument argument ++ rest)) start
        (remaining + 1) front.length first arguments knownAuthCommand =
      respArguments (front ++ (encodeArgument argument ++ rest)) start
        remaining stop false
        (if maxFieldBytes < argument.length ∨
            maxAuthMessageBytes < stop - start then
          none
        else
          arguments.map (· ++ [argument]))
        (if first ∧ argument.length ≤ 5 then isAuthCommand argument
          else knownAuthCommand) := by
  intro stop
  have stopIs :
      stop =
        front.length + 1 + (decimalText argument.length).length + 2 +
          argument.length + 2 := by
    have := length_encodeArgument argument
    omega
  have dollar :
      (front ++ (encodeArgument argument ++ rest))[front.length]? =
        some 36 :=
    getElem?_append_front front 36 _ rfl
  have line :
      decimalLine (front ++ (encodeArgument argument ++ rest))
          (front.length + 1) =
        some (argument.length,
          front.length + 1 + (decimalText argument.length).length + 2) := by
    have read :=
      decimalLine_decimalText (front ++ [36])
        (argument ++ (crlf ++ rest)) small
    simpa [encodeArgument] using read
  have value :
      (front ++ (encodeArgument argument ++ rest)).extract
          (front.length + 1 + (decimalText argument.length).length + 2)
          (front.length + 1 + (decimalText argument.length).length + 2 +
            argument.length) =
        argument := by
    have read :=
      extract_append_front
        (front ++ 36 :: (decimalText argument.length ++ crlf))
        argument (crlf ++ rest)
        (show
          front.length + 1 + (decimalText argument.length).length + 2 =
            (front ++ 36 :: (decimalText argument.length ++ crlf)).length by
          simp [crlf]
          omega)
        (show
          front.length + 1 + (decimalText argument.length).length + 2 +
              argument.length =
            (front ++ 36 :: (decimalText argument.length ++ crlf)).length +
              argument.length by
          simp [crlf]
          omega)
    simpa [encodeArgument] using read
  have terminator :
      (front ++ (encodeArgument argument ++ rest)).extract
          (front.length + 1 + (decimalText argument.length).length + 2 +
            argument.length)
          (front.length + 1 + (decimalText argument.length).length + 2 +
            argument.length + 2) =
        crlf := by
    have read :=
      extract_append_front
        (front ++ 36 :: (decimalText argument.length ++ (crlf ++ argument)))
        crlf rest
        (show
          front.length + 1 + (decimalText argument.length).length + 2 +
              argument.length =
            (front ++ 36 ::
              (decimalText argument.length ++ (crlf ++ argument))).length by
          simp [crlf]
          omega)
        (show
          front.length + 1 + (decimalText argument.length).length + 2 +
              argument.length + 2 =
            (front ++ 36 ::
              (decimalText argument.length ++ (crlf ++ argument))).length +
              crlf.length by
          simp [crlf]
          omega)
    simpa [encodeArgument] using read
  have long :
      ¬ (front ++ (encodeArgument argument ++ rest)).length <
        front.length + 1 + (decimalText argument.length).length + 2 +
          argument.length + 2 := by
    simp only [List.length_append, length_encodeArgument]
    omega
  rw [respArguments, if_neg (by simp [dollar]), line]
  dsimp only
  rw [terminator, value, if_neg (by simpa using long), ← stopIs]

/-- The rest of an encoded command, with its first argument read. -/
theorem respArguments_encoded
    (rest : Bytes)
    {remaining : List Bytes}
    (small : ∀ argument ∈ remaining, argument.length < 10 ^ 10)
    (front : Bytes)
    {start : Nat}
    (startsBefore : start ≤ front.length)
    (arguments : Option (List Bytes))
    (inLimitSoFar :
      arguments.isSome → front.length - start ≤ maxAuthMessageBytes)
    (knownAuthCommand : Bool) :
    let stop :=
      front.length + (remaining.flatMap encodeArgument).length
    let kept :=
      if (∀ argument ∈ remaining, argument.length ≤ maxFieldBytes) ∧
          stop - start ≤ maxAuthMessageBytes then
        arguments.map (· ++ remaining)
      else
        none
    respArguments (front ++ (remaining.flatMap encodeArgument ++ rest))
        start remaining.length front.length false arguments
        knownAuthCommand =
      some ⟨stop, kept, knownAuthCommand && kept.isNone⟩ := by
  induction remaining generalizing front arguments with
  | nil =>
      intro stop kept
      have sameKept : kept = arguments := by
        cases arguments with
        | none => simp [kept]
        | some arguments =>
            have short : front.length - start ≤ maxAuthMessageBytes :=
              inLimitSoFar rfl
            simp [kept, stop, short]
      simp [respArguments, sameKept, stop]
  | cons argument remaining inductionHypothesis =>
      intro stop kept
      have shape :
          front ++ ((argument :: remaining).flatMap encodeArgument ++ rest) =
            front ++ (encodeArgument argument ++
              (remaining.flatMap encodeArgument ++ rest)) := by
        simp
      have reshape :
          front ++ (encodeArgument argument ++
              (remaining.flatMap encodeArgument ++ rest)) =
            (front ++ encodeArgument argument) ++
              (remaining.flatMap encodeArgument ++ rest) := by
        simp
      have newFront :
          (front ++ encodeArgument argument).length =
            front.length + (encodeArgument argument).length := by
        simp
      have next :=
        respArguments_encodeArgument front argument
          (remaining.flatMap encodeArgument ++ rest)
          (small argument List.mem_cons_self) start remaining.length false
          arguments knownAuthCommand
      dsimp only at next
      rw [shape, List.length_cons, next, reshape, ← newFront]
      simp only [Bool.false_eq_true, false_and, ↓reduceIte]
      rw [inductionHypothesis
        (fun later member => small later (List.mem_cons_of_mem _ member))
        (front ++ encodeArgument argument)
        (by rw [newFront]; omega)]
      · have sameStop :
            (front ++ encodeArgument argument).length +
                (remaining.flatMap encodeArgument).length =
              stop := by
          simp [stop, Nat.add_assoc]
        have later :
            (front ++ encodeArgument argument).length ≤ stop := by
          omega
        rw [sameStop]
        have sameKept :
            (if (∀ argument ∈ remaining, argument.length ≤ maxFieldBytes) ∧
                stop - start ≤ maxAuthMessageBytes then
              (if maxFieldBytes < argument.length ∨
                  maxAuthMessageBytes <
                    (front ++ encodeArgument argument).length - start then
                none
              else
                arguments.map (· ++ [argument])).map (· ++ remaining)
            else
              none) = kept := by
          simp only [kept, List.forall_mem_cons]
          by_cases fits :
              (∀ argument ∈ remaining, argument.length ≤ maxFieldBytes) ∧
                stop - start ≤ maxAuthMessageBytes
          · by_cases short : argument.length ≤ maxFieldBytes
            · rw [if_pos fits, if_neg (by omega), if_pos (by tauto)]
              cases arguments <;> simp
            · rw [if_pos fits, if_pos (by omega),
                if_neg (fun all => short all.1.1)]
              rfl
          · rw [if_neg fits, if_neg (fun all => fits ⟨all.1.2, all.2⟩)]
        rw [sameKept]
      · split
        · simp
        · intro _
          omega

/-- The flag of the first argument: AUTH and HELLO have at most 5 letters. -/
theorem knownAuthCommand_iff
    (name : Bytes)
    (rest : List Bytes) :
    (if name.length ≤ 5 then isAuthCommand name else false) =
      decide (HasName "AUTH" (name :: rest) ∨
        HasName "HELLO" (name :: rest)) := by
  unfold HasName isAuthCommand
  simp only [List.head?_cons, Option.map_some, Option.some.injEq]
  split
  · rfl
  case isFalse long =>
    symm
    rw [decide_eq_false_iff_not]
    have sameLength : (upper name).length = name.length := by
      simp [upper]
    rintro (isAuth | isHello)
    · rw [isAuth] at sameLength
      exact long (by rw [← sameLength]; decide)
    · rw [isHello] at sameLength
      exact long (by rw [← sameLength]; decide)

/-- An encoded command parses to its arguments, up to its end. -/
theorem respCommand_encodeCommand
    (front rest : Bytes)
    {arguments : List Bytes}
    (nonempty : 1 ≤ arguments.length)
    (few : arguments.length ≤ maxRespArguments)
    (small : ∀ argument ∈ arguments, argument.length < 10 ^ 10) :
    respCommand (front ++ (encodeCommand arguments ++ rest)) front.length =
      some {
        cursor := front.length + (encodeCommand arguments).length
        arguments := if InLimits arguments then some arguments else none
        authLimit :=
          decide
            (¬ InLimits arguments ∧
              (HasName "AUTH" arguments ∨ HasName "HELLO" arguments)) } := by
  have fewer : arguments.length < 10 ^ 10 := by
    unfold maxRespArguments at few
    omega
  have line :
      decimalLine (front ++ (encodeCommand arguments ++ rest))
          (front.length + 1) =
        some (arguments.length,
          front.length + 1 + (decimalText arguments.length).length + 2) := by
    have read :=
      decimalLine_decimalText (front ++ [42])
        (arguments.flatMap encodeArgument ++ rest) fewer
    simpa [encodeCommand] using read
  unfold respCommand
  rw [line]
  dsimp only
  rw [if_neg (by simp [nonempty, few])]
  -- The frame's head becomes part of what lies before the first argument.
  have head :
      front ++ (encodeCommand arguments ++ rest) =
        (front ++ 42 :: (decimalText arguments.length ++ crlf)) ++
          (arguments.flatMap encodeArgument ++ rest) := by
    simp [encodeCommand]
  have headLength :
      front.length + 1 + (decimalText arguments.length).length + 2 =
        (front ++ 42 :: (decimalText arguments.length ++ crlf)).length := by
    simp only [List.length_append, List.length_cons, crlf, List.length_nil]
    omega
  have startsBefore :
      front.length ≤
        (front ++ 42 :: (decimalText arguments.length ++ crlf)).length := by
    simp
  have stop :
      (front ++ 42 :: (decimalText arguments.length ++ crlf)).length +
          (arguments.flatMap encodeArgument).length =
        front.length + (encodeCommand arguments).length := by
    simp only [encodeCommand, List.length_append, List.length_cons]
    omega
  rw [head, headLength]
  generalize front ++ 42 :: (decimalText arguments.length ++ crlf) = header
    at startsBefore stop
  cases arguments with
  | nil => simp at nonempty
  | cons name others =>
      have first :=
        respArguments_encodeArgument header name
          (others.flatMap encodeArgument ++ rest)
          (small name List.mem_cons_self) front.length others.length true
          (some []) false
      have afterFirst :
          header ++ (encodeArgument name ++
              (others.flatMap encodeArgument ++ rest)) =
            (header ++ encodeArgument name) ++
              (others.flatMap encodeArgument ++ rest) := by
        simp
      have newHeader :
          (header ++ encodeArgument name).length =
            header.length + (encodeArgument name).length := by
        simp
      have sameStop :
          (header ++ encodeArgument name).length +
              (others.flatMap encodeArgument).length =
            front.length + (encodeCommand (name :: others)).length := by
        rw [← stop, newHeader, List.flatMap_cons, List.length_append]
        omega
      dsimp only at first
      rw [List.flatMap_cons, List.append_assoc, List.length_cons, first,
        afterFirst, ← newHeader]
      simp only [true_and, Option.map_some, List.nil_append]
      rw [knownAuthCommand_iff name others]
      have soFar :
          ((if maxFieldBytes < name.length ∨
              maxAuthMessageBytes <
                (header ++ encodeArgument name).length - front.length then
            none
          else
            some [name] : Option (List Bytes))).isSome →
            (header ++ encodeArgument name).length - front.length ≤
              maxAuthMessageBytes := by
        split
        · simp
        · intro _
          omega
      have reached :=
        respArguments_encoded rest
          (fun later member => small later (List.mem_cons_of_mem _ member))
          (header ++ encodeArgument name)
          (show front.length ≤ (header ++ encodeArgument name).length by
            rw [newHeader]
            omega)
          _ soFar
          (decide (HasName "AUTH" (name :: others) ∨
            HasName "HELLO" (name :: others)))
      dsimp only at reached
      rw [reached, sameStop]
      have kept :
          (if (∀ argument ∈ others, argument.length ≤ maxFieldBytes) ∧
              front.length + (encodeCommand (name :: others)).length -
                  front.length ≤
                maxAuthMessageBytes then
            (if maxFieldBytes < name.length ∨
                maxAuthMessageBytes <
                  (header ++ encodeArgument name).length - front.length then
              none
            else
              some [name]).map (· ++ others)
          else
            none) =
            if InLimits (name :: others) then some (name :: others)
            else none := by
        unfold InLimits
        rw [Nat.add_sub_cancel_left]
        simp only [List.forall_mem_cons]
        by_cases othersShort :
            ∀ argument ∈ others, argument.length ≤ maxFieldBytes
        · by_cases frameShort :
              (encodeCommand (name :: others)).length ≤ maxAuthMessageBytes
          · by_cases nameShort : name.length ≤ maxFieldBytes
            · rw [if_pos ⟨othersShort, frameShort⟩, if_neg (by omega),
                if_pos ⟨⟨nameShort, othersShort⟩, frameShort⟩]
              rfl
            · rw [if_pos ⟨othersShort, frameShort⟩, if_pos (by omega),
                if_neg fun all => nameShort all.1.1]
              rfl
          · rw [if_neg fun all => frameShort all.2,
              if_neg fun all => frameShort all.2]
        · rw [if_neg fun all => othersShort all.1,
            if_neg fun all => othersShort all.1.2]
      rw [kept]
      congr 2
      by_cases inLimits : InLimits (name :: others)
      · simp [inLimits]
      · simp [inLimits]

/-! ## Interpretation -/

theorem auth_ne_setname
    {option : Bytes}
    (isSetname : upper option = ascii "SETNAME") :
    upper option ≠ ascii "AUTH" := by
  rw [isSetname]
  decide

/-- An option that is neither AUTH nor SETNAME ends the loop. -/
theorem helloOptions_unknown
    {option : Bytes}
    (notAuth : upper option ≠ ascii "AUTH")
    (notSetname : upper option ≠ ascii "SETNAME")
    (rest : List Bytes)
    (credentials : Option (Bytes × Bytes))
    (setnameSeen : Bool) :
    helloOptions (option :: rest) credentials setnameSeen = none := by
  rw [helloOptions_cons, if_neg fun accepted => notAuth accepted.1,
    if_neg fun accepted => notSetname accepted.1]

/-- An AUTH option takes the user and the password after it. -/
theorem helloOptions_auth
    {option : Bytes}
    (isAuth : upper option = ascii "AUTH")
    (username password : Bytes)
    (rest : List Bytes)
    (setnameSeen : Bool) :
    helloOptions (option :: username :: password :: rest) none setnameSeen =
      helloOptions rest (some (username, password)) setnameSeen := by
  rw [helloOptions_cons, if_pos]
  exact ⟨isAuth, by simp, rfl⟩

/-- A SETNAME option takes the name after it. -/
theorem helloOptions_setname
    {option : Bytes}
    (isSetname : upper option = ascii "SETNAME")
    (name : Bytes)
    (rest : List Bytes)
    (credentials : Option (Bytes × Bytes)) :
    helloOptions (option :: name :: rest) credentials false =
      helloOptions rest credentials true := by
  rw [helloOptions_cons,
    if_neg fun accepted => auth_ne_setname isSetname accepted.1,
    if_pos ⟨isSetname, by simp, by simp⟩]

/-- After both kinds of options only the end may follow. -/
theorem helloOptions_of_both
    (options : List Bytes)
    (credentials : Bytes × Bytes) :
    helloOptions options (some credentials) true =
      if options = [] then some (some credentials) else none := by
  cases options with
  | nil => rfl
  | cons option rest =>
      rw [helloOptions_cons]
      simp

/-- After the credentials only one SETNAME option may follow. -/
theorem helloOptions_of_credentials
    (options : List Bytes)
    (credentials : Bytes × Bytes) :
    (helloOptions options (some credentials) false).join =
      match options with
      | [] => some credentials
      | [first, _] =>
          if upper first = ascii "SETNAME" then some credentials else none
      | _ => none := by
  match options with
  | [] => rfl
  | [first] => simp [helloOptions_cons]
  | [first, second] =>
      by_cases isSetname : upper first = ascii "SETNAME"
      · rw [helloOptions_setname isSetname, helloOptions_of_both]
        simp [isSetname]
      · simp [helloOptions_cons, isSetname]
  | first :: second :: third :: rest =>
      by_cases isSetname : upper first = ascii "SETNAME"
      · rw [helloOptions_setname isSetname, helloOptions_of_both]
        simp
      · simp [helloOptions_cons, isSetname]

/-- After a SETNAME option only one AUTH option may follow. -/
theorem helloOptions_of_setname (options : List Bytes) :
    (helloOptions options none true).join =
      match options with
      | [auth, username, password] =>
          if upper auth = ascii "AUTH" then some (username, password)
          else none
      | _ => none := by
  match options with
  | [] => rfl
  | [first] => simp [helloOptions_cons]
  | [first, second] => simp [helloOptions_cons]
  | first :: second :: third :: rest =>
      by_cases isAuth : upper first = ascii "AUTH"
      · rw [helloOptions_auth isAuth, helloOptions_of_both]
        cases rest <;> simp [isAuth]
      · cases rest <;> simp [helloOptions_cons, isAuth]

theorem helloCredentials_five (first second third fourth fifth : Bytes) :
    helloCredentials [first, second, third, fourth, fifth] =
      if upper first = ascii "AUTH" ∧ upper fourth = ascii "SETNAME" then
        some (second, third)
      else if upper first = ascii "SETNAME" ∧ upper third = ascii "AUTH" then
        some (fourth, fifth)
      else
        none := rfl

/-- The option loop finds the credentials the options spell out. -/
theorem join_helloOptions (options : List Bytes) :
    (helloOptions options none false).join = helloCredentials options := by
  match options with
  | [] => rfl
  | [first] => simp [helloOptions_cons, helloCredentials]
  | [first, second] =>
      by_cases isSetname : upper first = ascii "SETNAME"
      · rw [helloOptions_setname isSetname]
        rfl
      · simp [helloOptions_cons, helloCredentials, isSetname]
  | first :: second :: third :: rest =>
      by_cases isAuth : upper first = ascii "AUTH"
      · have notSetname : upper first ≠ ascii "SETNAME" := fun isSetname =>
          auth_ne_setname isSetname isAuth
        rw [helloOptions_auth isAuth, helloOptions_of_credentials]
        match rest with
        | [] => simp [helloCredentials, isAuth]
        | [fourth] => rfl
        | [fourth, fifth] =>
            rw [helloCredentials_five]
            by_cases follows : upper fourth = ascii "SETNAME"
            · simp [isAuth, follows]
            · rw [if_neg fun both => follows both.2,
                if_neg fun both => notSetname both.1]
              simp [follows]
        | _ :: _ :: _ :: _ => rfl
      · by_cases isSetname : upper first = ascii "SETNAME"
        · rw [helloOptions_setname isSetname, helloOptions_of_setname]
          match rest with
          | [] => simp [helloCredentials, isAuth]
          | [fourth] => rfl
          | [fourth, fifth] =>
              rw [helloCredentials_five, if_neg fun both => isAuth both.1]
              simp [isSetname]
          | _ :: _ :: _ :: _ => rfl
        · rw [helloOptions_unknown isAuth isSetname]
          match rest with
          | [] => simp [helloCredentials, isAuth]
          | [fourth] => rfl
          | [fourth, fifth] => simp [helloCredentials, isAuth, isSetname]
          | _ :: _ :: _ :: _ => rfl

theorem hello_ne_auth
    {name : Bytes}
    (isHello : upper name = ascii "HELLO") :
    upper name ≠ ascii "AUTH" := by
  rw [isHello]
  decide

theorem hasName_cons
    {name : String}
    {first : Bytes}
    {rest : List Bytes} :
    HasName name (first :: rest) ↔ upper first = ascii name := by
  simp [HasName]

/-- Fewer than three options of a HELLO command submit nothing. -/
theorem helloCredentials_of_short
    {options : List Bytes}
    (short : options.length < 3) :
    helloCredentials options = none := by
  match options with
  | [] => rfl
  | [_] => rfl
  | [_, _] => rfl
  | _ :: _ :: _ :: _ =>
      simp only [List.length_cons] at short
      omega

/-- `_redis_material` reports exactly the credentials a command submits. -/
theorem redisMaterial_eq (arguments : List Bytes) :
    redisMaterial arguments =
      (submittedCredentials arguments).map fun (username, password) =>
        .redisAuth
          (if HasName "AUTH" arguments then "AUTH" else "HELLO AUTH")
          (cleartextValue username) (cleartextValue password) := by
  cases arguments with
  | nil => simp [redisMaterial, submittedCredentials, HasName]
  | cons name rest =>
      unfold redisMaterial submittedCredentials
      simp only [hasName_cons]
      congr 1
      by_cases isAuth : upper name = ascii "AUTH"
      · have notHello : upper name ≠ ascii "HELLO" := fun isHello =>
          hello_ne_auth isHello isAuth
        rw [if_pos isAuth]
        match rest with
        | [] => simp [authCredentials, notHello]
        | [_] => simp [authCredentials, isAuth]
        | [_, _] => simp [authCredentials, isAuth]
        | _ :: _ :: _ :: _ => simp [authCredentials, notHello]
      · rw [if_neg fun both => isAuth both.1, if_neg isAuth]
        by_cases isHello : upper name = ascii "HELLO"
        · rw [if_pos isHello]
          match rest with
          | [] => simp
          | version :: options =>
              simp only [isHello, true_and, List.length_cons]
              by_cases long : 5 ≤ options.length + 1 + 1
              · rw [if_pos long, join_helloOptions]
              · rw [if_neg long, helloCredentials_of_short (by omega)]
                simp
        · rw [if_neg fun both => isHello both.1, if_neg isHello]

/-! ## The whole stream -/

/-- One encoded command is one round of the scan. -/
theorem redisFrame_encodeCommand
    (front rest : Bytes)
    {arguments : List Bytes}
    (nonempty : 1 ≤ arguments.length)
    (few : arguments.length ≤ maxRespArguments)
    (small : ∀ argument ∈ arguments, argument.length < 10 ^ 10) :
    redisFrame (front ++ (encodeCommand arguments ++ rest)) front.length =
      some (commandRecords front.length arguments,
        front.length + (encodeCommand arguments).length) := by
  have star :
      (front ++ (encodeCommand arguments ++ rest))[front.length]? =
        some 42 :=
    getElem?_append_front front 42 _ rfl
  unfold redisFrame
  rw [star]
  simp only [↓reduceIte]
  rw [respCommand_encodeCommand front rest nonempty few small]
  simp only [Option.map_some, Option.some.injEq, Prod.mk.injEq, and_true]
  unfold commandRecords
  dsimp only
  by_cases inLimits : InLimits arguments
  · simp only [inLimits, not_true, false_and, decide_false,
      Bool.false_eq_true, ↓reduceIte, List.nil_append, argumentRecords]
    rw [redisMaterial_eq]
    cases submittedCredentials arguments with
    | some credentials => rfl
    | none =>
        simp only [Option.map_none]
        have sameName :
            (arguments.head?.any fun name =>
                decide (upper name = ascii "AUTH")) =
              decide (HasName "AUTH" arguments) := by
          cases arguments with
          | nil => simp at nonempty
          | cons name others => simp [hasName_cons]
        rw [sameName]
        simp
  · by_cases isAuth :
        HasName "AUTH" arguments ∨ HasName "HELLO" arguments
    · simp [inLimits, isAuth, argumentRecords]
    · simp [inLimits, isAuth, argumentRecords]

theorem length_le_encodeCommands (commands : List (List Bytes)) :
    commands.length ≤ (encodeCommands commands).length := by
  induction commands with
  | nil =>
      simp [encodeCommands]
  | cons arguments rest inductionHypothesis =>
      simp only [encodeCommands, List.flatMap_cons, List.length_append,
        List.length_cons, encodeCommand] at inductionHypothesis ⊢
      omega

/-- The scan of encoded commands from the boundary of one of them on. -/
theorem scanRedisFrom_encodeCommands
    {commands : List (List Bytes)}
    (wellFormed :
      ∀ arguments ∈ commands,
        1 ≤ arguments.length ∧ arguments.length ≤ maxRespArguments ∧
          ∀ argument ∈ arguments, argument.length < 10 ^ 10)
    (front : Bytes)
    {rounds : Nat}
    (enough : commands.length ≤ rounds) :
    scanRedisFrom (front ++ encodeCommands commands) rounds front.length =
      (expectedRecords front.length commands,
        (front ++ encodeCommands commands).length) := by
  induction commands generalizing front rounds with
  | nil =>
      have atEnd : (front ++ encodeCommands [])[front.length]? = none := by
        simp [encodeCommands]
      cases rounds with
      | zero => simp [scanRedisFrom, expectedRecords, encodeCommands]
      | succ rounds =>
          simp [scanRedisFrom, redisFrame, expectedRecords, encodeCommands]
  | cons arguments rest inductionHypothesis =>
      obtain ⟨nonempty, few, small⟩ :=
        wellFormed arguments List.mem_cons_self
      have shape :
          front ++ encodeCommands (arguments :: rest) =
            front ++ (encodeCommand arguments ++ encodeCommands rest) := by
        simp [encodeCommands]
      have reshape :
          front ++ (encodeCommand arguments ++ encodeCommands rest) =
            (front ++ encodeCommand arguments) ++ encodeCommands rest := by
        simp
      have newFront :
          front.length + (encodeCommand arguments).length =
            (front ++ encodeCommand arguments).length := by
        simp
      obtain ⟨rounds, rfl⟩ : ∃ later, rounds = later + 1 :=
        ⟨rounds - 1, by simp at enough; omega⟩
      rw [shape, scanRedisFrom,
        redisFrame_encodeCommand front _ nonempty few small]
      dsimp only
      rw [reshape, newFront, inductionHypothesis
        (fun later member => wellFormed later (List.mem_cons_of_mem _ member))
        _ (by simpa using enough), expectedRecords, newFront]

/--
`scan_redis` consumes any concatenation of encoded commands and reports, in
order and over exactly their frames, what each command itself submits.
-/
theorem scanRedis_encodeCommands
    (commands : List (List Bytes))
    (wellFormed :
      ∀ arguments ∈ commands,
        1 ≤ arguments.length ∧ arguments.length ≤ maxRespArguments ∧
          ∀ argument ∈ arguments, argument.length < 10 ^ 10) :
    scanRedis (encodeCommands commands) =
      (expectedRecords 0 commands, (encodeCommands commands).length) :=
  scanRedisFrom_encodeCommands wellFormed []
    (length_le_encodeCommands commands)

/-- A SET whose value looks like an AUTH command, then a real AUTH. -/
theorem lookalike_scanned :
    scanRedis
        (encodeCommands
          [[ascii "SET", ascii "key",
              encodeCommand [ascii "AUTH", ascii "decoy"]],
            [ascii "auth", ascii "secret"]]) =
      (expectedRecords 0
        [[ascii "SET", ascii "key",
            encodeCommand [ascii "AUTH", ascii "decoy"]],
          [ascii "auth", ascii "secret"]],
        (encodeCommands
          [[ascii "SET", ascii "key",
              encodeCommand [ascii "AUTH", ascii "decoy"]],
            [ascii "auth", ascii "secret"]]).length) :=
  scanRedis_encodeCommands _ (by
    have lookalike :
        (encodeCommand [ascii "AUTH", ascii "decoy"]).length = 25 := by
      simp [encodeCommand, encodeArgument, ascii, crlf, decimalText]
    have lengths :
        (ascii "SET").length = 3 ∧ (ascii "key").length = 3 ∧
          (ascii "auth").length = 4 ∧ (ascii "secret").length = 6 := by
      decide
    simp [lookalike, lengths, maxRespArguments])

end PacketAudit
