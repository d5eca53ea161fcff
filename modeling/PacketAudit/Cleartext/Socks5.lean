import PacketAudit.Library.Spelling
import PacketAudit.Packets.Fields

namespace PacketAudit

/-!
# SOCKS5 username and password requests

`socks5.py`.  The parser reads both directions of a connection from their
beginnings; a fault is an `IndexError` of one of its subscripts.
-/

open Library

/-- `Socks5Auth`. -/
structure Socks5Auth where
  start : Nat
  stop : Nat
  username : Bytes
  password : Bytes
  deriving Repr, DecidableEq

/-- `parse_socks5_auth`. -/
def parseSocks5Auth
    (client server : Bytes) : Except PacketFault (Option Socks5Auth) := do
  if client.length < 3 ∨ server.length < 2 ∨ server.take 2 ≠ [0x05, 0x02] then
    return none
  let methodCount ← byteAt client 1
  let greetingEnd := 2 + methodCount
  let version ← byteAt client 0
  if version ≠ 5 ∨ methodCount = 0 ∨ client.length < greetingEnd + 3 then
    return none
  if 0x02 ∉ client.extract 2 greetingEnd then
    return none
  let authStart := greetingEnd
  let usernameLength ← byteAt client (authStart + 1)
  let usernameStart := authStart + 2
  let passwordLengthOffset := usernameStart + usernameLength
  let authVersion ← byteAt client authStart
  if authVersion ≠ 1 ∨ usernameLength = 0 ∨
      client.length ≤ passwordLengthOffset then
    return none
  let passwordLength ← byteAt client passwordLengthOffset
  let passwordStart := passwordLengthOffset + 1
  let authEnd := passwordStart + passwordLength
  if passwordLength = 0 ∨ client.length < authEnd then
    return none
  return some {
    start := usernameStart
    stop := authEnd
    username := client.extract usernameStart passwordLengthOffset
    password := client.extract passwordStart authEnd
  }

/-! ## Requests of a client -/

/-- A nonempty string whose length fits into one byte. -/
structure ShortString where
  bytes : Bytes
  notEmpty : bytes ≠ []
  short : bytes.length < 256
  deriving DecidableEq

/-- A string behind its length. -/
def counted (piece : Bytes) : Bytes :=
  UInt8.ofNat piece.length :: piece

/--
What a client sends that offers some methods, of which one is the username and
password method, and then uses that one.
-/
structure Socks5Login where
  methods : ShortString
  offersPassword : 0x02 ∈ methods.bytes
  username : ShortString
  password : ShortString

namespace Socks5Login

/-- The greeting of the client, and its request. -/
def bytes (login : Socks5Login) : Bytes :=
  0x05 :: (counted login.methods.bytes ++
    (0x01 :: (counted login.username.bytes ++ counted login.password.bytes)))

/-- Where the username starts. -/
def start (login : Socks5Login) : Nat :=
  login.methods.bytes.length + 4

/-- What the parser says about the request. -/
def auth (login : Socks5Login) : Socks5Auth where
  start := login.start
  stop := login.bytes.length
  username := login.username.bytes
  password := login.password.bytes

theorem length_bytes (login : Socks5Login) :
    login.bytes.length =
      login.start + login.username.bytes.length + 1 +
        login.password.bytes.length := by
  unfold bytes counted start
  simp only [List.length_cons, List.length_append]
  omega

end Socks5Login

section Parsing

variable {data client server : Bytes}

theorem byteAt_iff {index value : Nat} :
    byteAt data index = .ok value ↔
      value < 256 ∧ data[index]? = some (UInt8.ofNat value) := by
  rw [byteAt_eq_ok]
  constructor
  · rintro ⟨byte, isByte, rfl⟩
    refine ⟨byte.toNat_lt, ?_⟩
    rw [UInt8.ofNat_toNat]
    exact isByte
  · rintro ⟨small, isByte⟩
    exact ⟨_, isByte, UInt8.toNat_ofNat_of_lt small⟩

/-- A counted string is spelled as its length and the string. -/
theorem spells_counted
    {first last : Nat}
    (piece : Bytes)
    (short : piece.length < 256) :
    Spells data first last (counted piece) ↔
      byteAt data first = .ok piece.length ∧
        Spells data (first + 1) last piece := by
  unfold counted
  rw [spells_cons, byteAt_iff]
  constructor
  · rintro ⟨isLength, spells⟩
    exact ⟨⟨short, isLength⟩, spells⟩
  · rintro ⟨⟨-, isLength⟩, spells⟩
    exact ⟨isLength, spells⟩

/-- What a client stream that begins with a request consists of. -/
theorem spells_login
    (login : Socks5Login)
    {last : Nat} :
    Spells client 0 last login.bytes ↔
      ∃ greetingEnd passwordLengthOffset,
        byteAt client 0 = .ok 5 ∧
          byteAt client 1 = .ok login.methods.bytes.length ∧
          Spells client 2 greetingEnd login.methods.bytes ∧
          byteAt client greetingEnd = .ok 1 ∧
          byteAt client (greetingEnd + 1) =
            .ok login.username.bytes.length ∧
          Spells client (greetingEnd + 2) passwordLengthOffset
            login.username.bytes ∧
          byteAt client passwordLengthOffset =
            .ok login.password.bytes.length ∧
          Spells client (passwordLengthOffset + 1) last
            login.password.bytes := by
  have isByte
      {index value : Nat}
      (small : value < 256) :
      client[index]? = some (UInt8.ofNat value) ↔
        byteAt client index = .ok value := by
    rw [byteAt_iff]
    exact ⟨fun found => ⟨small, found⟩, fun found => found.2⟩
  unfold Socks5Login.bytes
  rw [spells_cons, spells_append]
  simp only [spells_counted _ login.methods.short, spells_cons,
    spells_append, spells_counted _ login.username.short,
    spells_counted _ login.password.short]
  constructor
  · rintro ⟨version, greetingEnd, ⟨methodCount, methods⟩, authVersion,
      passwordLengthOffset, ⟨usernameLength, username⟩, passwordLength,
      password⟩
    exact ⟨greetingEnd, passwordLengthOffset,
      (isByte (by decide)).mp version, methodCount, methods,
      (isByte (by decide)).mp authVersion, usernameLength, username,
      passwordLength, password⟩
  · rintro ⟨greetingEnd, passwordLengthOffset, version, methodCount, methods,
      authVersion, usernameLength, username, passwordLength, password⟩
    exact ⟨(isByte (by decide)).mpr version, greetingEnd,
      ⟨methodCount, methods⟩, (isByte (by decide)).mpr authVersion,
      passwordLengthOffset, ⟨usernameLength, username⟩, passwordLength,
      password⟩

/-- What the parser returns is a request at the beginning of the stream. -/
theorem exists_login
    {auth : Socks5Auth}
    (isAuth : parseSocks5Auth client server = .ok (some auth)) :
    [0x05, 0x02] <+: server ∧
      ∃ login : Socks5Login, login.bytes <+: client ∧ login.auth = auth := by
  unfold parseSocks5Auth at isAuth
  split at isAuth
  · cases isAuth
  case isFalse long =>
  simp only [not_or, not_lt, not_not] at long
  obtain ⟨-, -, selected⟩ := long
  obtain ⟨methodCount, isMethodCount, isAuth⟩ := bind_eq_ok.mp isAuth
  obtain ⟨version, isVersion, isAuth⟩ := bind_eq_ok.mp isAuth
  dsimp only at isAuth
  split at isAuth
  · cases isAuth
  case isFalse greets =>
  simp only [not_or, not_lt, not_not] at greets
  obtain ⟨rfl, hasMethods, longer⟩ := greets
  split at isAuth
  · cases isAuth
  case isFalse offers =>
  rw [not_not] at offers
  obtain ⟨usernameLength, isUsernameLength, isAuth⟩ := bind_eq_ok.mp isAuth
  obtain ⟨authVersion, isAuthVersion, isAuth⟩ := bind_eq_ok.mp isAuth
  split at isAuth
  · cases isAuth
  case isFalse hasUsername =>
  simp only [not_or, not_le, not_not] at hasUsername
  obtain ⟨rfl, usernameNotEmpty, beforePassword⟩ := hasUsername
  obtain ⟨passwordLength, isPasswordLength, isAuth⟩ := bind_eq_ok.mp isAuth
  split at isAuth
  · cases isAuth
  case isFalse hasPassword =>
  simp only [not_or, not_lt] at hasPassword
  obtain ⟨passwordNotEmpty, whole⟩ := hasPassword
  obtain rfl := Option.some.inj (Except.ok.inj isAuth)
  obtain ⟨methodBytes, methods⟩ :
      ∃ piece, Spells client 2 (2 + methodCount) piece :=
    ⟨_, spells_extract (by omega) (by omega)⟩
  obtain ⟨usernameBytes, username⟩ :
      ∃ piece,
        Spells client (2 + methodCount + 2)
          (2 + methodCount + 2 + usernameLength) piece :=
    ⟨_, spells_extract (by omega) (by omega)⟩
  obtain ⟨passwordBytes, password⟩ :
      ∃ piece,
        Spells client (2 + methodCount + 2 + usernameLength + 1)
          (2 + methodCount + 2 + usernameLength + 1 + passwordLength) piece :=
    ⟨_, spells_extract (by omega) (by omega)⟩
  rw [methods.2.2] at offers
  rw [username.2.2, password.2.2]
  have methodsLength : methodBytes.length = methodCount := by
    have stops := methods.last_eq
    omega
  have usernameSize : usernameBytes.length = usernameLength := by
    have stops := username.last_eq
    omega
  have passwordSize : passwordBytes.length = passwordLength := by
    have stops := password.last_eq
    omega
  have methodsShort := (byteAt_iff.mp isMethodCount).1
  have usernameShort := (byteAt_iff.mp isUsernameLength).1
  have passwordShort := (byteAt_iff.mp isPasswordLength).1
  have notEmpty
      {piece : Bytes}
      (hasLength : piece.length ≠ 0) :
      piece ≠ [] := by
    rintro rfl
    exact hasLength rfl
  obtain ⟨login, rfl, rfl, rfl⟩ :
      ∃ login : Socks5Login,
        methodBytes = login.methods.bytes ∧
          usernameBytes = login.username.bytes ∧
          passwordBytes = login.password.bytes :=
    ⟨{
      methods := ⟨methodBytes, notEmpty (by omega), by omega⟩
      offersPassword := offers
      username := ⟨usernameBytes, notEmpty (by omega), by omega⟩
      password := ⟨passwordBytes, notEmpty (by omega), by omega⟩
    }, rfl, rfl, rfl⟩
  subst methodsLength usernameSize passwordSize
  have isLogin :=
    (spells_login login).mpr
      ⟨_, _, isVersion, isMethodCount, methods, isAuthVersion,
        isUsernameLength, username, isPasswordLength, password⟩
  obtain ⟨isPrefix, isLength⟩ := spells_zero.mp isLogin
  refine ⟨?_, login, isPrefix, ?_⟩
  · rw [← selected]
    exact List.take_prefix 2 server
  · unfold Socks5Login.auth Socks5Login.start
    rw [← isLength]
    simp only [Socks5Auth.mk.injEq, and_self, and_true]
    omega

/-- A request at the beginning of a stream is parsed. -/
theorem parseSocks5Auth_login
    (login : Socks5Login)
    (selected : [0x05, 0x02] <+: server)
    (isPrefix : login.bytes <+: client) :
    parseSocks5Auth client server = .ok (some login.auth) := by
  obtain ⟨greetingEnd, passwordLengthOffset, version, methodCount, methods,
    authVersion, usernameLength, username, passwordLength, password⟩ :=
    (spells_login login).mp (spells_zero.mpr ⟨isPrefix, rfl⟩)
  have methodsEnd := methods.last_eq
  have usernameEnd := username.last_eq
  have passwordEnd := password.last_eq
  have inside := password.last_le
  have hasMethods := List.length_pos_iff.mpr login.methods.notEmpty
  have hasUsername := List.length_pos_iff.mpr login.username.notEmpty
  have hasPassword := List.length_pos_iff.mpr login.password.notEmpty
  have serverLength := selected.length_le
  have isSelected : server.take 2 = [0x05, 0x02] :=
    (List.prefix_iff_eq_take.mp selected).symm
  rw [List.length_cons, List.length_singleton] at serverLength
  have methodsAre := methods.2.2
  have usernameIs := username.2.2
  have passwordIs := password.2.2
  subst methodsEnd usernameEnd
  have long :
      ¬ (client.length < 3 ∨ server.length < 2 ∨
        server.take 2 ≠ [0x05, 0x02]) := by
    rintro (short | short | other)
    · omega
    · omega
    · exact other isSelected
  unfold parseSocks5Auth
  rw [if_neg long, methodCount, ok_bind, version, ok_bind]
  dsimp only
  rw [if_neg (by omega), methodsAre, if_neg (not_not.mpr login.offersPassword),
    usernameLength, ok_bind, authVersion, ok_bind, if_neg (by omega),
    passwordLength, ok_bind, if_neg (by omega), usernameIs, ← passwordEnd,
    passwordIs]
  refine congrArg (Except.ok ∘ some) ?_
  unfold Socks5Login.auth Socks5Login.start
  simp only [Socks5Auth.mk.injEq, and_self, and_true]
  omega

/-- The parser recognizes exactly the requests of a connection's beginning. -/
theorem parseSocks5Auth_eq_some
    {auth : Socks5Auth} :
    parseSocks5Auth client server = .ok (some auth) ↔
      [0x05, 0x02] <+: server ∧
        ∃ login : Socks5Login, login.bytes <+: client ∧ login.auth = auth := by
  constructor
  · exact exists_login
  · rintro ⟨selected, login, isPrefix, rfl⟩
    exact parseSocks5Auth_login login selected isPrefix

/-- The parser never reads outside its data. -/
theorem parseSocks5Auth_total (client server : Bytes) :
    ∃ answer, parseSocks5Auth client server = .ok answer := by
  unfold parseSocks5Auth
  split
  · exact ⟨none, rfl⟩
  case isFalse long =>
  simp only [not_or, not_lt] at long
  rw [byteAt_of_lt (by omega), ok_bind, byteAt_of_lt (by omega), ok_bind]
  dsimp only
  split
  · exact ⟨none, rfl⟩
  case isFalse greets =>
  simp only [not_or, not_lt] at greets
  split
  · exact ⟨none, rfl⟩
  rw [byteAt_of_lt (by omega), ok_bind, byteAt_of_lt (by omega), ok_bind]
  split
  · exact ⟨none, rfl⟩
  case isFalse hasUsername =>
  simp only [not_or, not_le] at hasUsername
  rw [byteAt_of_lt (by omega), ok_bind]
  split
  · exact ⟨none, rfl⟩
  · exact ⟨_, rfl⟩

end Parsing

/-! ## The scanner -/

/-- The direction of the server in a flow that `_scan_socks5` looks at. -/
def socks5Server (flow : FlowKey) : Option Direction :=
  if flow.endpointA.port = 1080 ∧ flow.endpointB.port ≠ 1080 then
    some .aToB
  else if flow.endpointB.port = 1080 ∧ flow.endpointA.port ≠ 1080 then
    some .bToA
  else
    none

/--
`_scan_socks5` on the tails of a stream that both begin at offset zero.  The
count is `state.attempts["socks5_credentials"]`, which `_emit` increases.
-/
def scanSocks5
    (flow : FlowKey)
    (tails : Direction → Bytes)
    (attempts : Nat) : Except PacketFault (Option Socks5Auth) :=
  if attempts ≠ 0 then
    .ok none
  else
    match socks5Server flow with
    | none => .ok none
    | some server => parseSocks5Auth (tails server.opposite) (tails server)

/-- What successive scans report while the two tails grow. -/
def socks5Reports
    (flow : FlowKey) :
    (attempts : Nat) →
    List (Direction → Bytes) →
    Except PacketFault (List Socks5Auth)
  | _, [] => .ok []
  | attempts, tails :: later => do
      match ← scanSocks5 flow tails attempts with
      | none => socks5Reports flow attempts later
      | some auth =>
          let others ← socks5Reports flow (attempts + 1) later
          return auth :: others

section Scanning

variable {flow : FlowKey}
variable {server : Direction}
variable {login : Socks5Login}

/-- Requests at the beginning of one stream are the same. -/
theorem Socks5Login.auth_unique
    {stream : Bytes}
    {other : Socks5Login}
    (isPrefix : login.bytes <+: stream)
    (otherPrefix : other.bytes <+: stream) :
    other.auth = login.auth := by
  have first := parseSocks5Auth_login login (List.prefix_refl _) isPrefix
  have second := parseSocks5Auth_login other (List.prefix_refl _) otherPrefix
  rw [first] at second
  exact (Option.some.inj (Except.ok.inj second)).symm

/-- On a part of a stream the parser waits for the whole request. -/
theorem parseSocks5Auth_take
    {client answers : Bytes}
    (isPrefix : login.bytes <+: client)
    (selected : [0x05, 0x02] <+: answers)
    (seen heard : Nat) :
    parseSocks5Auth (client.take seen) (answers.take heard) =
      .ok (if login.bytes.length ≤ seen ∧ 2 ≤ heard then some login.auth
        else none) := by
  obtain ⟨answer, isAnswer⟩ :=
    parseSocks5Auth_total (client.take seen) (answers.take heard)
  rw [isAnswer]
  refine congrArg _ ?_
  split
  case isTrue complete =>
    have whole : login.bytes <+: client.take seen :=
      List.prefix_take_iff.mpr ⟨isPrefix, complete.1⟩
    have answered : [0x05, 0x02] <+: answers.take heard :=
      List.prefix_take_iff.mpr ⟨selected, complete.2⟩
    rw [parseSocks5Auth_login login answered whole] at isAnswer
    exact (Except.ok.inj isAnswer).symm
  case isFalse incomplete =>
    cases answer with
    | none => rfl
    | some auth =>
        obtain ⟨answered, other, whole, isAuth⟩ := exists_login isAnswer
        have size : other.bytes.length = login.bytes.length :=
          congrArg Socks5Auth.stop
            (Socks5Login.auth_unique isPrefix (whole.trans (List.take_prefix _ _)))
        have seenWhole := (List.prefix_take_iff.mp whole).2
        have heardWhole := (List.prefix_take_iff.mp answered).2
        exact absurd ⟨by omega, heardWhole⟩ incomplete

theorem socks5Reports_of_reported
    {attempts : Nat}
    (reported : attempts ≠ 0)
    (scans : List (Direction → Bytes)) :
    socks5Reports flow attempts scans = .ok [] := by
  induction scans with
  | nil => rfl
  | cons tails later inductionHypothesis =>
      unfold socks5Reports scanSocks5
      rw [if_pos reported, ok_bind]
      exact inductionHypothesis

end Scanning

/-! ## A connection to a proxy -/

/-- A client that offers two methods and logs in as `a` with `b`. -/
def proxyLogin : Socks5Login where
  methods := ⟨[0x00, 0x02], by decide, by decide⟩
  offersPassword := by decide
  username := ⟨[0x61], by decide, by decide⟩
  password := ⟨[0x62], by decide, by decide⟩

/-- A connection of a client to a proxy. -/
def proxyFlow : FlowKey :=
  ⟨6, ⟨"10.0.0.1", 40000⟩, ⟨"10.0.0.2", 1080⟩, "eth0", []⟩

/-- What both sides of the connection send. -/
def proxyStreams :
    Direction → Bytes
  | .aToB => proxyLogin.bytes ++ [0xFF]
  | .bToA => [0x05, 0x02, 0x01]

/-- The tails at four scans: the request is complete before the answer is. -/
def proxyLengths :
    List (Direction → Nat) :=
  [fun _ => 3, fun direction => if direction = .aToB then 9 else 0,
    fun _ => 10, fun _ => 12]

end PacketAudit
