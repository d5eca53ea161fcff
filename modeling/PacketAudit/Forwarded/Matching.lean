import PacketAudit.Forwarded.Retention

namespace PacketAudit

open Library

/-!
# What a plan has matched

The invariant of the planning loop: which ingress the matches so far have
used, which of the batch's packets are retained, and which are paired.  From
it follows what committing a plan does to the ingress that is held.
-/

/-- The ingress that a match uses. -/
def PlanMatch.entry (found : PlanMatch) : MatchKey × IngressRecord :=
  (found.key, found.record)

/-- The pair that the plan lists for a suppressed packet. -/
def PlanMatch.pair (found : PlanMatch) : Nat × Nat :=
  (found.packetId, found.record.packetId)

/-- The ingress that matches use, as a multiset. -/
def entriesOf (made : List PlanMatch) :
    Multiset (MatchKey × IngressRecord) :=
  (made.map PlanMatch.entry : List (MatchKey × IngressRecord))

@[simp] theorem entriesOf_nil : entriesOf [] = 0 := rfl

@[simp] theorem entriesOf_append
    (first second : List PlanMatch) :
    entriesOf (first ++ second) = entriesOf first + entriesOf second := by
  simp [entriesOf]

@[simp] theorem entriesOf_singleton (found : PlanMatch) :
    entriesOf [found] = {found.entry} := rfl

/-- The ingress that a packet with this description stands for. -/
def ingressEntry
    (packet : ParsedPacket) :
    Option ForwardedFrame → Option (MatchKey × IngressRecord)
  | none => none
  | some frame =>
      if frame.role = .ingress then
        some ((frame.key, frame.hopLimit),
          ⟨packet.packetId, frame.timestampNs, frame.ipChecksum⟩)
      else
        none

/-- The ingress frames among the packets of a batch. -/
def ingressEntries
    (frames : OrderedTable Nat ForwardedFrame)
    (packets : List ParsedPacket) : List (MatchKey × IngressRecord) :=
  packets.filterMap fun packet =>
    ingressEntry packet (frames.get? packet.packetId)

@[simp] theorem ingressEntries_append
    (frames : OrderedTable Nat ForwardedFrame)
    (first second : List ParsedPacket) :
    ingressEntries frames (first ++ second) =
      ingressEntries frames first ++ ingressEntries frames second :=
  List.filterMap_append

/-- What justifies a match: direction, hop count, age and checksum. -/
structure PlanMatch.Justified
    (limits : SuppressorLimits)
    (found : PlanMatch) : Prop where
  role : found.frame.role = .egress
  sameKey : found.key.1 = found.frame.key
  hop :
    found.key.2 =
      if found.decremented then found.frame.hopLimit + 1
      else found.frame.hopLimit
  notBefore : 0 ≤ found.frame.timestampNs - found.record.timestampNs
  notOlder :
    found.frame.timestampNs - found.record.timestampNs ≤ limits.maxAgeNs
  checksum :
    checksumMatches found.record.ipChecksum found.frame.ipChecksum
      found.decremented = true

/-- A plan after some of the packets, with the matches made for them. -/
structure PlannedFrom
    (limits : SuppressorLimits)
    (accepted : OrderedTable MatchKey (List IngressRecord))
    (frames : OrderedTable Nat ForwardedFrame)
    (pressure : Bool)
    (packets : List ParsedPacket)
    (plan : DuplicatePlan)
    (made : List PlanMatch) : Prop where
  samePressure : plan.pressure = pressure
  justified : ∀ found ∈ made, found.Justified limits
  framed :
    ∀ found ∈ made, frames.get? found.packetId = some found.frame
  suppressed : ∀ found ∈ made, found.suppressed = pressure
  consumable :
    ∀ {key : MatchKey} {count : Nat},
      plan.acceptedUses.get? key = some count →
        Suppressor.Consumable accepted (key, count)
  prior :
    entriesOf (made.filter fun found => found.prior) =
      plan.acceptedUses.total (Suppressor.usedAt accepted)
  fresh :
    entriesOf (made.filter fun found => !found.prior) +
        plan.ingress.total heldAt =
      (ingressEntries frames packets :
        Multiset (MatchKey × IngressRecord))
  pairs :
    plan.pairs =
      (made.filter fun found => found.suppressed).map PlanMatch.pair
  priorPairs :
    plan.priorPairs =
      (made.filter fun found =>
        found.suppressed && found.prior).map PlanMatch.pair
  split :
    (plan.retained.map ParsedPacket.packetId ++
        plan.pairs.map Prod.fst).Perm
      (packets.map ParsedPacket.packetId)
  retained : plan.retained.Sublist packets
  ingressRetained :
    ingressEntries frames plan.retained = ingressEntries frames packets

variable {limits : SuppressorLimits}
variable {accepted : OrderedTable MatchKey (List IngressRecord)}
variable {frames : OrderedTable Nat ForwardedFrame}
variable {pressure : Bool}

namespace DuplicatePlan

/-- A successful attempt at one hop count. -/
structure Matched
    (limits : SuppressorLimits)
    (accepted : OrderedTable MatchKey (List IngressRecord))
    (packet : ParsedPacket)
    (frame : ForwardedFrame)
    (plan next : DuplicatePlan)
    (found : PlanMatch) : Prop where
  sameId : found.packetId = packet.packetId
  sameFrame : found.frame = frame
  suppressed : found.suppressed = plan.pressure
  sameKey : found.key.1 = frame.key
  hop :
    found.key.2 =
      if found.decremented then frame.hopLimit + 1 else frame.hopLimit
  authorised : authorises limits frame found.decremented found.record = true
  used :
    (found.prior = false ∧
        (plan.localIngress found.key).head? = some found.record ∧
        next = plan.matchLocal packet found.key found.record) ∨
      (found.prior = true ∧
        ((accepted.get? found.key).getD [])[plan.uses found.key]? =
            some found.record ∧
        next = plan.matchPrior packet found.key found.record)

theorem tryHop_eq_some
    {packet : ParsedPacket}
    {frame : ForwardedFrame}
    {decremented : Bool}
    {plan next : DuplicatePlan}
    {found : PlanMatch}
    (tries :
      tryHop limits accepted packet frame
          (if decremented then frame.hopLimit + 1 else frame.hopLimit)
          decremented plan =
        some (next, found)) :
    Matched limits accepted packet frame plan next found := by
  unfold tryHop at tries
  simp only at tries
  split at tries
  case h_1 record isLocal =>
    obtain ⟨isHead, authorised⟩ := Option.filter_eq_some_iff.mp isLocal
    cases tries
    exact {
      sameId := rfl
      sameFrame := rfl
      suppressed := rfl
      sameKey := rfl
      hop := rfl
      authorised := authorised
      used := .inl ⟨rfl, isHead, rfl⟩
    }
  case h_2 =>
    split at tries
    case h_1 record isPrior =>
      obtain ⟨isNext, authorised⟩ := Option.filter_eq_some_iff.mp isPrior
      cases tries
      exact {
        sameId := rfl
        sameFrame := rfl
        suppressed := rfl
        sameKey := rfl
        hop := rfl
        authorised := authorised
        used := .inr ⟨rfl, isNext, rfl⟩
      }
    case h_2 =>
      cases tries

theorem Matched.justified
    {packet : ParsedPacket}
    {frame : ForwardedFrame}
    {plan next : DuplicatePlan}
    {found : PlanMatch}
    (matched : Matched limits accepted packet frame plan next found)
    (isEgress : frame.role = .egress) :
    found.Justified limits := by
  have authorised := matched.authorised
  simp only [authorises, Bool.and_eq_true, decide_eq_true_eq] at authorised
  obtain ⟨⟨notBefore, notOlder⟩, checksum⟩ := authorised
  have isFrame := matched.sameFrame
  exact {
    role := by rw [isFrame, isEgress]
    sameKey := by rw [isFrame, matched.sameKey]
    hop := by rw [isFrame, matched.hop]
    notBefore := by rw [isFrame]; exact notBefore
    notOlder := by rw [isFrame]; exact notOlder
    checksum := by rw [isFrame]; exact checksum
  }

end DuplicatePlan

namespace PlannedFrom

/-- Before the first packet. -/
theorem initial :
    PlannedFrom limits accepted frames pressure [] { pressure } [] where
  samePressure := rfl
  justified := by simp
  framed := by simp
  suppressed := by simp
  consumable := by
    intro key count found
    cases found
  prior := rfl
  fresh := rfl
  pairs := rfl
  priorPairs := rfl
  split := .nil
  retained := .slnil
  ingressRetained := rfl

variable {packets : List ParsedPacket}
variable {packet : ParsedPacket}
variable {plan : DuplicatePlan}
variable {made : List PlanMatch}

/-- A retained packet goes to the end of both sides of the split. -/
theorem split_retain
    (planned :
      PlannedFrom limits accepted frames pressure packets plan made)
    (packet : ParsedPacket) :
    ((plan.retained ++ [packet]).map ParsedPacket.packetId ++
        plan.pairs.map Prod.fst).Perm
      ((packets ++ [packet]).map ParsedPacket.packetId) := by
  simp only [List.map_append, List.map_cons, List.map_nil,
    List.append_assoc, List.singleton_append]
  exact List.perm_middle.trans
    ((planned.split.cons _).trans (List.perm_append_singleton _ _).symm)

/-- A packet without a description, or an unmatched copy. -/
theorem retain
    (planned :
      PlannedFrom limits accepted frames pressure packets plan made)
    (noIngress :
      ingressEntry packet (frames.get? packet.packetId) = none) :
    PlannedFrom limits accepted frames pressure (packets ++ [packet])
      (plan.retain packet) made := by
  have noEntry : ingressEntries frames [packet] = [] := by
    simp [ingressEntries, noIngress]
  refine {
    planned with
    fresh := ?_
    split := planned.split_retain packet
    retained := planned.retained.append (.refl _)
    ingressRetained := ?_
  }
  · rw [ingressEntries_append, noEntry, List.append_nil]
    exact planned.fresh
  · rw [DuplicatePlan.retain, ingressEntries_append, ingressEntries_append,
      planned.ingressRetained]

/-- An ingress frame. -/
theorem ingress
    {frame : ForwardedFrame}
    (planned :
      PlannedFrom limits accepted frames pressure packets plan made)
    (described : frames.get? packet.packetId = some frame)
    (isIngress : frame.role = .ingress) :
    PlannedFrom limits accepted frames pressure (packets ++ [packet])
      ((plan.addIngress (frame.key, frame.hopLimit)
        ⟨packet.packetId, frame.timestampNs,
          frame.ipChecksum⟩).retain packet) made := by
  have isEntry :
      ingressEntries frames [packet] =
        [((frame.key, frame.hopLimit),
          ⟨packet.packetId, frame.timestampNs, frame.ipChecksum⟩)] := by
    simp [ingressEntries, ingressEntry, described, isIngress]
  refine {
    planned with
    fresh := ?_
    split := planned.split_retain packet
    retained := planned.retained.append (.refl _)
    ingressRetained := ?_
  }
  · rw [ingressEntries_append, isEntry, ← Multiset.coe_add,
      ← planned.fresh]
    simp only [DuplicatePlan.retain, DuplicatePlan.addIngress,
      OrderedTable.total_set, heldAt_append]
    rw [OrderedTable.total_eq_getD_add_erase plan.ingress
      (frame.key, frame.hopLimit) (heldAt_nil _)]
    simp only [DuplicatePlan.localIngress, heldAt, List.map_cons,
      List.map_nil]
    abel
  · simp only [DuplicatePlan.retain, DuplicatePlan.addIngress]
    rw [ingressEntries_append, ingressEntries_append,
      planned.ingressRetained]

/-- What either kind of match does to the packets of the plan. -/
structure Resolves
    (packet : ParsedPacket)
    (found : PlanMatch)
    (plan next : DuplicatePlan) : Prop where
  samePressure : next.pressure = plan.pressure
  retained :
    next.retained =
      if plan.pressure then plan.retained else plan.retained ++ [packet]
  pairs :
    next.pairs =
      if plan.pressure then plan.pairs ++ [found.pair] else plan.pairs
  priorPairs :
    next.priorPairs =
      if plan.pressure && found.prior then plan.priorPairs ++ [found.pair]
      else plan.priorPairs

/-- The next ingress of a key is what its use count points at. -/
theorem usedAt_succ
    {key : MatchKey}
    {count : Nat}
    {record : IngressRecord}
    (isNext :
      ((accepted.get? key).getD [])[count]? = some record) :
    Suppressor.usedAt accepted key (count + 1) =
      {(key, record)} + Suppressor.usedAt accepted key count := by
  unfold Suppressor.usedAt
  rw [List.take_add_one, isNext, heldAt_append, add_comm]
  rfl

/-- A copy that was matched, in either way. -/
theorem matched
    {frame : ForwardedFrame}
    {next : DuplicatePlan}
    {found : PlanMatch}
    (planned :
      PlannedFrom limits accepted frames pressure packets plan made)
    (described : frames.get? packet.packetId = some frame)
    (isEgress : frame.role = .egress)
    (matched :
      DuplicatePlan.Matched limits accepted packet frame plan next found) :
    PlannedFrom limits accepted frames pressure (packets ++ [packet]) next
      (made ++ [found]) := by
  have noEntry : ingressEntries frames [packet] = [] := by
    simp [ingressEntries, ingressEntry, described, isEgress]
  have isPressure : found.suppressed = pressure := by
    rw [matched.suppressed, planned.samePressure]
  have samePair : found.pair = (packet.packetId, found.record.packetId) := by
    rw [PlanMatch.pair, matched.sameId]
  have resolves : Resolves packet found plan next := by
    rcases matched.used with ⟨isLocal, -, rfl⟩ | ⟨isPrior, -, rfl⟩
    · refine {
        samePressure := ?_, retained := ?_, pairs := ?_, priorPairs := ?_
      } <;>
        cases under : plan.pressure <;>
          simp [DuplicatePlan.matchLocal, DuplicatePlan.retain, under,
            samePair, isLocal]
    · refine {
        samePressure := ?_, retained := ?_, pairs := ?_, priorPairs := ?_
      } <;>
        cases under : plan.pressure <;>
          simp [DuplicatePlan.matchPrior, DuplicatePlan.retain, under,
            samePair, isPrior]
  have useCounts :
      (∀ {key : MatchKey} {count : Nat},
          next.acceptedUses.get? key = some count →
            Suppressor.Consumable accepted (key, count)) ∧
        entriesOf ((made ++ [found]).filter fun found => found.prior) =
          next.acceptedUses.total (Suppressor.usedAt accepted) ∧
        entriesOf ((made ++ [found]).filter fun found => !found.prior) +
            next.ingress.total heldAt =
          (ingressEntries frames packets :
            Multiset (MatchKey × IngressRecord)) := by
    rcases matched.used with
      ⟨isLocal, isHead, isNext⟩ | ⟨isPrior, isUnused, isNext⟩
    · have sameUses : next.acceptedUses = plan.acceptedUses := by
        rw [isNext]
        unfold DuplicatePlan.matchLocal
        simp only
        split <;> rfl
      have newIngress :
          next.ingress =
            plan.ingress.set found.key (plan.localIngress found.key).tail := by
        rw [isNext]
        unfold DuplicatePlan.matchLocal
        simp only
        split <;> rfl
      refine ⟨?_, ?_, ?_⟩
      · rw [sameUses]
        exact planned.consumable
      · rw [sameUses, List.filter_append]
        simpa [isLocal] using planned.prior
      · rw [← planned.fresh, newIngress, OrderedTable.total_set,
          OrderedTable.total_eq_getD_add_erase plan.ingress found.key
            (heldAt_nil _), List.filter_append, entriesOf_append]
        obtain ⟨rest, isQueue⟩ := List.head?_eq_some_iff.mp isHead
        have isStored : (plan.ingress.get? found.key).getD [] =
            found.record :: rest := isQueue
        rw [isQueue, isStored, heldAt_cons, List.tail_cons]
        simp only [isLocal, Bool.not_false, List.filter_cons_of_pos,
          List.filter_nil, entriesOf_singleton, PlanMatch.entry]
        abel
    · have newUses :
          next.acceptedUses =
            plan.acceptedUses.set found.key (plan.uses found.key + 1) := by
        rw [isNext]
        unfold DuplicatePlan.matchPrior
        simp only
        split <;> rfl
      have sameIngress : next.ingress = plan.ingress := by
        rw [isNext]
        unfold DuplicatePlan.matchPrior
        simp only
        split <;> rfl
      refine ⟨?_, ?_, ?_⟩
      · intro key count used
        rw [newUses, OrderedTable.get?_set] at used
        split at used
        case isTrue same =>
          cases used
          cases stored : accepted.get? found.key with
          | none =>
              simp [stored] at isUnused
          | some ids =>
              refine ⟨ids, by rw [same, stored], ?_⟩
              rw [stored, Option.getD_some] at isUnused
              exact (List.getElem?_eq_some_iff.mp isUnused).1
        case isFalse =>
          exact planned.consumable used
      · have noUse : Suppressor.usedAt accepted found.key 0 = 0 := by
          simp [Suppressor.usedAt]
        rw [newUses, OrderedTable.total_set, usedAt_succ isUnused, add_assoc]
        have before :=
          OrderedTable.total_eq_getD_add_erase plan.acceptedUses found.key
            noUse
        rw [DuplicatePlan.uses, ← before, ← planned.prior,
          List.filter_append, entriesOf_append]
        simp only [isPrior, List.filter_cons_of_pos, List.filter_nil,
          entriesOf_singleton, PlanMatch.entry]
        exact add_comm _ _
      · rw [sameIngress, List.filter_append]
        simpa [isPrior] using planned.fresh
  obtain ⟨consumable, prior, fresh⟩ := useCounts
  refine {
    samePressure := resolves.samePressure.trans planned.samePressure
    justified := ?_
    framed := ?_
    suppressed := ?_
    consumable := consumable
    prior := prior
    fresh := ?_
    pairs := ?_
    priorPairs := ?_
    split := ?_
    retained := ?_
    ingressRetained := ?_
  }
  · intro other member
    rcases List.mem_append.mp member with earlier | isFound
    · exact planned.justified other earlier
    · obtain rfl := List.mem_singleton.mp isFound
      exact matched.justified isEgress
  · intro other member
    rcases List.mem_append.mp member with earlier | isFound
    · exact planned.framed other earlier
    · obtain rfl := List.mem_singleton.mp isFound
      rw [matched.sameId, described, matched.sameFrame]
  · intro other member
    rcases List.mem_append.mp member with earlier | isFound
    · exact planned.suppressed other earlier
    · obtain rfl := List.mem_singleton.mp isFound
      exact isPressure
  · rw [ingressEntries_append, noEntry, List.append_nil]
    exact fresh
  · rw [resolves.pairs, planned.pairs, planned.samePressure,
      List.filter_append, List.map_append]
    cases pressure <;> simp [isPressure]
  · rw [resolves.priorPairs, planned.priorPairs, planned.samePressure,
      List.filter_append, List.map_append]
    cases pressure <;> cases isPrior : found.prior <;>
      simp [isPressure, isPrior]
  · rw [resolves.retained, resolves.pairs]
    split
    · rw [List.map_append, List.map_append, ← List.append_assoc, samePair]
      exact planned.split.append_right _
    · exact planned.split_retain packet
  · rw [resolves.retained]
    split
    · exact planned.retained.trans (List.sublist_append_left _ _)
    · exact planned.retained.append (.refl _)
  · rw [resolves.retained, ingressEntries_append, noEntry, List.append_nil]
    split
    · exact planned.ingressRetained
    · rw [ingressEntries_append, noEntry, List.append_nil,
        planned.ingressRetained]

/-- One more packet. -/
theorem planPacket
    (planned :
      PlannedFrom limits accepted frames pressure packets plan made) :
    PlannedFrom limits accepted frames pressure (packets ++ [packet])
      (DuplicatePlan.planPacket limits accepted frames packet plan).state
      (made ++
        (DuplicatePlan.planPacket limits accepted frames packet
          plan).events) := by
  unfold DuplicatePlan.planPacket
  cases described : frames.get? packet.packetId with
  | none =>
      simp only [Outcome.state_quiet, Outcome.events_quiet, List.append_nil]
      exact planned.retain (by rw [described]; rfl)
  | some frame =>
      cases role : frame.role with
      | ingress =>
          simp only [role, Outcome.state_quiet, Outcome.events_quiet,
            List.append_nil]
          exact planned.ingress described role
      | egress =>
          simp only [role]
          split
          case h_1 next found tries =>
            exact planned.matched described role
              (DuplicatePlan.tryHop_eq_some
                (show DuplicatePlan.tryHop limits accepted packet frame
                  (if true then frame.hopLimit + 1 else frame.hopLimit) true
                  plan = _ from tries))
          case h_2 =>
            split
            case h_1 next found tries =>
              exact planned.matched described role
                (DuplicatePlan.tryHop_eq_some
                  (show DuplicatePlan.tryHop limits accepted packet frame
                    (if false then frame.hopLimit + 1 else frame.hopLimit)
                    false plan = _ from tries))
            case h_2 =>
              simp only [Outcome.state_quiet, Outcome.events_quiet,
                List.append_nil]
              exact planned.retain (by
                rw [described]
                simp [ingressEntry, role])

/-- The whole planning loop. -/
theorem planned
    (suppressor : Suppressor)
    (packets : List ParsedPacket) :
    PlannedFrom limits suppressor.accepted frames pressure packets
      (suppressor.planned limits packets frames pressure).state
      (suppressor.planned limits packets frames pressure).events := by
  have rounds
      (later : List ParsedPacket)
      {done : List ParsedPacket}
      {plan : DuplicatePlan}
      {made : List PlanMatch}
      (soFar :
        PlannedFrom limits suppressor.accepted frames pressure done plan
          made) :
      PlannedFrom limits suppressor.accepted frames pressure (done ++ later)
        (runAll (DuplicatePlan.planPacket limits suppressor.accepted frames)
          later plan).state
        (made ++
          (runAll
            (DuplicatePlan.planPacket limits suppressor.accepted frames)
            later plan).events) := by
    induction later generalizing done plan made with
    | nil =>
        simpa using soFar
    | cons packet rest inductionHypothesis =>
        have next := inductionHypothesis (@planPacket _ _ _ _ _ packet _ _ soFar)
        simpa [runAll, List.append_assoc] using next
  simpa [Suppressor.planned] using rounds packets .initial

/-! ## Committing a plan -/

/-- Every match either used an earlier batch or this one. -/
theorem entriesOf_eq (made : List PlanMatch) :
    entriesOf made =
      entriesOf (made.filter fun found => found.prior) +
        entriesOf (made.filter fun found => !found.prior) := by
  unfold entriesOf
  rw [Multiset.coe_add, ← List.map_append]
  exact Multiset.coe_eq_coe.mpr
    ((List.filter_append_perm (fun found => found.prior) made).map _).symm

/-- The matches to earlier batches can always be consumed. -/
theorem consume_uses
    {suppressor : Suppressor}
    (fault : SuppressorFault)
    (planned :
      PlannedFrom limits suppressor.accepted frames pressure packets plan
        made) :
    ∃ consumed,
      plan.acceptedUses.entries.foldlM (Suppressor.consume fault)
          suppressor = .ok consumed ∧
        Suppressor.KeepsLess consumed suppressor ∧
        consumed.held +
            entriesOf (made.filter fun found => found.prior) =
          suppressor.held := by
  rw [planned.prior]
  apply Suppressor.consume_all fault plan.acceptedUses.keysNodup
  intro use member
  exact planned.consumable (OrderedTable.get?_eq_some.mpr member)

/-- A failed batch commits its matches to earlier batches and nothing else. -/
theorem commitPriorSkipsOnFailure
    {suppressor : Suppressor}
    (planned :
      PlannedFrom limits suppressor.accepted frames pressure packets plan
        made) :
    ∃ committed,
      suppressor.commitPriorSkipsOnFailure plan = .ok committed ∧
        (suppressor.Bounded limits → committed.Bounded limits) ∧
        committed.held +
            entriesOf (made.filter fun found => found.prior) =
          suppressor.held := by
  obtain ⟨committed, consumes, less, counted⟩ :=
    planned.consume_uses .changedBeforeFailureAccounting
  exact ⟨committed, consumes, less.bounded, counted⟩

/-- A queued batch commits its matches and holds its unmatched ingress. -/
theorem commit
    {suppressor : Suppressor}
    (planned :
      PlannedFrom limits suppressor.accepted frames pressure packets plan
        made)
    (exact : suppressor.Exact) :
    ∃ committed,
      suppressor.commit limits plan = .ok committed ∧
        committed.Bounded limits ∧
        committed.held + entriesOf made ≤
          suppressor.held + ingressEntries frames packets := by
  obtain ⟨consumed, consumes, less, counted⟩ :=
    planned.consume_uses .changedBeforeCommit
  obtain ⟨admittedHeld, admittedExact⟩ :=
    @Suppressor.admitIngress_all limits plan.ingress.entries consumed
  obtain ⟨committed, evicts, evictedLess, bounded⟩ :=
    @Suppressor.evictWhileOverLimits_spec limits _ _
      (admittedExact (less.exact exact)) (le_refl _)
  refine ⟨committed, ?_, bounded, ?_⟩
  · unfold Suppressor.commit
    rw [consumes]
    exact evicts
  · rw [entriesOf_eq, ← counted, ← planned.fresh]
    have total : (plan.ingress.entries.map fun entry =>
        heldAt entry.1 entry.2).sum = plan.ingress.total heldAt := rfl
    rw [total] at admittedHeld
    calc
      _ ≤ (plan.ingress.total heldAt + consumed.held) +
          (entriesOf (made.filter fun found => found.prior) +
            entriesOf (made.filter fun found => !found.prior)) :=
        add_le_add_left (evictedLess.held.trans admittedHeld) _
      _ = _ := by abel

end PlannedFrom

end PacketAudit
