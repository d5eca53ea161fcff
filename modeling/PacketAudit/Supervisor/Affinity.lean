import PacketAudit.Supervisor.RouteRuns

namespace PacketAudit

open Library

/-!
# Which worker the packets of a flow go to

A flow stays on one worker as long as the routes its fragments find were
created by packets that hash like the flow itself.  An atomic fragment that
was decoded shows no ports any more, and a reused fragment identifier finds
the route of another flow; both send a flow to a second worker.
-/

variable {digest : String → Nat}
variable {config : RouteConfig}

/-- A flow that a fragment's payload shows is one of its flows. -/
theorem knownFlow_of_hint
    {all : List LabelledPacket}
    {arrival : LabelledPacket}
    {flowText : String}
    (isFragment : arrival.routeKey.isSome)
    (hint : fragmentFlowHint arrival.packet = some flowText) :
    ∃ flow, KnownFlow all arrival flow ∧ flow.stableText = flowText := by
  obtain ⟨flow, exposed, isText⟩ := Option.map_eq_some_iff.mp hint
  have hasId : arrival.packet.fragmentId.isSome := by
    simpa [LabelledPacket.routeKey] using isFragment
  exact ⟨flow, .inl (.inr ⟨hasId, exposed⟩), isText⟩

/-- With routes created by packets of the flow, its hash decides. -/
theorem shard_eq_of_routesByFlow
    {calls : List RouteCall}
    (undisturbed : Undisturbed digest config calls)
    (byFlow : RoutesByFlow digest config.workers (labelledPackets calls))
    {one : Routed}
    (member : one ∈ (routeAll digest config calls).events)
    {flow : FlowKey}
    (known : KnownFlow (labelledPackets calls) one.labelled flow) :
    one.shard = stableShard digest flow.stableText config.workers := by
  have soFar := routeAll_routedSoFar undisturbed
  have fragment
      {other : Routed}
      (isRouted : other ∈ (routeAll digest config calls).events)
      {otherFlow : FlowKey}
      (otherKnown :
        KnownFlow (labelledPackets calls) other.labelled otherFlow)
      {key : String}
      (isKey : other.labelled.routeKey = some key) :
      other.shard =
        stableShard digest otherFlow.stableText config.workers := by
    obtain ⟨creator, isCreator, isShard⟩ :=
      soFar.fragments other isRouted isKey
    rw [map_labelled_routeAll] at isCreator
    have isArrival : other.labelled ∈ labelledPackets calls := by
      rw [← map_labelled_routeAll digest config calls]
      exact List.mem_map_of_mem isRouted
    rw [isShard]
    exact byFlow _ isArrival _ _ _ otherKnown isKey isCreator
  cases isKey : one.labelled.routeKey with
  | some key =>
      exact fragment member known isKey
  | none =>
      have noFragment : one.labelled.packet.fragmentId = none := by
        simpa [LabelledPacket.routeKey] using isKey
      have isFlow : one.labelled.packet.flow.1 = flow := by
        rcases known with
          (⟨-, isFlow⟩ | ⟨hasId, -⟩) | ⟨first, -, same, -⟩
        · exact isFlow
        · rw [noFragment] at hasId
          cases hasId
        · have hasKey := same.2.2
          rw [same.2.1, isKey] at hasKey
          cases hasKey
      rcases soFar.plain one member isKey with isHash | pinned
      · rw [isHash, isFlow]
      · obtain ⟨other, isRouted, isFragment, hint, sameShard⟩ := pinned
        obtain ⟨otherFlow, otherKnown, sameText⟩ :=
          @knownFlow_of_hint (labelledPackets calls) _ _ isFragment hint
        obtain ⟨key, otherKey⟩ := Option.isSome_iff_exists.mp isFragment
        rw [← sameShard, fragment isRouted otherKnown otherKey, sameText,
          isFlow]

/-- A fragment that shows a flow and is the first with its key. -/
structure FreshProbe
    (earlier : List LabelledPacket)
    (probe : LabelledPacket)
    (flow : FlowKey) : Prop where
  exposed : exposedFlow probe.packet = some flow
  isFragment : probe.routeKey.isSome
  fresh : ∀ arrival ∈ earlier, arrival.routeKey ≠ probe.routeKey

/-- A fresh first fragment always goes to the worker its flow hashes to. -/
theorem routeAll_probe
    {calls : List RouteCall}
    {probe : LabelledPacket}
    {flow : FlowKey}
    (undisturbed : Undisturbed digest config calls)
    (isProbe : FreshProbe (labelledPackets calls) probe flow)
    (now : Int) :
    (routeAll digest config (calls ++ [.packet probe now])).events =
      (routeAll digest config calls).events ++
        [⟨probe, stableShard digest flow.stableText config.workers⟩] := by
  have soFar := routeAll_routedSoFar undisturbed
  obtain ⟨key, isKey⟩ := Option.isSome_iff_exists.mp isProbe.isFragment
  obtain ⟨fragmentId, isId, keyOfId⟩ := Option.map_eq_some_iff.mp isKey
  have absent :
      (routeAll digest config calls).state.fragmentRoutes.get? key =
        none := by
    by_contra present
    obtain ⟨value, found⟩ := Option.ne_none_iff_exists'.mp present
    have created := soFar.stored found
    rw [map_labelled_routeAll] at created
    obtain ⟨creator, isCreator⟩ := Option.ne_none_iff_exists'.mp created
    have sameKey := List.find?_some isCreator
    rw [decide_eq_true_eq] at sameKey
    exact isProbe.fresh creator (List.mem_of_find?_eq_some isCreator)
      (sameKey.trans isKey.symm)
  have routed :=
    (@RouteState.routeFragment_routed digest config
      (routeAll digest config calls).state probe.packet key now).destination
  rw [absent] at routed
  have isHint : fragmentFlowHint probe.packet = some flow.stableText := by
    simp [fragmentFlowHint, isProbe.exposed]
  rw [isHint] at routed
  rw [routeAll_append]
  simp only [applyRoute, RouteState.route, isId, keyOfId]
  rw [routed]
  rfl

theorem KnownFlow.append
    {earlier : List LabelledPacket}
    (later : List LabelledPacket)
    {arrival : LabelledPacket}
    {flow : FlowKey}
    (known : KnownFlow earlier arrival flow) :
    KnownFlow (earlier ++ later) arrival flow := by
  rcases known with own | ⟨first, member, rest⟩
  · exact .inl own
  · exact .inr ⟨first, List.mem_append_left _ member, rest⟩

/--
Flow affinity of routing.  A run that evicts and expires nothing keeps every
flow on one worker if the routes that its fragments find were created by
packets that hash like the flow.  Otherwise some flow is sent away from the
worker it hashes to, and the first fragment of its next datagram splits it.
-/
theorem routing_keeps_flows_together
    (digest : String → Nat)
    (config : RouteConfig)
    (calls : List RouteCall)
    (undisturbed : Undisturbed digest config calls) :
    (RoutesByFlow digest config.workers (labelledPackets calls) →
        FlowAffine (routeAll digest config calls).events) ∧
      (¬ RoutesByFlow digest config.workers (labelledPackets calls) →
        ∃ arrival ∈ labelledPackets calls, ∃ flow,
          KnownFlow (labelledPackets calls) arrival flow ∧
            ∀ probe now, FreshProbe (labelledPackets calls) probe flow →
              ¬ FlowAffine
                (routeAll digest config
                  (calls ++ [.packet probe now])).events) := by
  refine ⟨?_, ?_⟩
  · intro byFlow first firstMember second secondMember flow firstKnown
      secondKnown
    rw [map_labelled_routeAll] at firstKnown secondKnown
    rw [shard_eq_of_routesByFlow undisturbed byFlow firstMember firstKnown,
      shard_eq_of_routesByFlow undisturbed byFlow secondMember secondKnown]
  · intro astray
    simp only [RoutesByFlow, not_forall] at astray
    obtain ⟨arrival, isArrival, flow, key, creator, known, isKey, isCreator,
      elsewhere⟩ := astray
    refine ⟨arrival, isArrival, flow, known, ?_⟩
    intro probe now isProbe affine
    have isRouted := isArrival
    rw [← map_labelled_routeAll digest config calls] at isRouted
    obtain ⟨one, oneMember, rfl⟩ := List.mem_map.mp isRouted
    obtain ⟨other, isOther, isShard⟩ :=
      (routeAll_routedSoFar undisturbed).fragments one oneMember isKey
    rw [map_labelled_routeAll, isCreator] at isOther
    cases isOther
    have probeOwn : OwnFlow probe flow := by
      refine .inr ⟨?_, isProbe.exposed⟩
      simpa [LabelledPacket.routeKey] using isProbe.isFragment
    have together :=
      affine one
        (by rw [routeAll_probe undisturbed isProbe]; simp [oneMember])
        ⟨probe, stableShard digest flow.stableText config.workers⟩
        (by rw [routeAll_probe undisturbed isProbe]; simp) flow
        (by
          rw [map_labelled_routeAll, labelledPackets_append]
          exact known.append _)
        (.inl probeOwn)
    rw [isShard] at together
    exact elsewhere together

/-! ## Sample runs -/


theorem Undisturbed.append
    {earlier : List RouteCall}
    {call : RouteCall}
    (undisturbed : Undisturbed digest config earlier)
    (last :
      let before := (routeAll digest config earlier).state
      let after := (applyRoute digest config call before).state
      KeepsEntries before.fragmentRoutes after.fragmentRoutes ∧
        KeepsEntries before.flowRouteOverrides after.flowRouteOverrides) :
    Undisturbed digest config (earlier ++ [call]) := by
  intro first other later isSplit
  rcases List.eq_nil_or_concat later with rfl | ⟨rest, final, rfl⟩
  · obtain ⟨rfl, same⟩ := List.append_inj' isSplit rfl
    cases same
    exact last
  · rw [List.concat_eq_append, ← List.cons_append, ← List.append_assoc]
      at isSplit
    obtain ⟨rfl, -⟩ := List.append_inj' isSplit rfl
    exact undisturbed first other rest rfl

theorem Undisturbed.nil : Undisturbed digest config [] := by
  intro earlier call later isSplit
  simp at isSplit

/-- The digests of the texts that the sample runs hash. -/
def sampleDigest (text : String) : Nat :=
  if text = "eth0|-|6|10.0.0.1:50000|10.0.0.2:80" then
    18252641428629164809
  else if text = "eth0|-|6|10.0.0.1:50002|10.0.0.2:80" then
    9675100069666124646
  else if text = "eth0|-|6|fd00::1:50000|fd00::2:80" then
    17486236966155529117
  else if text = "frag|eth0||6|fd00::1|fd00::2|6|7" then
    11645650607715194750
  else
    0

/-- Two workers. -/
def sampleRoutes : RouteConfig where
  workers := 2
  maxFragmentRoutes := 65536
  fragmentIdle := 60
  flowIdle := 300

/-- An unfragmented segment from a port to port 80. -/
def sampleFlowPacket (version : Nat) (src dst : String) (port : Nat) :
    ParsedPacket where
  sessionId := "s"
  packetId := 1
  timestampNs := 0
  interface := "eth0"
  capturedLength := 60
  wireLength := 60
  ipVersion := version
  src
  dst
  protocol := 6
  vlanIds := []
  networkPayload := []
  transportParsed := true
  sport := port
  dport := 80

/-- The first fragment of a datagram whose payload shows two ports. -/
def sampleFirstFragment (ports : Bytes) : ParsedPacket :=
  {
    sampleFlowPacket 4 "10.0.0.1" "10.0.0.2" 0 with
    networkPayload := ports
    fragmentId := some 44
    moreFragments := true
    transportParsed := false
    dport := 0
  }

/-- A segment and a fragmented datagram of one flow. -/
def fragmentedFlow : List RouteCall :=
  [.packet ⟨sampleFlowPacket 4 "10.0.0.1" "10.0.0.2" 50000, 1⟩ 0,
    .packet ⟨sampleFirstFragment [195, 80, 0, 80, 0, 0, 0, 1], 2⟩ 0]

theorem fragmentedFlow_routesByFlow :
    RoutesByFlow sampleDigest 2 (labelledPackets fragmentedFlow) := by
  have fragments :
      ∀ arrival ∈ labelledPackets fragmentedFlow,
        arrival.routeKey.isSome →
          arrival =
            ⟨sampleFirstFragment [195, 80, 0, 80, 0, 0, 0, 1], 2⟩ := by
    decide
  have owns
      {arrival : LabelledPacket}
      (isArrival : arrival ∈ labelledPackets fragmentedFlow)
      (isFragment : arrival.routeKey.isSome)
      {flow : FlowKey}
      (own : OwnFlow arrival flow) :
      some flow =
        exposedFlow (sampleFirstFragment [195, 80, 0, 80, 0, 0, 0, 1]) := by
    obtain rfl := fragments arrival isArrival isFragment
    rcases own with ⟨decoded, -⟩ | ⟨-, exposed⟩
    · cases decoded
    · exact exposed.symm
  intro arrival isArrival flow key creator known isKey isCreator
  have isFlow :
      some flow =
        exposedFlow (sampleFirstFragment [195, 80, 0, 80, 0, 0, 0, 1]) := by
    rcases known with own | ⟨first, isFirst, same, -, own⟩
    · exact owns isArrival (by rw [isKey]; rfl) own
    · exact owns isFirst same.2.2 own
  have creatorKey := List.find?_some isCreator
  rw [decide_eq_true_eq] at creatorKey
  have isText : creator.routingText key = flow.stableText := by
    have isFragment :=
      fragments creator (List.mem_of_find?_eq_some isCreator)
        (by rw [creatorKey]; rfl)
    simp [isFragment, LabelledPacket.routingText, fragmentFlowHint, ← isFlow]
  rw [isText]

/-- The run of `fragmentedFlow` is undisturbed and keeps its flow together. -/
theorem fragmentedFlow_stays_together :
    FlowAffine (routeAll sampleDigest sampleRoutes fragmentedFlow).events :=
  (routing_keeps_flows_together sampleDigest sampleRoutes fragmentedFlow
    ((Undisturbed.nil.append (by decide +kernel)).append
      (by decide +kernel))).1 fragmentedFlow_routesByFlow

/-- A segment of one flow, then a reused fragment identifier. -/
def reusedIdentifier : List RouteCall :=
  [.packet ⟨sampleFlowPacket 4 "10.0.0.1" "10.0.0.2" 50002, 1⟩ 0,
    .packet ⟨sampleFirstFragment [195, 80, 0, 80, 0, 0, 0, 1], 2⟩ 0,
    .packet ⟨sampleFirstFragment [195, 82, 0, 80, 0, 0, 0, 1], 3⟩ 0]

/-- A segment and an atomic fragment of one flow. -/
def atomicFragment : List RouteCall :=
  [.packet ⟨sampleFlowPacket 6 "fd00::1" "fd00::2" 50000, 1⟩ 0,
    .packet
      ⟨{ sampleFlowPacket 6 "fd00::1" "fd00::2" 50000 with
          fragmentId := some 7 }, 2⟩ 0]

/-- A run of first fragments only. -/
theorem firstFragmentsFirst_of_offsets
    {packets : List LabelledPacket}
    (allFirst : ∀ arrival ∈ packets, arrival.packet.fragmentOffset = 0) :
    FirstFragmentsFirst packets := by
  intro earlier arrival later isSplit _ notFirst
  exact (notFirst (allFirst arrival (by simp [isSplit]))).elim

/-- Neither run is disturbed, and both split a flow. -/
theorem reusedIdentifier_and_atomicFragment_split_flows :
    (Undisturbed sampleDigest sampleRoutes reusedIdentifier ∧
        FirstFragmentsFirst (labelledPackets reusedIdentifier) ∧
        ¬ FlowAffine
          (routeAll sampleDigest sampleRoutes reusedIdentifier).events) ∧
      Undisturbed sampleDigest sampleRoutes atomicFragment ∧
        FirstFragmentsFirst (labelledPackets atomicFragment) ∧
        ¬ FlowAffine
          (routeAll sampleDigest sampleRoutes atomicFragment).events := by
  refine ⟨⟨?_, ?_, ?_⟩, ?_, ?_, ?_⟩
  · exact ((Undisturbed.nil.append (by decide +kernel)).append
      (by decide +kernel)).append (by decide +kernel)
  · exact firstFragmentsFirst_of_offsets (by decide)
  · intro affine
    have together :=
      affine
        ⟨⟨sampleFlowPacket 4 "10.0.0.1" "10.0.0.2" 50002, 1⟩, 0⟩
        (by decide +kernel)
        ⟨⟨sampleFirstFragment [195, 82, 0, 80, 0, 0, 0, 1], 3⟩, 1⟩
        (by decide +kernel)
        (sampleFlowPacket 4 "10.0.0.1" "10.0.0.2" 50002).flow.1
        (.inl (.inl ⟨rfl, rfl⟩))
        (.inl (.inr ⟨rfl, by decide +kernel⟩))
    cases together
  · exact (Undisturbed.nil.append (by decide +kernel)).append
      (by decide +kernel)
  · exact firstFragmentsFirst_of_offsets (by decide)
  · intro affine
    have together :=
      affine
        ⟨⟨sampleFlowPacket 6 "fd00::1" "fd00::2" 50000, 1⟩, 1⟩
        (by decide +kernel)
        ⟨⟨{ sampleFlowPacket 6 "fd00::1" "fd00::2" 50000 with
            fragmentId := some 7 }, 2⟩, 0⟩
        (by decide +kernel)
        (sampleFlowPacket 6 "fd00::1" "fd00::2" 50000).flow.1
        (.inl (.inl ⟨rfl, rfl⟩))
        (.inl (.inl ⟨rfl, rfl⟩))
    cases together

end PacketAudit
