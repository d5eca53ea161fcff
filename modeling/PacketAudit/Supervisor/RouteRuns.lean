import PacketAudit.Supervisor.Routing

namespace PacketAudit

open Library

/-!
# Runs of the router

Without eviction or expiry the route of a fragment key never changes: every
fragment goes where the packet that created the route was hashed to, and every
override repeats what some fragment of the flow was told.
-/

/-- A packet to be routed, labelled with the datagram it is part of. -/
structure LabelledPacket where
  packet : ParsedPacket
  datagram : Nat
  deriving Repr, DecidableEq

/-- The fragment key of a packet with a fragment header. -/
def LabelledPacket.routeKey (arrival : LabelledPacket) : Option String :=
  arrival.packet.fragmentId.map (fragmentRouteKey arrival.packet)

/-- The text that `_route` hashes when a fragment creates a route. -/
def LabelledPacket.routingText
    (arrival : LabelledPacket)
    (key : String) : String :=
  (fragmentFlowHint arrival.packet).getD key

/-- A flow of a packet: decoded ports, or ports shown by its payload. -/
def OwnFlow (arrival : LabelledPacket) (flow : FlowKey) : Prop :=
  (arrival.packet.transportParsed = true ∧ arrival.packet.flow.1 = flow) ∨
    (arrival.packet.fragmentId.isSome = true ∧
      exposedFlow arrival.packet = some flow)

/-- Two fragments of one datagram. -/
def SameDatagram (first second : LabelledPacket) : Prop :=
  first.datagram = second.datagram ∧
    first.routeKey = second.routeKey ∧
    first.routeKey.isSome

/-- A flow of a packet, from itself or from its offset-0 fragment. -/
def KnownFlow
    (packets : List LabelledPacket)
    (arrival : LabelledPacket)
    (flow : FlowKey) : Prop :=
  OwnFlow arrival flow ∨
    ∃ first ∈ packets,
      SameDatagram first arrival ∧
        first.packet.fragmentOffset = 0 ∧
        OwnFlow first flow

/-- A routed packet. -/
structure Routed where
  labelled : LabelledPacket
  shard : Nat
  deriving Repr, DecidableEq

/-- Packets with a common flow went to the same worker. -/
def FlowAffine (routed : List Routed) : Prop :=
  ∀ first ∈ routed, ∀ second ∈ routed, ∀ flow,
    KnownFlow (routed.map Routed.labelled) first.labelled flow →
      KnownFlow (routed.map Routed.labelled) second.labelled flow →
        first.shard = second.shard

/-- A call of `_route`, or of `_expire_fragment_routes`. -/
inductive RouteCall where
  | packet (arrival : LabelledPacket) (now : Int)
  | expire (now : Int)
  deriving Repr, DecidableEq

/-- The packets among the calls. -/
def labelledPackets (calls : List RouteCall) : List LabelledPacket :=
  calls.filterMap fun
    | .packet arrival _ => some arrival
    | .expire _ => none

/-- One call, reporting the packet it routed. -/
def applyRoute
    (digest : String → Nat)
    (config : RouteConfig)
    (call : RouteCall)
    (state : RouteState) : Outcome RouteState Routed :=
  match call with
  | .packet arrival now =>
      let (next, shard) := state.route digest config arrival.packet now
      { state := next, events := [{ labelled := arrival, shard }] }
  | .expire now => .quiet (state.expireFragmentRoutes config now)

/-- A sequence of calls on new route tables. -/
def routeAll
    (digest : String → Nat)
    (config : RouteConfig)
    (calls : List RouteCall) : Outcome RouteState Routed :=
  runAll (applyRoute digest config) calls {}

/-- Every key of one table is still a key of another. -/
def KeepsEntries
    (before after : OrderedTable String (Nat × Int)) : Prop :=
  before.entries.map Prod.fst ⊆ after.entries.map Prod.fst

instance
    (before after : OrderedTable String (Nat × Int)) :
    Decidable (KeepsEntries before after) :=
  inferInstanceAs
    (Decidable
      (before.entries.map Prod.fst ⊆ after.entries.map Prod.fst))

theorem KeepsEntries.get?_ne_none
    {before after : OrderedTable String (Nat × Int)}
    {key : String}
    {value : Nat × Int}
    (kept : KeepsEntries before after)
    (found : before.get? key = some value) :
    ∃ other, after.get? key = some other := by
  have member := OrderedTable.mem_keys (OrderedTable.get?_eq_some.mp found)
  apply Option.ne_none_iff_exists'.mp
  intro absent
  exact OrderedTable.get?_eq_none.mp absent (kept member)

/-- No call evicts or expires a route-table entry. -/
def Undisturbed
    (digest : String → Nat)
    (config : RouteConfig)
    (calls : List RouteCall) : Prop :=
  ∀ earlier call later,
    calls = earlier ++ call :: later →
      let before := (routeAll digest config earlier).state
      let after := (applyRoute digest config call before).state
      KeepsEntries before.fragmentRoutes after.fragmentRoutes ∧
        KeepsEntries before.flowRouteOverrides after.flowRouteOverrides

/-- Every later fragment of a datagram follows its offset-0 fragment. -/
def FirstFragmentsFirst (packets : List LabelledPacket) : Prop :=
  ∀ earlier arrival later,
    packets = earlier ++ arrival :: later →
      arrival.packet.fragmentId.isSome →
      arrival.packet.fragmentOffset ≠ 0 →
        ∃ first ∈ earlier,
          SameDatagram first arrival ∧ first.packet.fragmentOffset = 0

/-- The packet that creates the route of a fragment key. -/
def creatorOf
    (packets : List LabelledPacket)
    (key : String) : Option LabelledPacket :=
  packets.find? fun arrival => arrival.routeKey = some key

/-- The routes that a flow's fragments find point where the flow hashes to. -/
def RoutesByFlow
    (digest : String → Nat)
    (workers : Nat)
    (packets : List LabelledPacket) : Prop :=
  ∀ arrival ∈ packets, ∀ flow key creator,
    KnownFlow packets arrival flow →
      arrival.routeKey = some key →
        creatorOf packets key = some creator →
          stableShard digest (creator.routingText key) workers =
            stableShard digest flow.stableText workers

namespace RouteState

variable {digest : String → Nat}
variable {config : RouteConfig}
variable {state : RouteState}

/-- Making room adds no entry. -/
theorem get?_makeRoom
    {table : OrderedTable String (Nat × Int)}
    {key : String}
    {value : Nat × Int}
    (found : (makeRoom config table).1.get? key = some value) :
    table.get? key = some value := by
  unfold makeRoom at found
  split at found
  · split at found
    · exact found
    · have kept := OrderedTable.get?_eq_some.mp found
      exact OrderedTable.get?_eq_some.mpr
        (OrderedTable.mem_erase.mp kept).1
  · exact found

theorem get?_erase_of_some
    {table : OrderedTable String (Nat × Int)}
    {key erased : String}
    {value : Nat × Int}
    (found : (table.erase erased).get? key = some value) :
    table.get? key = some value :=
  OrderedTable.get?_eq_some.mpr
    (OrderedTable.mem_erase.mp (OrderedTable.get?_eq_some.mp found)).1

/-- What remembering an override stores. -/
theorem get?_rememberFlowOverride
    {flowText text : String}
    {shard : Nat}
    {now : Int}
    {value : Nat × Int}
    (found :
      (state.rememberFlowOverride config flowText shard
        now).flowRouteOverrides.get? text = some value) :
    state.flowRouteOverrides.get? text = some value ∨
      (text = flowText ∧ value = (shard, now)) := by
  simp only [rememberFlowOverride, OrderedTable.get?_set] at found
  split at found
  case isTrue same =>
    exact .inr ⟨same, (Option.some.inj found).symm⟩
  case isFalse =>
    exact .inl (get?_erase_of_some (get?_makeRoom found))

/-- What routing a fragment does to the tables, and where it goes. -/
structure FragmentRouted
    (digest : String → Nat)
    (config : RouteConfig)
    (packet : ParsedPacket)
    (key : String)
    (state next : RouteState)
    (shard : Nat) : Prop where
  destination :
    match state.fragmentRoutes.get? key with
    | some (known, _) => shard = known
    | none =>
        shard =
          stableShard digest ((fragmentFlowHint packet).getD key)
            config.workers
  own : ∃ now, next.fragmentRoutes.get? key = some (shard, now)
  others :
    ∀ {other : String} {value : Nat × Int}, other ≠ key →
      next.fragmentRoutes.get? other = some value →
        state.fragmentRoutes.get? other = some value
  overrides :
    ∀ {text : String} {value : Nat × Int},
      next.flowRouteOverrides.get? text = some value →
        state.flowRouteOverrides.get? text = some value ∨
          (fragmentFlowHint packet = some text ∧ value.1 = shard)

theorem routeFragment_routed
    (packet : ParsedPacket)
    (key : String)
    (now : Int) :
    FragmentRouted digest config packet key state
      (state.routeFragment digest config packet key now).1
      (state.routeFragment digest config packet key now).2 := by
  unfold routeFragment
  cases found : state.fragmentRoutes.get? key with
  | some known =>
      obtain ⟨shard, since⟩ := known
      have others
          {other : String}
          {value : Nat × Int}
          (different : other ≠ key)
          (stored :
            ((state.fragmentRoutes.erase key).set key (shard, now)).get?
              other = some value) :
          state.fragmentRoutes.get? other = some value := by
        rw [OrderedTable.get?_set_of_ne _ _ different] at stored
        exact get?_erase_of_some stored
      cases hint : fragmentFlowHint packet with
      | none =>
          exact {
            destination := by simp [found]
            own := ⟨now, OrderedTable.get?_set_self _ _ _⟩
            others := others
            overrides := fun stored => .inl stored
          }
      | some flowHint =>
          exact {
            destination := by simp [found]
            own := ⟨now, OrderedTable.get?_set_self _ _ _⟩
            others := others
            overrides := by
              intro text value stored
              rcases get?_rememberFlowOverride stored with
                before | ⟨rfl, rfl⟩
              · exact .inl before
              · exact .inr ⟨hint, rfl⟩
          }
  | none =>
      have others
          {base : RouteState}
          {shard : Nat}
          {other : String}
          {value : Nat × Int}
          (different : other ≠ key)
          (stored :
            (base.rememberFragmentRoute config key shard
              now).fragmentRoutes.get? other = some value) :
          base.fragmentRoutes.get? other = some value := by
        simp only [rememberFragmentRoute] at stored
        rw [OrderedTable.get?_set_of_ne _ _ different] at stored
        exact get?_makeRoom stored
      cases hint : fragmentFlowHint packet with
      | none =>
          exact {
            destination := by simp [found, hint]
            own := ⟨now, OrderedTable.get?_set_self _ _ _⟩
            others := fun different stored => others different stored
            overrides := fun stored => .inl stored
          }
      | some flowHint =>
          exact {
            destination := by simp [found, hint]
            own := ⟨now, OrderedTable.get?_set_self _ _ _⟩
            others := fun different stored => others different stored
            overrides := by
              intro text value stored
              rcases get?_rememberFlowOverride stored with
                before | ⟨rfl, rfl⟩
              · exact .inl before
              · exact .inr ⟨hint, rfl⟩
          }

/-- What routing an unfragmented packet does, and where it goes. -/
structure FlowRouted
    (digest : String → Nat)
    (config : RouteConfig)
    (flowText : String)
    (state next : RouteState)
    (shard : Nat) : Prop where
  destination :
    match state.flowRouteOverrides.get? flowText with
    | some (known, _) => shard = known
    | none => shard = stableShard digest flowText config.workers
  routes : next.fragmentRoutes = state.fragmentRoutes
  overrides :
    ∀ {text : String} {value : Nat × Int},
      next.flowRouteOverrides.get? text = some value →
        ∃ since, state.flowRouteOverrides.get? text = some (value.1, since)

theorem routeFlow_routed
    (flowText : String)
    (now : Int) :
    FlowRouted digest config flowText state
      (state.routeFlow digest config flowText now).1
      (state.routeFlow digest config flowText now).2 := by
  unfold routeFlow
  cases found : state.flowRouteOverrides.get? flowText with
  | none =>
      exact {
        destination := by simp [found]
        routes := rfl
        overrides := fun stored => ⟨_, stored⟩
      }
  | some known =>
      obtain ⟨shard, since⟩ := known
      exact {
        destination := by simp [found]
        routes := rfl
        overrides := by
          intro text value stored
          simp only [OrderedTable.get?_set] at stored
          split at stored
          case isTrue same =>
            cases stored
            exact ⟨since, same ▸ found⟩
          case isFalse =>
            exact ⟨_, get?_erase_of_some stored⟩
      }

end RouteState

/-! ## The invariant of a run -/

theorem creatorOf_append_of_some
    {earlier later : List LabelledPacket}
    {key : String}
    {creator : LabelledPacket}
    (found : creatorOf earlier key = some creator) :
    creatorOf (earlier ++ later) key = some creator := by
  unfold creatorOf at found ⊢
  rw [List.find?_append, found, Option.some_or]

theorem creatorOf_append_of_none
    {earlier : List LabelledPacket}
    {arrival : LabelledPacket}
    {key : String}
    (absent : creatorOf earlier key = none)
    (isKey : arrival.routeKey = some key) :
    creatorOf (earlier ++ [arrival]) key = some arrival := by
  unfold creatorOf at absent ⊢
  rw [List.find?_append, absent, Option.none_or]
  simp [isKey]

/-- Where the route of a key points. -/
def creatorShard
    (digest : String → Nat)
    (workers : Nat)
    (key : String)
    (creator : LabelledPacket) : Nat :=
  stableShard digest (creator.routingText key) workers

/-- An overridden flow goes where one of its fragments went. -/
def PinnedBy
    (routed : List Routed)
    (flowText : String)
    (shard : Nat) : Prop :=
  ∃ other ∈ routed,
    other.labelled.routeKey.isSome ∧
      fragmentFlowHint other.labelled.packet = some flowText ∧
      other.shard = shard

theorem PinnedBy.append
    {earlier : List Routed}
    (later : List Routed)
    {flowText : String}
    {shard : Nat}
    (pinned : PinnedBy earlier flowText shard) :
    PinnedBy (earlier ++ later) flowText shard := by
  obtain ⟨other, member, rest⟩ := pinned
  exact ⟨other, List.mem_append_left _ member, rest⟩

/-- The tables and the routed packets of an undisturbed run. -/
structure RoutedSoFar
    (digest : String → Nat)
    (workers : Nat)
    (routed : List Routed)
    (state : RouteState) : Prop where
  created :
    ∀ {key : String} {creator : LabelledPacket},
      creatorOf (routed.map Routed.labelled) key = some creator →
        ∃ since,
          state.fragmentRoutes.get? key =
            some (creatorShard digest workers key creator, since)
  stored :
    ∀ {key : String} {value : Nat × Int},
      state.fragmentRoutes.get? key = some value →
        creatorOf (routed.map Routed.labelled) key ≠ none
  overrides :
    ∀ {text : String} {value : Nat × Int},
      state.flowRouteOverrides.get? text = some value →
        PinnedBy routed text value.1
  fragments :
    ∀ one ∈ routed, ∀ {key : String},
      one.labelled.routeKey = some key →
        ∃ creator,
          creatorOf (routed.map Routed.labelled) key = some creator ∧
            one.shard = creatorShard digest workers key creator
  plain :
    ∀ one ∈ routed, one.labelled.routeKey = none →
      one.shard =
          stableShard digest one.labelled.packet.flow.1.stableText workers ∨
        PinnedBy routed one.labelled.packet.flow.1.stableText one.shard

theorem RoutedSoFar.initial
    (digest : String → Nat)
    (workers : Nat) :
    RoutedSoFar digest workers [] {} where
  created := by
    intro key creator found
    cases found
  stored := by
    intro key value found
    cases found
  overrides := by
    intro text value found
    cases found
  fragments := by simp
  plain := by simp

variable {digest : String → Nat}
variable {config : RouteConfig}

/-- A fragment was routed. -/
theorem RoutedSoFar.fragment
    {routed : List Routed}
    {state next : RouteState}
    {arrival : LabelledPacket}
    {key : String}
    {shard : Nat}
    (soFar : RoutedSoFar digest config.workers routed state)
    (isKey : arrival.routeKey = some key)
    (kept : KeepsEntries state.fragmentRoutes next.fragmentRoutes)
    (step :
      RouteState.FragmentRouted digest config arrival.packet key state next
        shard) :
    RoutedSoFar digest config.workers (routed ++ [⟨arrival, shard⟩])
      next := by
  have map :
      (routed ++ [(⟨arrival, shard⟩ : Routed)]).map Routed.labelled =
        routed.map Routed.labelled ++ [arrival] := by
    simp
  have ownCreator :
      ∃ creator,
        creatorOf (routed.map Routed.labelled ++ [arrival]) key =
            some creator ∧
          shard = creatorShard digest config.workers key creator := by
    have destination := step.destination
    cases isCreated : creatorOf (routed.map Routed.labelled) key with
    | some creator =>
        obtain ⟨since, found⟩ := soFar.created isCreated
        rw [found] at destination
        exact ⟨creator, creatorOf_append_of_some isCreated, destination⟩
    | none =>
        have absent : state.fragmentRoutes.get? key = none := by
          by_contra present
          obtain ⟨value, found⟩ := Option.ne_none_iff_exists'.mp present
          exact soFar.stored found isCreated
        rw [absent] at destination
        exact ⟨arrival, creatorOf_append_of_none isCreated isKey,
          destination⟩
  have pinned {text : String} {other : Nat}
      (before : PinnedBy routed text other) :
      PinnedBy (routed ++ [⟨arrival, shard⟩]) text other :=
    before.append _
  refine {
    created := ?_
    stored := ?_
    overrides := ?_
    fragments := ?_
    plain := ?_
  }
  · intro other creator found
    rw [map] at found
    by_cases same : other = key
    · subst same
      obtain ⟨own, isOwn, isShard⟩ := ownCreator
      rw [isOwn] at found
      cases found
      rw [← isShard]
      exact step.own
    · have earlier :
          creatorOf (routed.map Routed.labelled) other = some creator := by
        unfold creatorOf at found ⊢
        rw [List.find?_append] at found
        have notOwn : arrival.routeKey ≠ some other := by
          rw [isKey]
          exact fun isOther => same (Option.some.inj isOther).symm
        simpa [notOwn] using found
      obtain ⟨since, found⟩ := soFar.created earlier
      obtain ⟨value, stillFound⟩ := kept.get?_ne_none found
      have before := step.others same stillFound
      rw [found] at before
      cases before
      exact ⟨since, stillFound⟩
  · intro other value found
    rw [map]
    by_cases same : other = key
    · subst same
      obtain ⟨own, isOwn, -⟩ := ownCreator
      rw [isOwn]
      exact Option.some_ne_none _
    · have before := soFar.stored (step.others same found)
      obtain ⟨creator, isCreator⟩ := Option.ne_none_iff_exists'.mp before
      rw [creatorOf_append_of_some isCreator]
      exact Option.some_ne_none _
  · intro text value found
    rcases step.overrides found with before | ⟨hint, isShard⟩
    · exact pinned (soFar.overrides before)
    · exact ⟨⟨arrival, shard⟩, by simp, by simp [isKey], hint,
        isShard.symm⟩
  · intro one member other oneKey
    rw [map]
    rcases List.mem_append.mp member with earlier | isNew
    · obtain ⟨creator, isCreator, isShard⟩ :=
        soFar.fragments one earlier oneKey
      exact ⟨creator, creatorOf_append_of_some isCreator, isShard⟩
    · obtain rfl := List.mem_singleton.mp isNew
      rw [isKey] at oneKey
      cases oneKey
      exact ownCreator
  · intro one member oneKey
    rcases List.mem_append.mp member with earlier | isNew
    · exact (soFar.plain one earlier oneKey).imp_right pinned
    · obtain rfl := List.mem_singleton.mp isNew
      rw [isKey] at oneKey
      cases oneKey

/-- An unfragmented packet was routed. -/
theorem RoutedSoFar.unfragmented
    {routed : List Routed}
    {state next : RouteState}
    {arrival : LabelledPacket}
    {shard : Nat}
    (soFar : RoutedSoFar digest config.workers routed state)
    (noKey : arrival.routeKey = none)
    (step :
      RouteState.FlowRouted digest config arrival.packet.flow.1.stableText
        state next shard) :
    RoutedSoFar digest config.workers (routed ++ [⟨arrival, shard⟩])
      next := by
  have sameCreators (key : String) :
      creatorOf ((routed ++ [(⟨arrival, shard⟩ : Routed)]).map
          Routed.labelled) key =
        creatorOf (routed.map Routed.labelled) key := by
    simp [creatorOf, noKey]
  have pinned {text : String} {other : Nat}
      (before : PinnedBy routed text other) :
      PinnedBy (routed ++ [⟨arrival, shard⟩]) text other :=
    before.append _
  refine {
    created := ?_
    stored := ?_
    overrides := ?_
    fragments := ?_
    plain := ?_
  }
  · intro key creator found
    rw [sameCreators] at found
    rw [step.routes]
    exact soFar.created found
  · intro key value found
    rw [sameCreators]
    rw [step.routes] at found
    exact soFar.stored found
  · intro text value found
    obtain ⟨since, found⟩ := step.overrides found
    have before := soFar.overrides found
    exact pinned before
  · intro one member key oneKey
    rw [sameCreators]
    rcases List.mem_append.mp member with earlier | isNew
    · exact soFar.fragments one earlier oneKey
    · obtain rfl := List.mem_singleton.mp isNew
      rw [noKey] at oneKey
      cases oneKey
  · intro one member oneKey
    rcases List.mem_append.mp member with earlier | isNew
    · exact (soFar.plain one earlier oneKey).imp_right pinned
    · obtain rfl := List.mem_singleton.mp isNew
      have destination := step.destination
      cases found :
          state.flowRouteOverrides.get?
            arrival.packet.flow.1.stableText with
      | none =>
          rw [found] at destination
          exact .inl destination
      | some value =>
          rw [found] at destination
          right
          have before := pinned (soFar.overrides found)
          rw [← show shard = value.1 from destination] at before
          exact before

/-- An expiry that expires no fragment route. -/
theorem RoutedSoFar.expire
    {routed : List Routed}
    {state : RouteState}
    {now : Int}
    (soFar : RoutedSoFar digest config.workers routed state)
    (kept :
      KeepsEntries state.fragmentRoutes
        (state.expireFragmentRoutes config now).fragmentRoutes) :
    RoutedSoFar digest config.workers routed
      (state.expireFragmentRoutes config now) := by
  have smaller
      {cutoff : Int}
      {table : OrderedTable String (Nat × Int)}
      {key : String}
      {value : Nat × Int}
      (found : (RouteState.unexpired cutoff table).get? key = some value) :
      table.get? key = some value :=
    OrderedTable.get?_eq_some.mpr
      (List.mem_filter.mp (OrderedTable.get?_eq_some.mp found)).1
  refine {
    created := ?_
    stored := fun found => soFar.stored (smaller found)
    overrides := fun found => soFar.overrides (smaller found)
    fragments := soFar.fragments
    plain := soFar.plain
  }
  intro key creator isCreator
  obtain ⟨since, found⟩ := soFar.created isCreator
  obtain ⟨value, stillFound⟩ := kept.get?_ne_none found
  have before := smaller stillFound
  rw [found] at before
  cases before
  exact ⟨since, stillFound⟩

/-- One call that evicts and expires no fragment route. -/
theorem RoutedSoFar.call
    {routed : List Routed}
    {state : RouteState}
    (soFar : RoutedSoFar digest config.workers routed state)
    (call : RouteCall)
    (kept :
      KeepsEntries state.fragmentRoutes
        (applyRoute digest config call state).state.fragmentRoutes) :
    RoutedSoFar digest config.workers
      (routed ++ (applyRoute digest config call state).events)
      (applyRoute digest config call state).state := by
  cases call with
  | expire now =>
      simp only [applyRoute, Outcome.state_quiet, Outcome.events_quiet,
        List.append_nil] at kept ⊢
      exact soFar.expire kept
  | packet arrival now =>
      simp only [applyRoute, RouteState.route] at kept ⊢
      cases isFragment : arrival.packet.fragmentId with
      | none =>
          rw [isFragment] at kept
          exact soFar.unfragmented
            (by simp [LabelledPacket.routeKey, isFragment])
            (RouteState.routeFlow_routed _ now)
      | some fragmentId =>
          rw [isFragment] at kept
          exact soFar.fragment
            (by simp [LabelledPacket.routeKey, isFragment]) kept
            (RouteState.routeFragment_routed _ _ now)

theorem routeAll_append
    (digest : String → Nat)
    (config : RouteConfig)
    (earlier : List RouteCall)
    (call : RouteCall) :
    routeAll digest config (earlier ++ [call]) = {
      state :=
        (applyRoute digest config call
          (routeAll digest config earlier).state).state
      events :=
        (routeAll digest config earlier).events ++
          (applyRoute digest config call
            (routeAll digest config earlier).state).events
    } := by
  simp [routeAll, runAll_append, runAll, Outcome.andThen]

theorem Undisturbed.earlier
    {earlier later : List RouteCall}
    (undisturbed : Undisturbed digest config (earlier ++ later)) :
    Undisturbed digest config earlier := by
  intro first call rest isSplit
  exact undisturbed first call (rest ++ later) (by simp [isSplit])

/-- The invariant of every undisturbed run. -/
theorem routeAll_routedSoFar
    {calls : List RouteCall}
    (undisturbed : Undisturbed digest config calls) :
    RoutedSoFar digest config.workers (routeAll digest config calls).events
      (routeAll digest config calls).state := by
  induction calls using List.reverseRecOn with
  | nil =>
      exact .initial digest config.workers
  | append_singleton earlier call inductionHypothesis =>
      have soFar := inductionHypothesis undisturbed.earlier
      have kept := (undisturbed earlier call [] rfl).1
      rw [routeAll_append]
      exact soFar.call call kept

theorem labelledPackets_append
    (first second : List RouteCall) :
    labelledPackets (first ++ second) =
      labelledPackets first ++ labelledPackets second :=
  List.filterMap_append

theorem map_labelled_routeAll
    (digest : String → Nat)
    (config : RouteConfig)
    (calls : List RouteCall) :
    (routeAll digest config calls).events.map Routed.labelled =
      labelledPackets calls := by
  induction calls using List.reverseRecOn with
  | nil =>
      rfl
  | append_singleton earlier call inductionHypothesis =>
      rw [routeAll_append, List.map_append, inductionHypothesis,
        labelledPackets_append]
      cases call <;> rfl

end PacketAudit
