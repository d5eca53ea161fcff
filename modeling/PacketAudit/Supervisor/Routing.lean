import PacketAudit.Library.OrderedTable
import PacketAudit.Library.Trace
import PacketAudit.Packets.Fields

namespace PacketAudit

open Library

/-!
# Routing packets to workers

`AuditSupervisor._route`: an unfragmented packet goes to the worker its flow
hashes to, unless a fragment of the flow has pinned the flow elsewhere; a
fragment goes where the route of its fragment key points, and the first
fragment of a key creates that route.  The digest is a parameter, and clock
readings are integers.
-/

/-- The configuration that routing reads. -/
structure RouteConfig where
  workers : Nat
  maxFragmentRoutes : Nat
  fragmentIdle : Int
  flowIdle : Int
  deriving Repr, DecidableEq

/-- The supervisor's route tables and their counters. -/
structure RouteState where
  fragmentRoutes : OrderedTable String (Nat × Int) := .empty
  flowRouteOverrides : OrderedTable String (Nat × Int) := .empty
  fragmentRouteEvictions : Nat := 0
  flowRouteOverrideEvictions : Nat := 0
  fragmentRouteFallbacks : Nat := 0

/-- `FlowKey.stable_text`. -/
def FlowKey.stableText (flow : FlowKey) : String :=
  let vlans :=
    if flow.vlanIds.isEmpty then "-"
    else ",".intercalate (flow.vlanIds.map toString)
  flow.interface ++ "|" ++ vlans ++ "|" ++ toString flow.protocol ++ "|" ++
    flow.endpointA.address ++ ":" ++ toString flow.endpointA.port ++ "|" ++
    flow.endpointB.address ++ ":" ++ toString flow.endpointB.port

/-- `_stable_shard`. -/
def stableShard
    (digest : String → Nat)
    (text : String)
    (workers : Nat) : Nat :=
  digest text % workers

/-- `_fragment_route_key`, for a packet with a fragment identifier. -/
def fragmentRouteKey (packet : ParsedPacket) (fragmentId : Nat) : String :=
  "frag|" ++ packet.interface ++ "|" ++
    ",".intercalate (packet.vlanIds.map toString) ++ "|" ++
    toString packet.ipVersion ++ "|" ++ packet.src ++ "|" ++ packet.dst ++
    "|" ++ toString packet.protocol ++ "|" ++ toString fragmentId

/-- The flow whose ports the payload of a first fragment shows. -/
def exposedFlow (packet : ParsedPacket) : Option FlowKey :=
  if packet.fragmentOffset ≠ 0 ∨ packet.protocol ∉ [6, 17] then
    none
  else if packet.networkPayload.length < 4 then
    none
  else
    some (FlowKey.canonical packet.protocol packet.src
      (bigEndian (packet.networkPayload.extract 0 2)) packet.dst
      (bigEndian (packet.networkPayload.extract 2 4)) packet.interface
      packet.vlanIds).1

/-- `_fragment_flow_hint`. -/
def fragmentFlowHint (packet : ParsedPacket) : Option String :=
  (exposedFlow packet).map FlowKey.stableText

namespace RouteState

/-- Remove the oldest entry of a full table. -/
def makeRoom
    (config : RouteConfig)
    (table : OrderedTable String (Nat × Int)) :
    OrderedTable String (Nat × Int) × Nat :=
  if config.maxFragmentRoutes ≤ table.size then
    match table.oldest? with
    | none => (table, 0)
    | some oldest => (table.erase oldest, 1)
  else
    (table, 0)

/-- `_remember_flow_override`. -/
def rememberFlowOverride
    (config : RouteConfig)
    (flowText : String)
    (shard : Nat)
    (now : Int)
    (state : RouteState) : RouteState :=
  let (kept, evicted) :=
    makeRoom config (state.flowRouteOverrides.erase flowText)
  {
    state with
    flowRouteOverrides := kept.set flowText (shard, now)
    flowRouteOverrideEvictions := state.flowRouteOverrideEvictions + evicted
  }

/-- Store a new fragment route, evicting the oldest from a full table. -/
def rememberFragmentRoute
    (config : RouteConfig)
    (key : String)
    (shard : Nat)
    (now : Int)
    (state : RouteState) : RouteState :=
  let (kept, evicted) := makeRoom config state.fragmentRoutes
  {
    state with
    fragmentRoutes := kept.set key (shard, now)
    fragmentRouteEvictions := state.fragmentRouteEvictions + evicted
  }

/-- The branch of `_route` for fragments. -/
def routeFragment
    (digest : String → Nat)
    (config : RouteConfig)
    (packet : ParsedPacket)
    (key : String)
    (now : Int)
    (state : RouteState) : RouteState × Nat :=
  match state.fragmentRoutes.get? key with
  | some (shard, _) =>
      let refreshed := {
        state with
        fragmentRoutes :=
          (state.fragmentRoutes.erase key).set key (shard, now)
      }
      match fragmentFlowHint packet with
      | some flowHint =>
          (refreshed.rememberFlowOverride config flowHint shard now, shard)
      | none => (refreshed, shard)
  | none =>
      match fragmentFlowHint packet with
      | some flowHint =>
          let shard := stableShard digest flowHint config.workers
          let remembered :=
            state.rememberFlowOverride config flowHint shard now
          (remembered.rememberFragmentRoute config key shard now, shard)
      | none =>
          let shard := stableShard digest key config.workers
          let counted := {
            state with
            fragmentRouteFallbacks := state.fragmentRouteFallbacks + 1
          }
          (counted.rememberFragmentRoute config key shard now, shard)

/-- The branch of `_route` for unfragmented packets. -/
def routeFlow
    (digest : String → Nat)
    (config : RouteConfig)
    (flowText : String)
    (now : Int)
    (state : RouteState) : RouteState × Nat :=
  match state.flowRouteOverrides.get? flowText with
  | some (shard, _) =>
      ({
        state with
        flowRouteOverrides :=
          (state.flowRouteOverrides.erase flowText).set flowText (shard, now)
      }, shard)
  | none => (state, stableShard digest flowText config.workers)

/-- `_route`. -/
def route
    (digest : String → Nat)
    (config : RouteConfig)
    (packet : ParsedPacket)
    (now : Int)
    (state : RouteState) : RouteState × Nat :=
  match packet.fragmentId with
  | some fragmentId =>
      routeFragment digest config packet (fragmentRouteKey packet fragmentId)
        now state
  | none =>
      routeFlow digest config packet.flow.1.stableText now state

/-- Keep the entries of a table that were used since a cutoff. -/
def unexpired
    (cutoff : Int)
    (table : OrderedTable String (Nat × Int)) :
    OrderedTable String (Nat × Int) where
  entries := table.entries.filter fun entry => cutoff ≤ entry.2.2
  keysNodup :=
    table.keysNodup.sublist (List.filter_sublist.map Prod.fst)

/-- `_expire_fragment_routes`. -/
def expireFragmentRoutes
    (config : RouteConfig)
    (now : Int)
    (state : RouteState) : RouteState :=
  {
    state with
    fragmentRoutes :=
      unexpired (now - config.fragmentIdle) state.fragmentRoutes
    flowRouteOverrides :=
      unexpired (now - config.flowIdle) state.flowRouteOverrides
  }

end RouteState

end PacketAudit
