import PacketAudit.Supervisor.Accounting

namespace PacketAudit

open Library

/-!
# One queued ingress for each match

The invariant of whole runs of `_dispatch_batch`: the ingress used by final
matches together with the ingress still held never exceeds the ingress that
was put on worker queues.
-/

/-- The invariant of a run with an active suppressor. -/
structure PairedUp
    (limits : SuppressorLimits)
    (log : List DispatchEvent)
    (state : DispatchState) : Prop where
  bounded : state.suppressor.Bounded limits
  oneToOne :
    entriesOf (committedMatches log) + state.suppressor.held ≤
      (queuedIngress log : Multiset (MatchKey × IngressRecord))
  justified : ∀ found ∈ committedMatches log, found.Justified limits
  noFault :
    ∀ fault, .ended (.raised (.suppressor fault)) ∉ log
  suppressed : state.suppressedPackets ≤ (suppressedIds log).length

variable {limits : SuppressorLimits}

/-- What one branch adds to the log of a run. -/
structure BranchPairs
    (limits : SuppressorLimits)
    (prepared : DispatchState)
    (made : List PlanMatch)
    (result : Outcome DispatchState DispatchEvent) : Prop where
  bounded : result.state.suppressor.Bounded limits
  oneToOne :
    entriesOf (committedMatches result.events) +
        result.state.suppressor.held ≤
      prepared.suppressor.held + queuedIngress result.events
  planned : committedMatches result.events ⊆ made
  noFault :
    ∀ fault, .ended (.raised (.suppressor fault)) ∉ result.events
  suppressed :
    result.state.suppressedPackets ≤
      prepared.suppressedPackets + (suppressedIds result.events).length

/-- The ingress of a batch is the ingress that its plan retains. -/
theorem ingressEntries_packets
    {suppressor : Suppressor}
    {admission : Admission}
    {made : List PlanMatch}
    (planned : admission.Planned (some limits) suppressor made) :
    ingressEntries admission.frames admission.packets =
      ingressEntries admission.frames admission.original := by
  cases planned with
  | inactive isNone noPlan noMatch =>
      cases isNone
  | active isSome isPlan plans =>
      simpa [Admission.packets, isPlan] using plans.ingressRetained

theorem justified_of_planned
    {suppressor : Suppressor}
    {admission : Admission}
    {made : List PlanMatch}
    (planned : admission.Planned (some limits) suppressor made) :
    ∀ found ∈ made, found.Justified limits := by
  cases planned with
  | inactive isNone noPlan noMatch =>
      cases isNone
  | active isSome isPlan plans =>
      cases isSome
      exact plans.justified

/-- A branch that commits pairs its matches with ingress that was queued. -/
theorem branchPairs_of_commits
    {prepared : DispatchState}
    {admission : Admission}
    {made : List PlanMatch}
    {queued : List ParsedPacket}
    {result : Outcome DispatchState DispatchEvent}
    (bounded : prepared.suppressor.Bounded limits)
    (sameIngress :
      ingressEntries admission.frames queued =
        ingressEntries admission.frames admission.original)
    (committing :
      Commits (some limits) prepared admission made queued result ∨
        CommitFails prepared admission queued result) :
    BranchPairs limits prepared made result := by
  rcases committing with commits | fails
  · obtain ⟨stillBounded, counted⟩ := commits.safe rfl bounded.toExact
    refine {
      bounded := stillBounded
      oneToOne := ?_
      planned := ?_
      noFault := ?_
      suppressed := ?_
    }
    · rw [commits.events, committedMatches_callEvents,
        queuedIngress_callEvents, sameIngress, add_comm]
      exact counted
    · rw [commits.events, committedMatches_callEvents]
      exact List.Subset.refl _
    · intro fault
      rw [commits.events]
      simp
    · rw [commits.counted.suppressed, commits.events, suppressedIds,
        committedMatches_callEvents, List.length_map]
  · exact (fails.corrupt bounded.toExact).elim

theorem branchPairs
    {prepared : DispatchState}
    {admission : Admission}
    {made : List PlanMatch}
    {result : Outcome DispatchState DispatchEvent}
    (planned :
      admission.Planned (some limits) prepared.suppressor made)
    (bounded : prepared.suppressor.Bounded limits)
    (branch : Branch prepared admission made result) :
    BranchPairs limits prepared made result := by
  cases branch with
  | @unfinished ending isUnfinished =>
      refine {
        bounded := bounded
        oneToOne := ?_
        planned := ?_
        noFault := ?_
        suppressed := ?_
      }
      · simp [finish, committedMatches, queuedIngress]
      · simp [finish, committedMatches]
      · intro fault member
        obtain rfl : _ = ending := by simpa [finish] using member
        exact isUnfinished
      · exact Nat.le_add_right _ _
  | dropped reason nonempty =>
      obtain ⟨next, dropped, reports, isDrop, keeps, counted, -, counters⟩ :=
        dropBatch_spec planned reason
      rw [isDrop]
      refine {
        bounded := keeps rfl bounded
        oneToOne := ?_
        planned := ?_
        noFault := ?_
        suppressed := ?_
      }
      · rw [committedMatches_callEvents, queuedIngress_callEvents, add_comm,
          counted]
        exact Multiset.le_add_right _ _
      · rw [committedMatches_callEvents]
        exact List.filter_subset_self _
      · intro fault
        rw [ended_mem_callEvents]
        split <;> simp
      · rw [counters.suppressed, suppressedIds, committedMatches_callEvents,
          suppressedIds_prior]
        exact Nat.add_le_add_left (List.dedup_sublist _).length_le _
  | admitted =>
      exact branchPairs_of_commits bounded (ingressEntries_packets planned)
        (admitBatch_spec planned)
  | @skipped planLimits plan isPlan isEmpty =>
      have noPackets : admission.packets = [] := by
        simp [Admission.packets, isPlan, isEmpty]
      have same := ingressEntries_packets planned
      rw [noPackets] at same
      exact branchPairs_of_commits bounded same
        (skipBatch_spec planned isPlan)

/-- One call keeps the invariant. -/
theorem dispatchBatch_pairedUp
    (config : DispatchConfig)
    (call : DispatchCall)
    {log : List DispatchEvent}
    {state : DispatchState}
    (paired : PairedUp limits log state) :
    PairedUp limits
      (log ++ (dispatchBatch config (some limits) call state).events)
      (dispatchBatch config (some limits) call state).state := by
  by_cases nonempty : call.packets = []
  · have isEmpty :
        dispatchBatch config (some limits) call state =
          finish state [] .returned := by
      simp [dispatchBatch, nonempty]
    rw [isEmpty]
    refine {
      bounded := paired.bounded
      oneToOne := ?_
      justified := ?_
      noFault := ?_
      suppressed := ?_
    }
    · simpa [finish, committedMatches, queuedIngress] using paired.oneToOne
    · simpa [finish, committedMatches] using paired.justified
    · simpa [finish] using paired.noFault
    · simpa [finish, suppressedIds, committedMatches] using
        paired.suppressed
  obtain ⟨prepared, admission, made, preparation, branch⟩ :=
    dispatchBatch_branch config (some limits) state nonempty
  generalize dispatchBatch config (some limits) call state = result at branch
  have less := preparation.keepsLess
  have pairs :=
    branchPairs preparation.planned (less.bounded paired.bounded) branch
  have sameCount : prepared.suppressedPackets = state.suppressedPackets := by
    rw [preparation.sameCounters]
  refine {
    bounded := pairs.bounded
    oneToOne := ?_
    justified := ?_
    noFault := ?_
    suppressed := ?_
  }
  · rw [committedMatches_append, queuedIngress_append, entriesOf_append,
      ← Multiset.coe_add, add_assoc]
    calc
      _ ≤ entriesOf (committedMatches log) +
          (prepared.suppressor.held + queuedIngress result.events) :=
        add_le_add_right pairs.oneToOne _
      _ ≤ entriesOf (committedMatches log) +
          (state.suppressor.held + queuedIngress result.events) :=
        add_le_add_right (add_le_add_left less.held _) _
      _ ≤ _ := by
        rw [← add_assoc]
        exact add_le_add_left paired.oneToOne _
  · intro found member
    rw [committedMatches_append] at member
    rcases List.mem_append.mp member with earlier | new
    · exact paired.justified found earlier
    · exact justified_of_planned preparation.planned found
        (pairs.planned new)
  · intro fault member
    rcases List.mem_append.mp member with earlier | new
    · exact paired.noFault fault earlier
    · exact pairs.noFault fault new
  · have before := paired.suppressed
    have after := pairs.suppressed
    simp only [suppressedIds, committedMatches_append, List.filter_append,
      List.map_append, List.length_append] at before after ⊢
    omega

/-- Every run with an active suppressor keeps the invariant. -/
theorem dispatchAll_pairedUp
    (config : DispatchConfig)
    (limits : SuppressorLimits)
    (calls : List DispatchCall) :
    PairedUp limits (dispatchAll config (some limits) calls {}).events
      (dispatchAll config (some limits) calls {}).state := by
  have initial : PairedUp limits [] {} := {
    bounded := Suppressor.bounded_initial
    oneToOne := le_refl _
    justified := by simp [committedMatches]
    noFault := by simp
    suppressed := le_refl _
  }
  have run :=
    @runAll_invariant _ _ _ (dispatchBatch config (some limits))
      (fun _ => True) (PairedUp limits)
      (fun _ paired => dispatchBatch_pairedUp config _ paired)
      calls (fun _ _ => trivial) [] {} initial
  simpa [dispatchAll] using run

/-- Every match of a run used an ingress that was put on a queue. -/
theorem PairedUp.entry_queued
    {log : List DispatchEvent}
    {state : DispatchState}
    (paired : PairedUp limits log state)
    {found : PlanMatch}
    (member : found ∈ committedMatches log) :
    found.entry ∈ queuedIngress log := by
  have used : found.entry ∈ entriesOf (committedMatches log) :=
    List.mem_map_of_mem member
  exact Multiset.mem_of_le
    ((Multiset.le_add_right _ _).trans paired.oneToOne) used

/--
The one-to-one protocol.  In every run, each match, suppressed or not, uses an
ingress that was put on a worker queue by the same call or an earlier one, and
no ingress is used more often than it was put there.
-/
theorem dispatch_one_to_one
    (config : DispatchConfig)
    (limits : SuppressorLimits)
    (calls : List DispatchCall) :
    let run := dispatchAll config (some limits) calls {}
    ((committedMatches run.events).map PlanMatch.entry).Subperm
        (queuedIngress run.events) ∧
      (((queuedIngress run.events).map fun entry =>
          entry.2.packetId).Nodup →
        ((committedMatches run.events).map fun found =>
          found.record.packetId).Nodup) ∧
      (∀ earlier call later,
        calls = earlier ++ call :: later →
          let before := dispatchAll config (some limits) earlier {}
          let step := dispatchBatch config (some limits) call before.state
          ∀ found ∈ committedMatches step.events,
            found.entry ∈ queuedIngress (before.events ++ step.events)) ∧
      run.state.suppressedPackets ≤ (suppressedIds run.events).length ∧
      (∀ found ∈ committedMatches run.events, found.Justified limits) ∧
      (∀ fault, .ended (.raised (.suppressor fault)) ∉ run.events) ∧
      run.state.suppressor.Bounded limits := by
  intro run
  have paired := dispatchAll_pairedUp config limits calls
  have used :
      entriesOf (committedMatches run.events) ≤ queuedIngress run.events :=
    (Multiset.le_add_right _ _).trans paired.oneToOne
  refine ⟨?_, ?_, ?_, paired.suppressed, paired.justified, paired.noFault,
    paired.bounded⟩
  · exact Multiset.coe_le.mp used
  · intro distinct
    have ids := Multiset.map_le_map (f := fun entry => entry.2.packetId) used
    have nodup := Multiset.nodup_of_le ids (by simpa using distinct)
    simpa [entriesOf, Function.comp_def, PlanMatch.entry] using nodup
  · intro earlier call later isSplit before step found member
    have next :=
      dispatchBatch_pairedUp config call
        (dispatchAll_pairedUp config limits earlier)
    exact next.entry_queued (by
      rw [committedMatches_append]
      exact List.mem_append_right _ member)

end PacketAudit
