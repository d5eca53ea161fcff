import Mathlib

namespace PacketAudit.Library

/-!
# Reading a queue up to a sentinel

A consumer takes items from the front of a queue to whose end any number of
producers append, and stops at the first sentinel.  What it has received is
always a beginning of all that was put, and at the end all that was put before
the sentinel.
-/

variable {ι : Type}

/-- All items that were put: those received, perhaps the sentinel, and the rest. -/
structure Received
    (stop : ι)
    (puts queue received : List ι)
    (stopped : Bool) : Prop where
  split : puts = received ++ ((if stopped then [stop] else []) ++ queue)
  noStop : stop ∉ received

section Receiving

variable {stop item : ι}
variable {puts queue received : List ι}
variable {stopped : Bool}

theorem Received.start (stop : ι) :
    Received stop [] [] [] false where
  split := rfl
  noStop := List.not_mem_nil

/-- A producer puts an item. -/
theorem Received.put
    (receives : Received stop puts queue received stopped)
    (item : ι) :
    Received stop (puts ++ [item]) (queue ++ [item]) received stopped where
  split := by
    rw [receives.split]
    simp only [List.append_assoc]
  noStop := receives.noStop

/-- The consumer gets an item. -/
theorem Received.get
    (receives : Received stop puts (item :: queue) received false)
    (notStop : item ≠ stop) :
    Received stop puts queue (received ++ [item]) false where
  split := by
    rw [receives.split]
    simp
  noStop := by
    rw [List.mem_append, List.mem_singleton, not_or]
    exact ⟨receives.noStop, Ne.symm notStop⟩

/-- The consumer gets the sentinel. -/
theorem Received.getStop
    (receives : Received stop puts (stop :: queue) received false) :
    Received stop puts queue received true where
  split := receives.split
  noStop := receives.noStop

/-- The items in front of the first sentinel. -/
def beforeStop [DecidableEq ι] (stop : ι) (items : List ι) : List ι :=
  items.takeWhile fun item => decide (item ≠ stop)

/-- A consumer that has stopped has received all in front of the sentinel. -/
theorem Received.eq_beforeStop
    [DecidableEq ι]
    (receives : Received stop puts queue received true) :
    received = beforeStop stop puts := by
  have passes : ∀ item ∈ received, decide (item ≠ stop) = true :=
    fun item member => decide_eq_true fun same =>
      receives.noStop (same ▸ member)
  unfold beforeStop
  rw [receives.split, if_pos rfl, List.takeWhile_append_of_pos passes,
    List.singleton_append, List.takeWhile_cons_of_neg (by simp),
    List.append_nil]

/-- A consumer that has not stopped has received a beginning of the items. -/
theorem Received.isPrefix
    (receives : Received stop puts queue received stopped) :
    received <+: puts :=
  ⟨_, receives.split.symm⟩

/-- A sentinel that was put and not taken is in the queue. -/
theorem Received.stop_mem
    (receives : Received stop puts queue received false)
    (isPut : stop ∈ puts) :
    stop ∈ queue := by
  rw [receives.split, List.mem_append] at isPut
  exact isPut.resolve_left receives.noStop

end Receiving

end PacketAudit.Library
