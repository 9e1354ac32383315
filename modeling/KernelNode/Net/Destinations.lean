import KernelNode.Lease
import KernelNode.Net.Manager

open bitcoin std.collections transition

namespace net

variable {n : Nat} {proxy : Bool}

/-- The destination of an attempt or a connection that is over, until the thread
    has taken it out of the set. -/
def ThreadPhase.ending : ThreadPhase → Option Destination
  | .refused destination | .releasing destination _ | .removing destination _ => some destination
  | _ => none

/-- The steps of the thread until it has taken the destination out of the set. -/
def ThreadPhase.cleanup : ThreadPhase → Nat
  | .releasing _ _ => 2
  | .refused _ | .removing _ _ => 1
  | _ => 0

/-- The set of connected peers as a lease: each thread holds the destination of
    its attempt or its connection. -/
def ManagerState.ledger (self : ManagerState n) : lease.Ledger (Fin n) Destination where
  taken := {destination | destination ∈ self.connected_peers}
  held i := {destination | (self.threads i).destination = some destination}

section

variable {state : ManagerState n} {i : Fin n} {phase : ThreadPhase} {destination : Destination}

theorem ManagerState.held_advance (other : Fin n) :
    (state.advance i phase).ledger.held other =
      if other = i then {destination | phase.destination = some destination}
      else state.ledger.held other := by
  by_cases hother : other = i
  · subst hother
    simp [ledger, advance]
  · simp [ledger, advance, hother]

/-- A step of a thread that keeps its destination, or stays without one. -/
theorem ManagerState.ledger_advance
    (hsame : phase.destination = (state.threads i).destination) :
    (state.advance i phase).ledger = state.ledger := by
  refine lease.Ledger.ext rfl (funext fun other => ?_)
  rw [held_advance]
  split
  next hother => rw [hother, hsame]; rfl
  next => rfl

theorem ManagerState.ledger_insert (hnone : (state.threads i).destination = none)
    (hphase : phase.destination = some destination) :
    ({ state with connected_peers := state.connected_peers.insert destination () }.advance i
      phase).ledger = state.ledger.acquire i {destination} := by
  refine lease.Ledger.ext ?_ (funext fun other => Set.ext fun item => ?_)
  · ext item
    simp [ledger, advance, lease.Ledger.acquire, AList.mem_insert]
  · rw [held_advance, lease.Ledger.mem_acquire_held]
    by_cases hother : other = i
    · subst hother
      simp [ledger, hnone, hphase, eq_comm]
    · simp [ledger, hother]

theorem ManagerState.ledger_erase (hheld : (state.threads i).destination = some destination)
    (hphase : phase.destination = none) :
    ({ state with connected_peers := state.connected_peers.erase destination }.advance i
      phase).ledger = state.ledger.give_back i {destination} := by
  refine lease.Ledger.ext ?_ (funext fun other => Set.ext fun item => ?_)
  · ext item
    simp [ledger, advance, lease.Ledger.give_back, AList.mem_erase, and_comm]
  · rw [held_advance, lease.Ledger.mem_give_back_held]
    by_cases hother : other = i
    · subst hother
      simp [ledger, hheld, hphase, eq_comm]
    · simp [ledger, hother]

end

section

variable {state next : ManagerState n} {action : ManagerAction n}

/-- A step leaves the lease as it is, or a thread takes a free destination, or a
    thread gives back the one that it holds. -/
theorem ManagerStep.ledger (hstep : ManagerStep proxy state action next) :
    next.ledger = state.ledger ∨
      (∃ i destination, destination ∉ state.connected_peers ∧
        next.ledger = state.ledger.acquire i {destination}) ∨
      ∃ i destination, (state.threads i).destination = some destination ∧
        next.ledger = state.ledger.give_back i {destination} := by
  cases hstep with
  | @check i _ hphase =>
    left
    apply ManagerState.ledger_advance
    rw [hphase]
    split <;> rfl
  | @select i _ hphase record =>
    left
    apply ManagerState.ledger_advance
    rw [hphase]
    exact (after_select_idle proxy _ _).1
  | @insert i destination hphase hfree =>
    right; left
    exact ⟨i, destination, hfree, ManagerState.ledger_insert (by rw [hphase]; rfl) rfl⟩
  | @test i _ _ hphase =>
    left
    apply ManagerState.ledger_advance
    rw [hphase]
    split <;> rfl
  | @remove_refused i destination hphase =>
    right; right
    have hheld : (state.threads i).destination = some destination := by rw [hphase]; rfl
    exact ⟨i, destination, hheld, ManagerState.ledger_erase hheld rfl⟩
  | @remove i destination _ hphase =>
    right; right
    have hheld : (state.threads i).destination = some destination := by rw [hphase]; rfl
    exact ⟨i, destination, hheld, ManagerState.ledger_erase hheld rfl⟩
  | already_connected hphase _ | connect hphase | refuse hphase | publish hphase _
  | receive hphase | fail hphase | stall hphase | release hphase | clear hphase _ =>
    exact .inl (ManagerState.ledger_advance (congrArg ThreadPhase.destination hphase).symm)
  | store | lock | lock_empty | send | return_ | request => exact .inl rfl

theorem reachable_exclusive (hreach : (manager_system n proxy).Reachable state) :
    state.ledger.Exclusive := by
  refine hreach.invariant (P := fun state => state.ledger.Exclusive) ?_
    fun state action next hexclusive hstep => ?_
  · rintro state rfl
    exact ⟨by simp [ManagerState.ledger, ManagerState.new, ThreadPhase.destination],
      by simp [Pairwise, ManagerState.ledger, ManagerState.new, ThreadPhase.destination]⟩
  · rcases ManagerStep.ledger hstep with hsame | ⟨i, destination, hfree, hnext⟩ |
      ⟨i, destination, hheld, hnext⟩
    · rw [hsame]
      exact hexclusive
    · rw [hnext]
      exact hexclusive.acquire (Set.disjoint_singleton_left.mpr hfree)
    · rw [hnext]
      exact hexclusive.give_back (Set.singleton_subset_iff.mpr hheld)

/-- A thread lets a destination go only by taking it out of the set. -/
theorem ManagerStep.not_mem_of_let_go {i : Fin n} {destination : Destination}
    (hstep : ManagerStep proxy state action next)
    (hheld : (state.threads i).destination = some destination)
    (hgone : (next.threads i).destination ≠ some destination) :
    destination ∉ next.connected_peers := by
  change destination ∈ state.ledger.held i at hheld
  change destination ∉ next.ledger.held i at hgone
  change destination ∉ next.ledger.taken
  rcases hstep.ledger with hsame | ⟨j, other, _, hnext⟩ | ⟨j, other, _, hnext⟩
  · rw [hsame] at hgone
    exact absurd hheld hgone
  · rw [hnext, lease.Ledger.mem_acquire_held] at hgone
    exact absurd (.inl hheld) hgone
  · rw [hnext, lease.Ledger.mem_give_back_held] at hgone
    rw [hnext]
    rintro ⟨_, hkept⟩
    exact hgone ⟨hheld, fun _ => hkept⟩

/-- Nothing but its own step moves a thread in its cleanup, and each of these
    brings it nearer to the removal. -/
theorem ManagerStep.cleanup {i : Fin n} {destination : Destination}
    (hstep : ManagerStep proxy state action next)
    (hending : (state.threads i).ending = some destination) :
    destination ∉ next.connected_peers ∨ (next.threads i).ending = some destination ∧
      (next.threads i).cleanup + [action].countP (·.is_thread i) ≤ (state.threads i).cleanup := by
  by_cases hthread : action.is_thread i
  · cases hstep with
    | @remove_refused j other hphase =>
      left
      simp_all [ManagerAction.is_thread, ThreadPhase.ending, ManagerState.advance]
    | @release j other connection hphase =>
      right
      simp_all [ManagerAction.is_thread, ThreadPhase.ending, ThreadPhase.cleanup,
        ManagerState.advance]
    | @remove j other connection hphase =>
      left
      simp_all [ManagerAction.is_thread, ThreadPhase.ending, ManagerState.advance]
    | _ => simp_all [ManagerAction.is_thread, ThreadPhase.ending]
  · right
    simp [hstep.threads_of_not_thread (by simpa using hthread), hending, hthread]

theorem run_cleanup {i : Fin n} {destination : Destination} {labels : List (ManagerAction n)}
    (hrun : (manager_system n proxy).Run state labels next)
    (hending : (state.threads i).ending = some destination) :
    (∃ before after middle, labels = before ++ after ∧
      (manager_system n proxy).Run state before middle ∧
      (manager_system n proxy).Run middle after next ∧ destination ∉ middle.connected_peers) ∨
      (next.threads i).ending = some destination ∧
        (next.threads i).cleanup + labels.countP (·.is_thread i) ≤ (state.threads i).cleanup := by
  induction hrun with
  | nil => exact .inr ⟨hending, by simp⟩
  | @snoc last next labels action hrun hstep ih =>
    rcases ih with ⟨before, after, middle, rfl, hbefore, hafter, hfree⟩ | ⟨hlast, hcount⟩
    · exact .inl ⟨before, after ++ [action], middle, by simp, hbefore, hafter.snoc hstep, hfree⟩
    · rcases ManagerStep.cleanup hstep hlast with hfree | ⟨hnext, hless⟩
      · exact .inl ⟨labels ++ [action], [], next, by simp, hrun.snoc hstep, .nil next, hfree⟩
      · refine .inr ⟨hnext, ?_⟩
        rw [List.countP_append]
        omega

theorem ThreadPhase.cleanup_of_ending {phase : ThreadPhase} {destination : Destination}
    (hending : phase.ending = some destination) : 0 < phase.cleanup ∧ phase.cleanup ≤ 2 := by
  cases phase <;> simp_all [ending, cleanup]

/-- No lock that a thread needs in its cleanup is ever held for longer than one
    step. -/
theorem step_of_ending {i : Fin n} {destination : Destination}
    (hending : (state.threads i).ending = some destination) :
    ∃ next, ManagerStep proxy state (.thread i) next := by
  cases hphase : state.threads i with
  | refused => exact ⟨_, .remove_refused hphase⟩
  | releasing => exact ⟨_, .release hphase⟩
  | removing => exact ⟨_, .remove hphase⟩
  | _ => simp [hphase, ThreadPhase.ending] at hending

end

/-- At every moment each destination in the set is held by exactly one thread, and
    the destination of each thread is in the set. A thread lets it go only by
    taking it out, which it does with its first two steps after the attempt or the
    connection is over, however the others run; a thread that has selected a
    destination that is out of the set connects to it. -/
theorem destination_held_once {state : ManagerState n}
    (hreach : (manager_system n proxy).Reachable state) (destination : Destination) :
    (destination ∈ state.connected_peers →
      ∃! i, (state.threads i).destination = some destination) ∧
    (∀ i, (state.threads i).destination = some destination →
      destination ∈ state.connected_peers) ∧
    (∀ i action next, ManagerStep proxy state action next →
      (state.threads i).destination = some destination →
      (next.threads i).destination ≠ some destination → destination ∉ next.connected_peers) ∧
    (∀ i, (state.threads i).ending = some destination →
      (∃ next, ManagerStep proxy state (.thread i) next) ∧
      ∀ labels last, (manager_system n proxy).Run state labels last →
        2 ≤ labels.countP (·.is_thread i) →
        ∃ before after middle, labels = before ++ after ∧
          (manager_system n proxy).Run state before middle ∧
          (manager_system n proxy).Run middle after last ∧
          destination ∉ middle.connected_peers) ∧
    ∀ i, state.threads i = .inserting destination → destination ∉ state.connected_peers →
      ∃ next, ManagerStep proxy state (.thread i) next ∧
        next.threads i = .connecting destination := by
  have hexclusive := reachable_exclusive hreach
  refine ⟨fun htaken => ?_, fun i hheld => ?_, fun i action next hstep => hstep.not_mem_of_let_go,
    fun i hending => ⟨step_of_ending hending, fun labels last hrun htwo => ?_⟩,
    fun i hphase hfree => ⟨_, .insert hphase hfree, Function.update_self i _ _⟩⟩
  · obtain ⟨i, hheld⟩ := (hexclusive.taken_iff destination).mp htaken
    refine ⟨i, hheld, fun other hother => ?_⟩
    by_contra hne
    exact Set.disjoint_left.mp (hexclusive.disjoint hne) hother hheld
  · exact (hexclusive.taken_iff destination).mpr ⟨i, hheld⟩
  · rcases run_cleanup hrun hending with hfree | ⟨hlast, hcount⟩
    · exact hfree
    · have hstart := ThreadPhase.cleanup_of_ending hending
      have hrest := ThreadPhase.cleanup_of_ending hlast
      omega

/-- Both threads select one destination, and the first one fails to connect to it. -/
def regtest_contended : ManagerState 2 :=
  let first := ((ManagerState.new 2).advance 0 (.selecting 0)).advance 0
    (.inserting regtest_destination)
  let second := (first.advance 1 (.selecting 0)).advance 1 (.inserting regtest_destination)
  let connecting := { second with
    connected_peers := second.connected_peers.insert regtest_destination () }.advance 0
      (.connecting regtest_destination)
  connecting.advance 0 (.refused regtest_destination)

theorem regtest_contended_reachable : (manager_system 2 false).Reachable regtest_contended := by
  have hnew : (manager_system 2 false).Reachable (.new 2) := .of_init rfl
  have hfirst := (hnew.step (.check (i := 0) rfl)).step
    (.select (i := 0) rfl (some (regtest_record 18444)))
  have hsecond := (hfirst.step (.check (i := 1) rfl)).step
    (.select (i := 1) rfl (some (regtest_record 18444)))
  exact (hsecond.step (.insert (i := 0) rfl (by decide))).step (.refuse (i := 0) rfl)

theorem destination_held_once_refused :
    (∃! i, (regtest_contended.threads i).destination = some regtest_destination) ∧
      ∀ action next, ManagerStep false regtest_contended action next →
        next.threads 0 = .checking 0 → regtest_destination ∉ next.connected_peers := by
  obtain ⟨honce, _, hfree, _⟩ :=
    destination_held_once regtest_contended_reachable regtest_destination
  refine ⟨honce (by decide), fun action next hstep hnext => hfree 0 action next hstep rfl ?_⟩
  rw [hnext]
  nofun

end net
