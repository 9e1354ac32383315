import KernelNode.Net.Manager

open bitcoin std.collections transition p2p.net

namespace net

variable {n : Nat} {proxy : Bool}

/-- The slots that `stop` is done with. -/
def StopPhase.Passed : StopPhase → Nat → Prop
  | .not_called, _ => False
  | .scanning slot, i | .sending slot _, i => i < slot
  | .returned, _ => True

/-- What a step of a thread can do to what `stop` reads and sends. -/
structure ManagerState.Moves (state : ManagerState n) (i : Fin n) (next : ManagerState n) :
    Prop where
  running : next.running = state.running
  stop : next.stop = state.stop
  requests : state.requests ⊆ next.requests
  others : ∀ j, j ≠ i → next.threads j = state.threads j ∧
    next.peer_writers j = state.peer_writers j
  published : state.peer_writers i = (state.threads i).published →
    next.peer_writers i = (next.threads i).published
  locked : state.Unlocked i ∨ next.peer_writers i = state.peer_writers i
  receiving : ∀ destination connection, next.threads i = .receiving destination connection →
    state.running = true

section

variable {state next : ManagerState n}

/-- A thread that goes on and leaves its slot as it is. -/
theorem ManagerState.Moves.advance {middle : ManagerState n} {i : Fin n} {phase : ThreadPhase}
    (hsame : middle.running = state.running ∧ middle.stop = state.stop ∧
      middle.threads = state.threads ∧ middle.peer_writers = state.peer_writers)
    (hrequests : state.requests ⊆ middle.requests)
    (hpublished : phase.published = (state.threads i).published)
    (hreceiving : ∀ destination connection, phase = .receiving destination connection →
      state.running = true) : state.Moves i (middle.advance i phase) := by
  obtain ⟨hrunning, hstop, hthreads, hslots⟩ := hsame
  constructor
  case running => exact hrunning
  case stop => exact hstop
  case requests => exact hrequests
  case others => exact fun j hne => by simp [ManagerState.advance, hne, hthreads, hslots]
  case published => exact fun hslot => by simp [ManagerState.advance, hslots, hslot, hpublished]
  case locked => exact .inr (congrFun hslots i)
  case receiving => simpa [ManagerState.advance] using hreceiving

/-- A thread that goes on and writes to its slot. -/
theorem ManagerState.Moves.write {i : Fin n} {phase : ThreadPhase} {slot : Option ConnectionId}
    (hlock : state.Unlocked i) (hslot : slot = phase.published)
    (hreceiving : ∀ destination connection, phase ≠ .receiving destination connection) :
    state.Moves i ({ state with
      peer_writers := Function.update state.peer_writers i slot }.advance i phase) := by
  constructor
  case running => rfl
  case stop => rfl
  case requests => exact List.Subset.refl _
  case others => exact fun j hne => ⟨Function.update_of_ne hne _ _, Function.update_of_ne hne _ _⟩
  case published => exact fun _ => by simp [ManagerState.advance, hslot]
  case locked => exact .inl hlock
  case receiving => simp [ManagerState.advance, hreceiving]

theorem ThreadPhase.published_receiving {destination : Destination} {connection : ConnectionId}
    {phase : ThreadPhase} (hphase : phase = .receiving destination connection) :
    phase.published = some connection := by
  rw [hphase]
  rfl

theorem ManagerStep.moves {i : Fin n} (hstep : ManagerStep proxy state (.thread i) next) :
    state.Moves i next := by
  cases hstep with
  | check hphase =>
    refine .advance ⟨rfl, rfl, rfl, rfl⟩ (List.Subset.refl _) ?_ ?_
    · rw [hphase]
      split <;> rfl
    · split <;> simp
  | @select _ empty_selections hphase record =>
    have hnone := (after_select_idle proxy empty_selections
      (record.map address_book.Record.network_addr)).2
    refine .advance ⟨rfl, rfl, rfl, rfl⟩ (List.Subset.refl _) ?_
      fun destination connection hreceiving => ?_
    · rw [hphase, hnone]
      rfl
    · rw [ThreadPhase.published_receiving hreceiving] at hnone
      cases hnone
  | test hphase =>
    refine .advance ⟨rfl, rfl, rfl, rfl⟩ (List.Subset.refl _) ?_ ?_
    · rw [hphase]
      split <;> rfl
    · split
      next hrunning => exact fun _ _ _ => hrunning
      next => simp
  | publish hphase hlock => exact .write hlock rfl (by simp)
  | clear hphase hlock => exact .write hlock rfl (by simp)
  | stall hphase =>
    exact .advance ⟨rfl, rfl, rfl, rfl⟩ (List.subset_append_left _ _)
      (congrArg ThreadPhase.published hphase).symm (by simp)
  | insert hphase _ | already_connected hphase _ | connect hphase | refuse hphase
  | remove_refused hphase | receive hphase | fail hphase | release hphase | remove hphase =>
    exact .advance ⟨rfl, rfl, rfl, rfl⟩ (List.Subset.refl _)
      (congrArg ThreadPhase.published hphase).symm (by simp)

/-- The flag is cleared before the slots are read, each slot has the connection of
    its thread, and every reader in a slot that is done with has got its request. -/
structure ManagerState.Signalled (state : ManagerState n) : Prop where
  running : state.stop ≠ .not_called → state.running = false
  published : ∀ i, state.peer_writers i = (state.threads i).published
  locked : ∀ (i : Fin n) connection, state.stop = .sending i connection →
    state.peer_writers i = some connection
  sent : ∀ (i : Fin n) destination connection, state.stop.Passed i →
    state.threads i = .receiving destination connection →
    (connection, .Shutdown) ∈ state.requests

theorem ManagerState.Signalled.moves {i : Fin n} (hsignalled : state.Signalled)
    (hmoves : state.Moves i next) : next.Signalled := by
  constructor
  case running =>
    rw [hmoves.stop, hmoves.running]
    exact hsignalled.running
  case published =>
    intro j
    by_cases hj : j = i
    · subst hj
      exact hmoves.published (hsignalled.published j)
    · obtain ⟨hthread, hslot⟩ := hmoves.others j hj
      rw [hthread, hslot]
      exact hsignalled.published j
  case locked =>
    intro j connection hstop
    rw [hmoves.stop] at hstop
    have hbefore := hsignalled.locked j connection hstop
    by_cases hj : j = i
    · subst hj
      -- a slot that is being read is locked
      rcases hmoves.locked with hlock | hslot
      · exact absurd hstop (hlock connection)
      · rw [hslot, hbefore]
    · rw [(hmoves.others j hj).2, hbefore]
  case sent =>
    intro j destination connection hpassed hreceiving
    rw [hmoves.stop] at hpassed
    by_cases hj : j = i
    · subst hj
      -- a thread does not enter the body of its loop after the flag was cleared
      have hrunning := hmoves.receiving destination connection hreceiving
      rw [hsignalled.running (by rintro hstop; simp [hstop, StopPhase.Passed] at hpassed)]
        at hrunning
      cases hrunning
    · rw [(hmoves.others j hj).1] at hreceiving
      exact hmoves.requests (hsignalled.sent j destination connection hpassed hreceiving)

theorem ManagerState.Signalled.step_stop (hsignalled : state.Signalled)
    (hstep : ManagerStep proxy state .stop next) : next.Signalled := by
  obtain ⟨hrunning, hpublished, hlocked, hsent⟩ := hsignalled
  cases hstep with
  | store hstop => exact ⟨fun _ => rfl, hpublished, by simp, by simp [StopPhase.Passed]⟩
  | @lock i connection hstop hslot =>
    refine ⟨fun _ => hrunning (by simp [hstop]), hpublished, ?_, ?_⟩
    · intro j other hsending
      cases Fin.ext (StopPhase.sending.inj hsending).1
      rw [← (StopPhase.sending.inj hsending).2]
      exact hslot
    · intro j destination other hpassed
      exact hsent j destination other (by rwa [hstop])
  | @lock_empty i hstop hslot =>
    refine ⟨fun _ => hrunning (by simp [hstop]), hpublished, by simp, ?_⟩
    intro j destination connection hpassed hreceiving
    rcases Nat.lt_succ_iff_lt_or_eq.mp hpassed with hless | heq
    · exact hsent j destination connection (by rwa [hstop]) hreceiving
    · -- the thread of an empty slot is not in the body of its loop
      cases Fin.ext heq
      rw [hpublished, ThreadPhase.published_receiving hreceiving] at hslot
      cases hslot
  | @send k connection hstop =>
    refine ⟨fun _ => hrunning (by simp [hstop]), hpublished, by simp, ?_⟩
    intro j destination other hpassed hreceiving
    change state.threads j = _ at hreceiving
    rcases Nat.lt_succ_iff_lt_or_eq.mp hpassed with hless | heq
    · exact List.mem_append_left _
        (hsent j destination other (by rwa [hstop]) hreceiving)
    · -- the connection in the locked slot is the one that the thread reads from
      have hslot := hlocked j connection (by rw [hstop, heq])
      rw [hpublished, ThreadPhase.published_receiving hreceiving] at hslot
      cases hslot
      exact List.mem_append_right _ (List.mem_singleton.mpr rfl)
  | return_ hstop =>
    refine ⟨fun _ => hrunning (by simp [hstop]), hpublished, by simp, ?_⟩
    intro j destination connection _
    exact hsent j destination connection (by rw [hstop]; exact j.isLt)

theorem ManagerState.Signalled.step {action : ManagerAction n} (hsignalled : state.Signalled)
    (hstep : ManagerStep proxy state action next) : next.Signalled := by
  cases action with
  | thread i => exact hsignalled.moves hstep.moves
  | stop => exact hsignalled.step_stop hstep
  | request =>
    cases hstep
    refine ⟨hsignalled.running, hsignalled.published, hsignalled.locked, ?_⟩
    intro j destination connection hpassed hreceiving
    exact List.mem_append_left _ (hsignalled.sent j destination connection hpassed hreceiving)

theorem reachable_signalled (hreach : (manager_system n proxy).Reachable state) :
    state.Signalled := by
  refine hreach.invariant (P := ManagerState.Signalled) ?_ fun _ _ _ hsignalled hstep =>
    hsignalled.step hstep
  rintro state rfl
  exact ⟨fun hstop => absurd rfl hstop, fun _ => rfl, nofun, fun _ _ _ hpassed => hpassed.elim⟩

/-- Nothing starts a manager again that was stopped. -/
theorem run_returned {last : ManagerState n} {labels : List (ManagerAction n)}
    (hrun : (manager_system n proxy).Run state labels last) (hreturned : state.stop = .returned) :
    last.stop = .returned := by
  refine hrun.preserves (P := fun last => last.stop = .returned) ?_ hreturned
  intro middle action next hstop hstep
  cases action with
  | thread i => exact (ManagerStep.moves hstep).stop.trans hstop
  | stop => cases hstep <;> simp_all
  | request =>
    cases hstep
    exact hstop

/-- Once the flag is cleared no thread enters the body of its loop. -/
theorem ManagerStep.receiving_of_not_running {action : ManagerAction n} {i : Fin n}
    {destination : Destination} {connection : ConnectionId}
    (hstep : ManagerStep proxy state action next) (hrunning : state.running = false)
    (hreceiving : next.threads i = .receiving destination connection) :
    state.threads i = .receiving destination connection := by
  cases hthread : action.is_thread i with
  | false => rw [← hstep.threads_of_not_thread hthread, hreceiving]
  | true =>
    cases action with
    | thread j =>
      cases of_decide_eq_true hthread
      rw [hstep.moves.receiving destination connection hreceiving] at hrunning
      cases hrunning
    | _ => cases hthread

/-- A thread that tests the flag leaves its loop. -/
theorem step_leaves (state : ManagerState n) {i : Fin n} {destination : Destination}
    {connection : ConnectionId} (hrunning : state.running = false)
    (hphase : state.threads i = .testing destination connection) :
    ∃ next, ManagerStep proxy state (.thread i) next ∧
      next.threads i = .releasing destination connection :=
  ⟨_, .test hphase, by simp [ManagerState.advance, hrunning]⟩

/-- With no slot locked, a thread with a new connection leaves its loop at the
    first test. -/
theorem run_leaves {i : Fin n} {destination : Destination} {connection : ConnectionId}
    (hreturned : state.stop = .returned) (hrunning : state.running = false)
    (hphase : state.threads i = .publishing destination connection ∨
      state.threads i = .testing destination connection) :
    ∃ steps last, (manager_system n proxy).Run state (List.replicate steps (.thread i)) last ∧
      last.threads i = .releasing destination connection := by
  rcases hphase with hphase | hphase
  · have hlock : state.Unlocked i := by simp [ManagerState.Unlocked, hreturned]
    obtain ⟨next, hnext, hleft⟩ := step_leaves ({ state with
      peer_writers := Function.update state.peer_writers i (some connection) }.advance i
        (.testing destination connection)) hrunning (Function.update_self i _ _)
    have hpublish : (manager_system n proxy).Run state [.thread i] _ :=
      (System.Run.nil state).snoc (ManagerStep.publish hphase hlock)
    exact ⟨2, next, hpublish.snoc hnext, hleft⟩
  · obtain ⟨next, hnext, hleft⟩ := step_leaves state hrunning hphase
    exact ⟨1, next, (System.Run.nil state).snoc hnext, hleft⟩

end

/-- Once `stop` has returned, every thread in the body of its receive loop has had a
    shutdown sent to the connection that it reads from. However the threads go on,
    none enters the body, and a thread that has completed a connection leaves the
    loop. -/
theorem stop_reaches_readers {state : ManagerState n}
    (hreach : (manager_system n proxy).Reachable state) (hreturned : state.stop = .returned) :
    (∀ i destination connection, state.threads i = .receiving destination connection →
      (connection, .Shutdown) ∈ state.requests) ∧
    ∀ labels last, (manager_system n proxy).Run state labels last →
      ∀ i destination connection,
        (∀ action next, ManagerStep proxy last action next →
          next.threads i = .receiving destination connection →
          last.threads i = .receiving destination connection) ∧
        (last.threads i = .publishing destination connection ∨
            last.threads i = .testing destination connection →
          ∃ steps left,
            (manager_system n proxy).Run last (List.replicate steps (.thread i)) left ∧
            left.threads i = .releasing destination connection) := by
  refine ⟨fun i destination connection => ?_, fun labels last hrun i destination connection => ?_⟩
  · exact (reachable_signalled hreach).sent i destination connection (by rw [hreturned]; trivial)
  · have hlast := run_returned hrun hreturned
    have hrunning := (reachable_signalled (hreach.run hrun)).running (by simp [hlast])
    exact ⟨fun action next hstep => hstep.receiving_of_not_running hrunning,
      run_leaves hlast hrunning⟩

/-- The first thread reads from its connection while the manager is stopped, and the
    second one has connected but not yet filled its slot. -/
theorem regtest_stopped : ∃ state, (manager_system 2 false).Reachable state ∧
    state.stop = .returned ∧ state.threads 0 = .receiving regtest_destination 0 ∧
      state.threads 1 = .publishing { regtest_destination with port := 18445 } 1 := by
  have hnew : (manager_system 2 false).Reachable (.new 2) := .of_init rfl
  have hselected := (hnew.step (.check (i := 0) rfl)).step
    (.select (i := 0) rfl (some (regtest_record 18444)))
  have hpublished := ((hselected.step (.insert (i := 0) rfl (by decide))).step
    (.connect (i := 0) rfl)).step (.publish (i := 0) rfl nofun)
  have hreading := hpublished.step (.test (i := 0) rfl)
  have hother := (hreading.step (.check (i := 1) rfl)).step
    (.select (i := 1) rfl (some (regtest_record 18445)))
  have hconnected := (hother.step (.insert (i := 1) rfl (by decide))).step
    (.connect (i := 1) rfl)
  have hscanned := (hconnected.step (.store rfl)).step (.lock (i := 0) rfl rfl)
  exact ⟨_, ((hscanned.step (.send rfl)).step (.lock_empty (i := 1) rfl rfl)).step (.return_ rfl),
    rfl, rfl, rfl⟩

theorem stop_reaches_readers_two_threads : ∃ state, (manager_system 2 false).Reachable state ∧
    state.threads 0 = .receiving regtest_destination 0 ∧ (0, .Shutdown) ∈ state.requests ∧
      ∃ steps left,
        (manager_system 2 false).Run state (List.replicate steps (.thread 1)) left ∧
        left.threads 1 = .releasing { regtest_destination with port := 18445 } 1 := by
  obtain ⟨state, hreach, hstop, hreading, hconnected⟩ := regtest_stopped
  obtain ⟨hsent, hlater⟩ := stop_reaches_readers hreach hstop
  exact ⟨state, hreach, hreading, hsent 0 _ _ hreading,
    (hlater [] state (.nil state) 1 _ _).2 (.inl hconnected)⟩

end net
