import KernelNode.Net.Interleaving

open bitcoin bitcoinkernel std.collections transition

namespace net

/-- The block thread: it runs, it sleeps in `wait_timeout`, or it has been woken and
    takes the lock again for a second look. -/
inductive BlockThread where
  | running
  | asleep
  | woken
deriving DecidableEq

def Phase.is_buffering : Phase → Bool
  | .buffering _ _ => true
  | _ => false

/-- The threads, the peers whose thread has buffered a block and has not yet called
    `notify_one`, and the block thread. -/
structure WakeState (C : Type) where
  sections : ThreadState C
  notifying : PeerId → Bool
  block_thread : BlockThread

inductive WakeAction where
  | peer (peer : PeerId) (action : SectionAction)
  | notify (peer : PeerId)
  | take_connectable (order : Reorder BlockHash)
  /-- The wait times out, or ends for no reason. -/
  | wake
  | process_block

/-- The peer whose thread takes the action. -/
def SectionAction.peer : SectionAction → Option PeerId
  | .connect peer | .begin_message peer _ _ | .advance peer | .disconnect peer _ => some peer
  | .take_connectable _ | .process_block => none

variable {C : Type}

/-- After `buffer_block` has left its section, the thread calls `notify_one` before
    it does anything else. A thread that has panicked before calls nothing. The
    block thread goes to sleep where its first look finds nothing, in the same
    section. -/
inductive WakeStep (kernelInst : ChainstateManager C) : WakeState C → WakeAction →
    WakeState C → Prop where
  | peer {state : WakeState C} {peer : PeerId} {action : SectionAction} {next : ThreadState C}
      (hpeer : action.peer = some peer) (hfree : state.notifying peer = false)
      (hstep : SectionStep kernelInst state.sections action next) :
      WakeStep kernelInst state (.peer peer action) { state with
        sections := next
        notifying := Function.update state.notifying peer
          ((state.sections.threads peer).any Phase.is_buffering &&
            (next.threads peer).isSome) }
  | notify {state : WakeState C} {peer : PeerId} (hnotifying : state.notifying peer = true) :
      WakeStep kernelInst state (.notify peer) { state with
        notifying := Function.update state.notifying peer false
        block_thread := if state.block_thread = .asleep then .woken else state.block_thread }
  | take_connectable {state : WakeState C} {order : Reorder BlockHash} {next : ThreadState C}
      (hawake : state.block_thread ≠ .asleep)
      (hstep : SectionStep kernelInst state.sections (.take_connectable order) next) :
      WakeStep kernelInst state (.take_connectable order) { state with
        sections := next
        block_thread := if state.block_thread = .running ∧ next.validating = none then .asleep
          else .running }
  | wake {state : WakeState C} (hasleep : state.block_thread = .asleep) :
      WakeStep kernelInst state .wake { state with block_thread := .woken }
  | process_block {state : WakeState C} {next : ThreadState C}
      (hrunning : state.block_thread = .running)
      (hstep : SectionStep kernelInst state.sections .process_block next) :
      WakeStep kernelInst state .process_block { state with sections := next }

def wake_system (kernelInst : ChainstateManager C) : System (WakeState C) WakeAction where
  init state := (section_system kernelInst).init state.sections ∧
    (∀ peer, state.notifying peer = false) ∧ state.block_thread = .running
  step := WakeStep kernelInst

/-- A block on its way to the buffer is decoded. -/
def Phase.Decodes (kernelInst : ChainstateManager C) : Phase → Prop
  | .releasing _ block | .buffering _ block => (block.convert kernelInst).isSome
  | _ => True

/-- The kernel decodes the blocks that the peers send. -/
def SendsDecoded (kernelInst : ChainstateManager C) (_ : WakeState C) : WakeAction → Prop
  | .peer _ (.begin_message _ _ (.Block block)) => (block.convert kernelInst).isSome
  | _ => True

/-- A header alone connects no block. -/
def HeadersConnectNothing (kernelInst : ChainstateManager C) : Prop :=
  ∀ (node : NodeState C) header hash,
    { node with chainman := (kernelInst.process_block_header node.chainman header).2
      }.is_on_active_chain kernelInst hash = node.is_on_active_chain kernelInst hash

/-- Something is queued or in flight. -/
def DownloadState.Busy (self : DownloadState) : Prop :=
  ∃ hash, hash ∈ self.queue ∨ hash ∈ self.in_flight

/-- No parent is connected and, once nothing is queued or in flight, every parent is
    itself in the buffer. -/
structure NodeState.Stuck (kernelInst : ChainstateManager C) (node : NodeState C) : Prop where
  unconnected : ∀ prev ∈ node.download.buffer, node.is_on_active_chain kernelInst prev = false
  idle : ¬node.download.Busy → ∀ prev ∈ node.download.buffer, prev ∈ node.download.buffered_hashes

variable {kernelInst : ChainstateManager C}

theorem DownloadState.busy_iff (self : DownloadState) :
    ¬self.Busy ↔ self.queue = [] ∧ self.in_flight.keys = [] := by
  simp only [Busy, not_exists, not_or]
  constructor
  · intro hnone
    exact ⟨List.eq_nil_iff_forall_not_mem.mpr fun hash => (hnone hash).1,
      List.eq_nil_iff_forall_not_mem.mpr fun hash => (hnone hash).2⟩
  · rintro ⟨hqueue, hflight⟩ hash
    rw [hqueue, AList.mem_keys, hflight]
    exact ⟨List.not_mem_nil, List.not_mem_nil⟩

/-- A second look would find nothing either. -/
theorem NodeState.stuck_iff (node : NodeState C) (order : Reorder BlockHash) :
    (node.take_connectable kernelInst order).1 = none ↔ node.Stuck kernelInst := by
  rw [NodeState.take_connectable, DownloadState.take_connectable_fst_eq_none_iff]
  constructor
  · rintro ⟨hunconnected, hidle⟩
    refine ⟨hunconnected, fun hbusy => ?_⟩
    obtain ⟨hqueue, hflight⟩ := node.download.busy_iff.mp hbusy
    exact hidle hqueue hflight
  · rintro ⟨hunconnected, hidle⟩
    exact ⟨hunconnected, fun hqueue hflight =>
      hidle (node.download.busy_iff.mpr ⟨hqueue, hflight⟩)⟩

/-- A change that leaves the buffer and the active chain alone, and does not end what
    is queued or in flight, makes nothing connectable. -/
theorem NodeState.Stuck.of_busy {before after : NodeState C} (hstuck : before.Stuck kernelInst)
    (hbuffer : after.download.buffer = before.download.buffer)
    (hactive : ∀ hash, after.is_on_active_chain kernelInst hash =
      before.is_on_active_chain kernelInst hash)
    (hbusy : before.download.Busy → after.download.Busy) : after.Stuck kernelInst where
  unconnected prev hprev := by
    rw [hbuffer] at hprev
    rw [hactive]
    exact hstuck.unconnected prev hprev
  idle hidle prev hprev := by
    rw [hbuffer] at hprev
    rw [DownloadState.buffered_hashes, hbuffer]
    exact hstuck.idle (fun hbefore => hidle (hbusy hbefore)) prev hprev

namespace DownloadState.Busy

variable {self : DownloadState}

theorem install_queue (hbusy : self.Busy) (hashes : List BlockHash) :
    (self.install_queue hashes).Busy := by
  obtain ⟨hash, hqueue | hflight⟩ := hbusy
  · have hnonempty : self.queue.isEmpty = false :=
      List.isEmpty_eq_false_iff.mpr (List.ne_nil_of_mem hqueue)
    rw [DownloadState.install_queue, hnonempty]
    exact ⟨hash, .inl hqueue⟩
  · exact ⟨hash, .inr (by rwa [DownloadState.install_queue_in_flight])⟩

/-- What leaves the queue is in flight. -/
theorem pop_batch (hbusy : self.Busy) (batch_size : Nat) :
    (self.pop_batch batch_size).2.Busy := by
  obtain ⟨hash, hqueue | hflight⟩ := hbusy
  · exact ⟨hash, (self.pop_batch_queue batch_size hash).2.2 hqueue⟩
  · exact ⟨hash, .inr (((self.pop_batch_claims batch_size).mem_iff hash).mpr (.inl hflight))⟩

theorem claim (hbusy : self.Busy) (hashes : List BlockHash) : (self.claim hashes).2.Busy := by
  obtain ⟨hash, hqueue | hflight⟩ := hbusy
  · exact ⟨hash, .inl hqueue⟩
  · exact ⟨hash, .inr (((self.claim_claims hashes).mem_iff hash).mpr (.inl hflight))⟩

/-- Giving claims back fills the queue. -/
theorem release_in_flight (hbusy : self.Busy) (state_machine : PeerStateMachine)
    (order : Reorder BlockHash) : (state_machine.release_in_flight order self).Busy := by
  have hqueued := state_machine.release_in_flight_queue order self
  obtain ⟨hash, hqueue | hflight⟩ := hbusy
  · exact ⟨hash, .inl (hqueued.mem_iff.mpr (List.mem_append_right _ hqueue))⟩
  · by_cases howed : hash ∈ state_machine.inventory
    · exact ⟨hash, .inl (hqueued.mem_iff.mpr (List.mem_append_left _ howed))⟩
    · exact ⟨hash, .inr ((state_machine.mem_release_in_flight order self hash).mpr
        ⟨howed, hflight⟩)⟩

/-- A block that is not in flight is not released. -/
theorem release (hbusy : self.Busy) {hash : BlockHash} (hrefused : (self.release hash).1 = false) :
    (self.release hash).2.Busy := by
  have hother : hash ∉ self.in_flight := by simpa [DownloadState.release] using hrefused
  obtain ⟨other, hqueue | hflight⟩ := hbusy
  · exact ⟨other, .inl hqueue⟩
  · refine ⟨other, .inr (AList.mem_erase.mpr ⟨?_, hflight⟩)⟩
    rintro rfl
    exact hother hflight

end DownloadState.Busy

/-- Only a delivery makes something connectable, and it goes on to the buffer. -/
theorem advance_stuck {phase : Phase} {node : NodeState C} (hstuck : node.Stuck kernelInst)
    (hphase : phase.is_buffering = false) :
    (advance kernelInst (some phase, node)).2.Stuck kernelInst ∨
      (advance kernelInst (some phase, node)).1.any Phase.is_buffering = true := by
  cases phase with
  | idle | populating => exact .inl hstuck
  | walking =>
    simp only [advance]
    split <;> exact .inl hstuck
  | installing hashes =>
    exact .inl (hstuck.of_busy (node.download.install_queue_buffer hashes) (fun _ => rfl)
      fun hbusy => hbusy.install_queue hashes)
  | popping =>
    obtain ⟨_, _, hbatch⟩ := request_batch_spec kernelInst node rfl
    simp only [advance, hbatch]
    exact .inl (hstuck.of_busy (node.download.pop_batch_buffer _) (fun _ => rfl)
      fun hbusy => hbusy.pop_batch _)
  | claiming announced =>
    exact .inl (hstuck.of_busy (node.download.claim_buffer announced) (fun _ => rfl)
      fun hbusy => hbusy.claim announced)
  | releasing state block =>
    simp only [advance]
    cases hreleased : (node.download.release block.block_hash).1 with
    | true => exact .inr rfl
    | false =>
      exact .inl (hstuck.of_busy rfl (fun _ => rfl) fun hbusy => hbusy.release hreleased)
  | buffering state block => cases hphase

theorem accept_headers_connected (hheaders : HeadersConnectNothing kernelInst)
    (headers : List Header) (node : NodeState C) (hash : BlockHash) :
    { node with chainman := (accept_headers kernelInst node.chainman headers).2
      }.is_on_active_chain kernelInst hash = node.is_on_active_chain kernelInst hash := by
  induction headers generalizing node with
  | nil => rfl
  | cons header headers ih =>
    have hfirst := hheaders node header hash
    simp only [accept_headers]
    split
    · rename_i chainman hheader
      rw [hheader] at hfirst
      exact (ih { node with chainman }).trans hfirst
    · rename_i chainman _ hheader
      rw [hheader] at hfirst
      exact hfirst

theorem begin_message_connected (hheaders : HeadersConnectNothing kernelInst)
    (state_machine : PeerStateMachine) (event : NetworkMessage) (source : AddrV2)
    (node : NodeState C) (hash : BlockHash) :
    (begin_message kernelInst state_machine event source node).2.is_on_active_chain kernelInst
      hash = node.is_on_active_chain kernelInst hash := by
  simp only [begin_message]
  split
  · rfl
  · split <;> exact accept_headers_connected hheaders _ node hash
  · split <;> exact accept_headers_connected hheaders _ node hash
  · split <;> rfl
  · rfl
  · rfl

/-- A peer's thread leaves the other threads alone. -/
theorem SectionStep.frame {state next : ThreadState C} {action : SectionAction} {peer : PeerId}
    (hstep : SectionStep kernelInst state action next) (hpeer : action.peer = some peer) :
    next.validating = state.validating ∧
      ∀ other, other ≠ peer → next.threads other = state.threads other := by
  cases hstep with
  | connect | begin_message | advance | disconnect =>
    obtain rfl := Option.some.inj hpeer
    exact ⟨rfl, fun other hother => Function.update_of_ne hother _ _⟩
  | take_connectable | take_nothing | process_block => cases hpeer

/-- Only a delivery makes something connectable, and it goes on to the buffer. -/
theorem SectionStep.stuck (hheaders : HeadersConnectNothing kernelInst)
    {state next : ThreadState C} {action : SectionAction} {peer : PeerId}
    (hstep : SectionStep kernelInst state action next) (hpeer : action.peer = some peer)
    (hphase : (state.threads peer).any Phase.is_buffering = false)
    (hstuck : state.node.Stuck kernelInst) :
    next.node.Stuck kernelInst ∨ (next.threads peer).any Phase.is_buffering = true := by
  cases hstep with
  | connect => exact .inl hstuck
  | begin_message actor source event hidle =>
    refine .inl (hstuck.of_busy ?_ ?_ ?_)
    · simp [ThreadState.resume]
    · exact fun hash => begin_message_connected hheaders _ event source state.node hash
    · simp [ThreadState.resume]
  | @advance actor phase hthread =>
    obtain rfl := Option.some.inj hpeer
    rw [hthread] at hphase
    simp only [ThreadState.resume, Function.update_self]
    exact advance_stuck hstuck (by simpa using hphase)
  | @disconnect actor state_machine order hidle =>
    exact .inl (hstuck.of_busy (state_machine.release_in_flight_buffer order _) (fun _ => rfl)
      fun hbusy => hbusy.release_in_flight state_machine order)
  | take_connectable | take_nothing | process_block => cases hpeer

theorem begin_message_decodes {state_machine : PeerStateMachine} {event : NetworkMessage}
    {source : AddrV2} {node : NodeState C} {phase : Phase}
    (hdecoded : ∀ block, event = .Block block → (block.convert kernelInst).isSome)
    (hbegin : (begin_message kernelInst state_machine event source node).1 = some phase) :
    phase.Decodes kernelInst := by
  have hidle : ∀ {result : Option (PeerStateMachine × List NetworkMessage)},
      (result.map fun next => Phase.idle next.1) = some phase → phase.Decodes kernelInst := by
    intro result hresult
    obtain ⟨next, _, rfl⟩ := Option.map_eq_some_iff.mp hresult
    trivial
  simp only [begin_message] at hbegin
  split at hbegin
  · cases hbegin
    trivial
  · split at hbegin
    · cases hbegin
      trivial
    · exact hidle hbegin
  · split at hbegin
    · exact hidle hbegin
    · cases hbegin
      trivial
  · split at hbegin
    · exact hidle hbegin
    · cases hbegin
      trivial
  · cases hbegin
    exact hdecoded _ rfl
  · cases hbegin
    trivial

theorem advance_decodes {phase next : Phase} {node : NodeState C}
    (hdecoded : phase.Decodes kernelInst)
    (hadvance : (advance kernelInst (some phase, node)).1 = some next) :
    next.Decodes kernelInst := by
  have hafter : ∀ state : AwaitingBlock, (after_delivery state).Decodes kernelInst := by
    intro state
    simp only [after_delivery]
    split <;> trivial
  cases phase with
  | idle | installing | claiming =>
    cases hadvance
    trivial
  | populating =>
    cases hadvance
    split <;> trivial
  | walking =>
    simp only [advance] at hadvance
    split at hadvance
    · cases hadvance
      trivial
    · cases hadvance
      split <;> trivial
  | popping =>
    obtain ⟨_, _, rfl⟩ := Option.map_eq_some_iff.mp hadvance
    trivial
  | releasing state block =>
    cases hadvance
    split
    · exact hdecoded
    · exact hafter state
  | buffering state block =>
    obtain ⟨converted, hconvert⟩ := Option.isSome_iff_exists.mp hdecoded
    simp only [advance, hconvert, Option.some.injEq] at hadvance
    exact hadvance ▸ hafter state

/-- The threads' blocks stay decoded while the peers send such blocks only. -/
theorem SectionStep.decodes {state next : ThreadState C} {action : SectionAction} {peer : PeerId}
    (hstep : SectionStep kernelInst state action next) (hpeer : action.peer = some peer)
    (hsent : ∀ source block, action = .begin_message peer source (.Block block) →
      (block.convert kernelInst).isSome)
    (hdecoded : ∀ phase, state.threads peer = some phase → phase.Decodes kernelInst)
    {phase : Phase} (hphase : next.threads peer = some phase) : phase.Decodes kernelInst := by
  cases hstep with
  | connect =>
    obtain rfl := Option.some.inj hpeer
    simp only [ThreadState.resume, Function.update_self, Option.some.injEq] at hphase
    subst hphase
    trivial
  | begin_message actor source event hidle =>
    obtain rfl := Option.some.inj hpeer
    simp only [ThreadState.resume, Function.update_self] at hphase
    exact begin_message_decodes (fun block hevent => hsent source block (by rw [hevent])) hphase
  | advance actor hthread =>
    obtain rfl := Option.some.inj hpeer
    simp only [ThreadState.resume, Function.update_self] at hphase
    exact advance_decodes (hdecoded _ hthread) hphase
  | disconnect =>
    obtain rfl := Option.some.inj hpeer
    simp [ThreadState.resume] at hphase
  | take_connectable | take_nothing | process_block => cases hpeer

/-- A thread that buffers a block which is decoded goes on. -/
theorem SectionStep.survives {state next : ThreadState C} {action : SectionAction} {peer : PeerId}
    (hstep : SectionStep kernelInst state action next) (hpeer : action.peer = some peer)
    (hbuffering : (state.threads peer).any Phase.is_buffering = true)
    (hdecoded : ∀ phase, state.threads peer = some phase → phase.Decodes kernelInst) :
    (next.threads peer).isSome = true := by
  cases hstep with
  | connect actor hfree =>
    obtain rfl := Option.some.inj hpeer
    simp [hfree] at hbuffering
  | begin_message actor source event hidle =>
    obtain rfl := Option.some.inj hpeer
    simp [hidle, Phase.is_buffering] at hbuffering
  | @advance actor phase hthread =>
    obtain rfl := Option.some.inj hpeer
    rw [hthread] at hbuffering
    cases phase with
    | buffering owed block =>
      obtain ⟨converted, hconvert⟩ := Option.isSome_iff_exists.mp (hdecoded _ hthread)
      simp [ThreadState.resume, net.advance, hconvert]
    | _ => cases hbuffering
  | disconnect actor order hidle =>
    obtain rfl := Option.some.inj hpeer
    simp [hidle, Phase.is_buffering] at hbuffering
  | take_connectable | take_nothing | process_block => cases hpeer

/-- A peer's thread is on its way to `notify_one`. -/
def WakeState.Delivering (state : WakeState C) (peer : PeerId) : Prop :=
  state.notifying peer = true ∨ (state.sections.threads peer).any Phase.is_buffering = true

/-- Every block on its way to the buffer is decoded. -/
def WakeState.Decoded (kernelInst : ChainstateManager C) (state : WakeState C) : Prop :=
  ∀ peer phase, state.sections.threads peer = some phase → phase.Decodes kernelInst

theorem WakeStep.decoded {state next : WakeState C} {action : WakeAction}
    (hdecoded : state.Decoded kernelInst) (hsent : SendsDecoded kernelInst state action)
    (hstep : WakeStep kernelInst state action next) : next.Decoded kernelInst := by
  cases hstep with
  | @peer peer action sections hpeer hfree hstep =>
    obtain ⟨_, hothers⟩ := hstep.frame hpeer
    intro other phase hphase
    by_cases hother : other = peer
    · subst hother
      refine hstep.decodes hpeer ?_ (hdecoded other) hphase
      rintro source block rfl
      exact hsent
    · exact hdecoded other phase ((hothers other hother).symm.trans hphase)
  | take_connectable hawake hstep =>
    cases hstep <;> exact hdecoded
  | process_block hrunning hstep =>
    cases hstep
    exact hdecoded
  | notify | wake => exact hdecoded

structure WakeState.Sound (kernelInst : ChainstateManager C) (state : WakeState C) : Prop where
  idle : state.block_thread ≠ .running → state.sections.validating = none
  awaited : state.block_thread = .asleep → state.sections.node.Stuck kernelInst ∨
    ∃ peer, state.Delivering peer

theorem WakeStep.sound (hheaders : HeadersConnectNothing kernelInst) {state next : WakeState C}
    {action : WakeAction} (hdecoded : state.Decoded kernelInst) (hsound : state.Sound kernelInst)
    (hstep : WakeStep kernelInst state action next) : next.Sound kernelInst := by
  cases hstep with
  | @peer peer action sections hpeer hfree hstep =>
    obtain ⟨hvalidating, hothers⟩ := hstep.frame hpeer
    refine ⟨fun hblocked => hvalidating.trans (hsound.idle hblocked), fun hasleep => ?_⟩
    cases hphase : (state.sections.threads peer).any Phase.is_buffering with
    | true =>
      refine .inr ⟨peer, .inl ?_⟩
      simp [hstep.survives hpeer hphase (hdecoded peer)]
    | false =>
      rcases hsound.awaited hasleep with hstuck | ⟨other, hdelivering⟩
      · rcases hstep.stuck hheaders hpeer hphase hstuck with hstuck | hbuffering
        · exact .inl hstuck
        · exact .inr ⟨peer, .inr hbuffering⟩
      · -- the thread that moves is not the one that is delivering
        have hother : other ≠ peer := by
          rintro rfl
          rcases hdelivering with hnotifying | hbuffering
          · simp [hfree] at hnotifying
          · simp [hphase] at hbuffering
        refine .inr ⟨other, ?_⟩
        simp only [WakeState.Delivering, Function.update_of_ne hother, hothers other hother]
        exact hdelivering
  | @notify peer hnotifying =>
    constructor
    · intro hblocked
      refine hsound.idle fun hrunning => hblocked ?_
      simp [hrunning]
    · intro hasleep
      dsimp only at hasleep
      split at hasleep
      · cases hasleep
      · contradiction
  | @take_connectable order sections hawake hstep =>
    constructor
    · intro hblocked
      dsimp only at hblocked
      split at hblocked
      · rename_i hnothing
        exact hnothing.2
      · exact absurd rfl hblocked
    · intro hasleep
      dsimp only at hasleep
      split at hasleep
      · rename_i hnothing
        cases hstep with
        | take_connectable order hidle htake => cases hnothing.2
        | @take_nothing _ download hidle htake =>
          have hstuck := (NodeState.stuck_iff state.sections.node order).mp
            (congrArg Prod.fst htake)
          obtain rfl := DownloadState.take_connectable_eq_none _ htake
          exact .inl hstuck
      · cases hasleep
  | wake hasleep => exact ⟨fun _ => hsound.idle (by simp [hasleep]), nofun⟩
  | process_block hrunning hstep =>
    exact ⟨fun hblocked => absurd hrunning hblocked, fun hasleep => by simp [hrunning] at hasleep⟩

/-- The wake-ups add nothing to what the threads do. -/
theorem wake_sections_reachable {state : WakeState C}
    (hreach : (wake_system kernelInst).Reachable state) :
    (section_system kernelInst).Reachable state.sections := by
  refine hreach.invariant (P := fun state => (section_system kernelInst).Reachable state.sections)
    ?_ ?_
  · rintro first ⟨hinit, _⟩
    exact .of_init hinit
  · intro before action next hsections hstep
    cases hstep with
    | peer _ _ hstep => exact hsections.step hstep
    | take_connectable _ hstep => exact hsections.step hstep
    | process_block _ hstep => exact hsections.step hstep
    | notify | wake => exact hsections

/-- No wake-up is lost where the kernel decodes the blocks that the peers send:
    whenever the block thread sleeps, there is nothing that it could take, or the
    thread of a peer wakes it with its next one or two steps. -/
theorem no_lost_wakeup (hheaders : HeadersConnectNothing kernelInst) {state : WakeState C}
    (hreach : ((wake_system kernelInst).restrict (SendsDecoded kernelInst)).Reachable state)
    (hasleep : state.block_thread = .asleep) :
    (∀ order, (state.sections.node.take_connectable kernelInst order).1 = none) ∨
      ∃ peer labels next, (wake_system kernelInst).Run state labels next ∧
        (labels = [.notify peer] ∨ labels = [.peer peer (.advance peer), .notify peer]) ∧
        next.block_thread = .woken := by
  obtain ⟨hdecoded, hsound⟩ : state.Decoded kernelInst ∧ state.Sound kernelInst := by
    refine hreach.invariant (P := fun state => state.Decoded kernelInst ∧ state.Sound kernelInst)
      ?_ ?_
    · rintro first ⟨⟨_, hthreads, _⟩, _, hrunning⟩
      refine ⟨fun peer phase hphase => ?_, fun hblocked => absurd hrunning hblocked,
        fun hasleep => by simp [hrunning] at hasleep⟩
      simp [hthreads] at hphase
    · rintro before action next ⟨hdecoded, hsound⟩ ⟨hsent, hstep⟩
      exact ⟨hstep.decoded hdecoded hsent, hstep.sound hheaders hdecoded hsound⟩
  rcases hsound.awaited hasleep with hstuck | ⟨peer, hdelivering⟩
  · exact .inl fun order => (state.sections.node.stuck_iff order).mpr hstuck
  · have hnil : (wake_system kernelInst).Run state [] state := .nil _
    right
    cases hnotifying : state.notifying peer with
    | true =>
      exact ⟨peer, _, _, hnil.snoc (WakeStep.notify hnotifying), .inl rfl, if_pos hasleep⟩
    | false =>
      have hbuffering := hdelivering.resolve_left (by simp [hnotifying])
      obtain ⟨phase, hphase⟩ : ∃ phase, state.sections.threads peer = some phase := by
        cases hthread : state.sections.threads peer with
        | none => simp [hthread] at hbuffering
        | some phase => exact ⟨phase, rfl⟩
      have hadvance : SectionStep kernelInst state.sections (.advance peer) _ :=
        .advance peer hphase
      have hnotified : ((state.sections.threads peer).any Phase.is_buffering &&
          ((state.sections.resume peer (advance kernelInst
            (some phase, state.sections.node))).threads peer).isSome) = true := by
        rw [hbuffering, hadvance.survives rfl hbuffering (hdecoded peer)]
        rfl
      have hadvanced := hnil.snoc (WakeStep.peer rfl hnotifying hadvance)
      exact ⟨peer, _, _, hadvanced.snoc (WakeStep.notify
        ((Function.update_self ..).trans hnotified)), .inr rfl, if_pos hasleep⟩

/-- The kernel on a single branch, where the header of a processed block is known. -/
def regtest_known_kernel : ChainstateManager regtest.Chainstate :=
  { regtest.kernel with
    process_block_header := fun chainman header =>
      if header.block_hash ∈ chainman.processed then (some .Valid, chainman)
      else regtest.kernel.process_block_header chainman header }

theorem regtest_active_iff (node : NodeState regtest.Chainstate) (hash : BlockHash) :
    node.is_on_active_chain regtest_known_kernel hash = true ↔
      (node.chainman.find hash).isSome ∧ hash ∈ node.chainman.processed := by
  simp only [NodeState.is_on_active_chain, regtest_known_kernel, regtest.kernel]
  cases hfind : node.chainman.find hash with
  | none => simp
  | some entry =>
    obtain rfl : entry.block_hash = hash := by simpa using List.find?_some hfind
    simp

theorem regtest_known_kernel_headers : HeadersConnectNothing regtest_known_kernel := by
  intro node header hash
  rw [Bool.eq_iff_iff, regtest_active_iff, regtest_active_iff]
  simp only [regtest_known_kernel]
  split
  · rfl
  · rename_i hnew
    simp only [regtest.kernel]
    split
    · rfl
    · split
      · rename_i entry hentry
        obtain ⟨parent, _, hchild⟩ := Option.bind_eq_some_iff.mp hentry
        have hhash : entry.block_hash = header.block_hash := by
          simp only [regtest.child] at hchild
          split at hchild
          · cases hchild
            rfl
          · cases hchild
        by_cases hsame : header.block_hash = hash
        · subst hsame
          simp [hnew]
        · simp [regtest.Chainstate.find, hhash, hsame]
      · rfl

def regtest_running : WakeState regtest.Chainstate where
  sections := regtest_fresh.sections
  notifying _ := false
  block_thread := .running

/-- A peer has buffered the block that it owed while the block thread sleeps. -/
theorem no_lost_wakeup_delivery : ∃ state block,
    ((wake_system regtest_known_kernel).restrict
      (SendsDecoded regtest_known_kernel)).Reachable state ∧ state.block_thread = .asleep ∧
    (state.sections.node.take_connectable regtest_known_kernel .id).1 = some block ∧
    ∃ peer labels next, (wake_system regtest_known_kernel).Run state labels next ∧
      (labels = [.notify peer] ∨ labels = [.peer peer (.advance peer), .notify peer]) ∧
      next.block_thread = .woken := by
  have hrunning : ((wake_system regtest_known_kernel).restrict
      (SendsDecoded regtest_known_kernel)).Reachable regtest_running :=
    .of_init ⟨⟨rfl, fun _ => rfl, rfl⟩, fun _ => rfl, rfl⟩
  have hdecoded : ((regtest_block (regtest_header 1)).convert regtest_known_kernel).isSome := by
    decide
  have hheaders := (hrunning.step_restrict (WakeStep.peer rfl rfl (.connect 0 rfl rfl))
    trivial).step_restrict (WakeStep.peer rfl rfl
      (.begin_message 0 regtest_source (.Headers [regtest_header 1]) rfl)) trivial
  have hwalked := (hheaders.step_restrict (WakeStep.peer rfl rfl (.advance 0 rfl))
    trivial).step_restrict (WakeStep.peer rfl rfl (.advance 0 rfl)) trivial
  have hrequested := (hwalked.step_restrict (WakeStep.peer rfl rfl (.advance 0 rfl))
    trivial).step_restrict (WakeStep.peer rfl rfl (.advance 0 rfl)) trivial
  have hasleep := hrequested.step_restrict
    (WakeStep.take_connectable nofun (.take_nothing .id rfl rfl)) trivial
  have hreceived := hasleep.step_restrict (WakeStep.peer rfl rfl
    (.begin_message 0 regtest_source (.Block (regtest_block (regtest_header 1))) rfl)) hdecoded
  have hbuffered := (hreceived.step_restrict (WakeStep.peer rfl rfl (.advance 0 rfl))
    trivial).step_restrict (WakeStep.peer rfl rfl (.advance 0 rfl)) trivial
  have hwoken := no_lost_wakeup regtest_known_kernel_headers hbuffered rfl
  refine ⟨_, _, hbuffered, rfl, rfl, hwoken.resolve_left fun hnothing => ?_⟩
  cases hnothing .id

end net
