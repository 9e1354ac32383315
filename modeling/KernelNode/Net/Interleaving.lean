import KernelNode.Net.Sections

open bitcoin bitcoinkernel std.collections transition

namespace net

/-- The shared state, where each live peer's thread is, and the block that the
    block thread is validating. -/
structure ThreadState (C : Type) where
  node : NodeState C
  threads : PeerId → Option Phase
  validating : Option bitcoinkernel.Block

inductive SectionAction where
  | connect (peer : PeerId)
  | begin_message (peer : PeerId) (source : AddrV2) (event : NetworkMessage)
  | advance (peer : PeerId)
  | disconnect (peer : PeerId) (order : Reorder BlockHash)
  | take_connectable (order : Reorder BlockHash)
  | process_block

variable {C : Type}

/-- The state after a peer's thread has moved. -/
def ThreadState.resume (self : ThreadState C) (peer : PeerId)
    (result : Option Phase × NodeState C) : ThreadState C :=
  { self with node := result.2, threads := Function.update self.threads peer result.1 }

/-- The peer threads and the block thread, one locked section at a time. -/
inductive SectionStep (kernelInst : ChainstateManager C) : ThreadState C → SectionAction →
    ThreadState C → Prop where
  | connect {state : ThreadState C} (peer : PeerId) {state_machine : PeerStateMachine}
      {messages : List NetworkMessage} (hfree : state.threads peer = none)
      (hnew : request_headers kernelInst state.node.chainman = some (state_machine, messages)) :
      SectionStep kernelInst state (.connect peer)
        (state.resume peer (some (.idle state_machine), state.node))
  | begin_message {state : ThreadState C} (peer : PeerId) {state_machine : PeerStateMachine}
      (source : AddrV2) (event : NetworkMessage)
      (hpeer : state.threads peer = some (.idle state_machine)) :
      SectionStep kernelInst state (.begin_message peer source event)
        (state.resume peer (begin_message kernelInst state_machine event source state.node))
  | advance {state : ThreadState C} (peer : PeerId) {phase : Phase}
      (hpeer : state.threads peer = some phase) :
      SectionStep kernelInst state (.advance peer)
        (state.resume peer (advance kernelInst (some phase, state.node)))
  | disconnect {state : ThreadState C} (peer : PeerId) {state_machine : PeerStateMachine}
      (order : Reorder BlockHash) (hpeer : state.threads peer = some (.idle state_machine)) :
      SectionStep kernelInst state (.disconnect peer order)
        (state.resume peer (none,
          { state.node with
            download := state_machine.release_in_flight order state.node.download }))
  | take_connectable {state : ThreadState C} (order : Reorder BlockHash)
      {block : bitcoinkernel.Block} {download : DownloadState} (hidle : state.validating = none)
      (htake : state.node.take_connectable kernelInst order = (some block, download)) :
      SectionStep kernelInst state (.take_connectable order)
        { state with node := { state.node with download }, validating := some block }
  | take_nothing {state : ThreadState C} (order : Reorder BlockHash) {download : DownloadState}
      (hidle : state.validating = none)
      (htake : state.node.take_connectable kernelInst order = (none, download)) :
      SectionStep kernelInst state (.take_connectable order) { state with
        node := { state.node with download } }
  | process_block {state : ThreadState C} {block : bitcoinkernel.Block}
      (hbusy : state.validating = some block) :
      SectionStep kernelInst state .process_block
        { state with
          node := { state.node with chainman := kernelInst.process_block state.node.chainman block }
          validating := none }

def section_system (kernelInst : ChainstateManager C) : System (ThreadState C) SectionAction where
  init state := state.node.download = .default ∧ (∀ peer, state.threads peer = none) ∧
    state.validating = none
  step := SectionStep kernelInst

/-- A block is taken only while no block between its release and the buffer is
    the parent of a buffered one. -/
def ParentsBuffered (state : ThreadState C) : SectionAction → Prop
  | .take_connectable _ => ∀ peer owed block, state.threads peer = some (.buffering owed block) →
      state.node.download.buffer.lookup block.block_hash = none
  | _ => True

/-- The state in which every thread waits for a message. -/
def NetState.sections (self : NetState C) : ThreadState C where
  node := self.node
  threads peer := (self.peers peer).map .idle
  validating := self.validating

variable {kernelInst : ChainstateManager C}

@[simp]
theorem ThreadState.resume_resume (state : ThreadState C) (peer : PeerId)
    (first second : Option Phase × NodeState C) :
    (state.resume peer first).resume peer second = state.resume peer second := by
  simp [ThreadState.resume]

/-- A thread may run any number of its sections without interruption. -/
theorem run_advance (kernelInst : ChainstateManager C) (state : ThreadState C) (peer : PeerId)
    (result : Option Phase × NodeState C) (count : Nat) :
    ∃ labels, ((section_system kernelInst).restrict ParentsBuffered).Run
      (state.resume peer result) labels
      (state.resume peer ((advance kernelInst)^[count] result)) := by
  induction count with
  | zero => exact ⟨[], .nil _⟩
  | succ count ih =>
    obtain ⟨labels, hrun⟩ := ih
    rw [Function.iterate_succ_apply']
    generalize (advance kernelInst)^[count] result = reached at hrun
    obtain ⟨phase, node⟩ := reached
    cases phase with
    | none => exact ⟨labels, hrun⟩
    | some phase =>
      have hpeer : (state.resume peer (some phase, node)).threads peer = some phase := by
        simp [ThreadState.resume]
      have hstep : ((section_system kernelInst).restrict ParentsBuffered).step
        (state.resume peer (some phase, node))
          (.advance peer) (state.resume peer (advance kernelInst (some phase, node))) := by
        rw [← ThreadState.resume_resume state peer (some phase, node)
          (advance kernelInst (some phase, node))]
        exact ⟨trivial, .advance peer hpeer⟩
      exact ⟨labels ++ [.advance peer], hrun.snoc hstep⟩

theorem NetState.sections_resume (state : NetState C) (peer : PeerId)
    (next : Option PeerStateMachine) (node : NodeState C) :
    state.sections.resume peer (next.map .idle, node) =
      { node, threads := fun other => (Function.update state.peers peer next other).map .idle,
        validating := state.validating } := by
  have hthreads : Function.update (fun other => (state.peers other).map Phase.idle) peer
    (next.map .idle) =
      fun other => (Function.update state.peers peer next other).map .idle := by
    funext other
    by_cases hother : other = peer
    · subst hother
      simp
    · simp [hother]
  simp only [NetState.sections, ThreadState.resume, hthreads]

/-- Where every thread waits for a message, no block is on its way to the buffer. -/
theorem parents_buffered_sections (state : NetState C) (action : SectionAction) :
    ParentsBuffered state.sections action := by
  cases action with
  | take_connectable order =>
    intro peer owed block hthread
    simp only [NetState.sections, Option.map_eq_some_iff] at hthread
    obtain ⟨_, _, hphase⟩ := hthread
    cases hphase
  | _ => trivial

/-- A whole call is a run of its sections, in which no block is taken between
    its release and the buffer. -/
theorem NetStep.sections {state after : NetState C} {action : NetAction}
    (hstep : NetStep kernelInst state action after) :
    ∃ labels, ((section_system kernelInst).restrict ParentsBuffered).Run state.sections labels
      after.sections := by
  cases hstep with
  | @connect peer state_machine messages hfree hnew =>
    have hthread : state.sections.threads peer = none := by simp [NetState.sections, hfree]
    have hjoined : state.sections.resume peer (some (.idle state_machine), state.node) =
        (state.join peer state_machine).sections :=
      state.sections_resume peer (some state_machine) state.node
    rw [← hjoined]
    exact ⟨[.connect peer], .snoc (.nil _) ⟨trivial, .connect peer hthread hnew⟩⟩
  | @receive peer state_machine source event hpeer =>
    have hthread : state.sections.threads peer = some (.idle state_machine) := by
      simp [NetState.sections, hpeer]
    obtain ⟨labels, hrun⟩ := run_advance kernelInst state.sections peer
      (begin_message kernelInst state_machine event source state.node) 4
    rw [advance_iterate_begin_message] at hrun
    have hbegin : ((section_system kernelInst).restrict ParentsBuffered).Run state.sections
        [.begin_message peer source event]
        (state.sections.resume peer (begin_message kernelInst state_machine event source
          state.node)) :=
      .snoc (.nil _) ⟨trivial, .begin_message peer source event hthread⟩
    have hdone : state.sections.resume peer
        (returned (process_message kernelInst state_machine event source state.node)) =
        (state.receive kernelInst peer state_machine source event).sections := by
      have hresume := state.sections_resume peer
        ((process_message kernelInst state_machine event source state.node).1.map Prod.fst)
        (process_message kernelInst state_machine event source state.node).2
      rw [Option.map_map] at hresume
      exact hresume
    rw [← hdone]
    exact ⟨_, hbegin.append hrun⟩
  | @disconnect peer state_machine order hpeer =>
    have hthread : state.sections.threads peer = some (.idle state_machine) := by
      simp [NetState.sections, hpeer]
    let node := { state.node with
      download := state_machine.release_in_flight order state.node.download }
    have hgone : state.sections.resume peer (none, node) =
        NetState.sections { state with node, peers := Function.update state.peers peer none } :=
      state.sections_resume peer none node
    rw [← hgone]
    exact ⟨[.disconnect peer order], .snoc (.nil _) ⟨trivial, .disconnect peer order hthread⟩⟩
  | take_connectable order hidle htake =>
    exact ⟨[.take_connectable order], .snoc (.nil _) ⟨parents_buffered_sections state _,
      .take_connectable order hidle htake⟩⟩
  | take_nothing order hidle htake =>
    exact ⟨[.take_connectable order], .snoc (.nil _) ⟨parents_buffered_sections state _,
      .take_nothing order hidle htake⟩⟩
  | process_block hbusy => exact ⟨[.process_block], .snoc (.nil _) ⟨trivial, .process_block hbusy⟩⟩

/-- Every state that whole calls reach, sections reach. -/
theorem sections_reachable {state : NetState C} (hreach : (net_system kernelInst).Reachable state) :
    ((section_system kernelInst).restrict ParentsBuffered).Reachable state.sections := by
  refine hreach.invariant
    (P := fun state => ((section_system kernelInst).restrict ParentsBuffered).Reachable
      state.sections) ?_ ?_
  · intro first hfresh
    exact .of_init ⟨hfresh.download, by simp [NetState.sections, hfresh.peers], hfresh.validating⟩
  · intro before action after hbefore hstep
    obtain ⟨labels, hrun⟩ := hstep.sections
    exact hbefore.run hrun

@[simp]
theorem begin_message_download (state_machine : PeerStateMachine) (event : NetworkMessage)
    (source : AddrV2) (node_state : NodeState C) :
    (begin_message kernelInst state_machine event source node_state).2.download =
      node_state.download := by
  simp only [begin_message]
  split
  · rfl
  · split <;> rfl
  · split <;> rfl
  · split <;> rfl
  · rfl
  · rfl

theorem request_batch_buffer (node_state : NodeState C) :
    (request_batch kernelInst node_state).2.download.buffer = node_state.download.buffer := by
  simp only [request_batch]
  split <;> rfl

/-- Only the second section of a delivery writes to the buffer. -/
theorem advance_keyed (result : Option Phase × NodeState C) (hkeyed : result.2.download.Keyed) :
    (advance kernelInst result).2.download.Keyed := by
  obtain ⟨_ | phase, node_state⟩ := result
  · exact hkeyed
  · cases phase with
    | idle state_machine => exact hkeyed
    | populating => exact hkeyed
    | walking =>
      simp only [advance]
      split <;> exact hkeyed
    | installing hashes =>
      exact hkeyed.of_buffer_eq (node_state.download.install_queue_buffer hashes)
    | popping => exact hkeyed.of_buffer_eq (request_batch_buffer node_state)
    | claiming announced => exact hkeyed.of_buffer_eq (node_state.download.claim_buffer announced)
    | releasing state block => exact hkeyed.of_buffer_eq rfl
    | buffering state block =>
      simp only [advance]
      split
      · exact hkeyed
      · rename_i converted hconvert
        exact hkeyed.buffer_block (congrArg Header.prev_blockhash (Block.convert_header hconvert))

theorem SectionStep.keyed {before after : ThreadState C} {action : SectionAction}
    (hstep : SectionStep kernelInst before action after) (hkeyed : before.node.download.Keyed) :
    after.node.download.Keyed := by
  cases hstep with
  | connect peer hfree hnew => exact hkeyed
  | begin_message peer source event hpeer =>
    exact hkeyed.of_buffer_eq (by simp [ThreadState.resume])
  | advance peer hpeer => exact advance_keyed _ hkeyed
  | @disconnect peer state_machine order hpeer =>
    exact hkeyed.of_buffer_eq (state_machine.release_in_flight_buffer order _)
  | take_connectable order hidle htake => exact hkeyed.take_connectable htake
  | take_nothing order hidle htake =>
    rw [NodeState.take_connectable] at htake
    exact (DownloadState.take_connectable_eq_none _ htake) ▸ hkeyed
  | process_block hbusy => exact hkeyed

/-- The block is queued, in flight, buffered, or between its release and the
    buffer. -/
def ThreadState.OnItsWay (self : ThreadState C) (hash : BlockHash) : Prop :=
  hash ∈ self.node.download.queue ∨ hash ∈ self.node.download.in_flight ∨
    hash ∈ self.node.download.buffered_hashes ∨
    ∃ peer owed block, self.threads peer = some (.buffering owed block) ∧ block.block_hash = hash

/-- A block off the active chain is handed out only where its parent is not on
    its way, in every run whose blocks are taken while no parent of a buffered
    block is between its release and the buffer. -/
theorem parent_not_overtaken (kernelInst : ChainstateManager C) {state after : ThreadState C}
    {order : Reorder BlockHash} {block : bitcoinkernel.Block}
    (hreach : ((section_system kernelInst).restrict ParentsBuffered).Reachable state)
    (hstep : ((section_system kernelInst).restrict ParentsBuffered).step state
      (.take_connectable order) after)
    (htaken : after.validating = some block)
    (hinactive : state.node.is_on_active_chain kernelInst block.header.prev_blockhash = false) :
    ¬ state.OnItsWay block.header.prev_blockhash := by
  have hkeyed : state.node.download.Keyed := by
    refine hreach.invariant (P := fun state => state.node.download.Keyed) ?_ ?_
    · intro first hfresh prev block hlookup
      rw [hfresh.1] at hlookup
      cases hlookup
    · rintro before action after hbefore ⟨_, hstep⟩
      exact hstep.keyed hbefore
  obtain ⟨hfree, hstep⟩ := hstep
  cases hstep with
  | @take_connectable _ taken download hidle htake =>
    obtain rfl : taken = block := Option.some.inj htaken
    obtain ⟨prev, hlookup, _, hwhy⟩ := DownloadState.take_connectable_eq_some _ htake
    obtain rfl := hkeyed prev taken hlookup
    rcases hwhy with hactive | ⟨hqueue, hflight, hbuffered⟩
    · rw [hinactive] at hactive
      cases hactive
    · rintro (hhash | hhash | hhash | ⟨peer, owed, parent, hthread, hhash⟩)
      · simp [hqueue] at hhash
      · rw [AList.mem_keys, hflight] at hhash
        cases hhash
      · exact hbuffered hhash
      · have hnone := hfree peer owed parent hthread
        rw [hhash, hlookup] at hnone
        cases hnone
  | take_nothing _ hidle htake => simp [hidle] at htaken

/-- A kernel that connects no block, as where a branch stays off the active
    chain. -/
def regtest_idle_kernel : ChainstateManager regtest.Chainstate :=
  { regtest.kernel with process_block := fun chainman _ => chainman }

/-- One peer delivers two blocks, of which the first one is taken and does not
    reach the active chain. -/
def regtest_branch : NetState regtest.Chainstate :=
  let owed := (regtest_fresh.join 0 .AwaitingHeaders).receive regtest_idle_kernel 0 .AwaitingHeaders
    regtest_source
    (.Headers [regtest_header 1, regtest_header 2])
  let delivered := (owed.receive regtest_idle_kernel 0
    (.AwaitingBlock ⟨HashSet.collect [regtest.block_hash 1, regtest.block_hash 2]⟩) regtest_source
    (.Block (regtest_block (regtest_header 1)))).receive regtest_idle_kernel 0 (regtest_owes 2)
      regtest_source
    (.Block (regtest_block (regtest_header 2)))
  { delivered with
    node := { delivered.node with
      download := (delivered.node.take_connectable regtest_idle_kernel .id).2 }
    accepted := [regtest_block (regtest_header 2)]
    handed := ((regtest_block (regtest_header 1)).convert regtest_idle_kernel).toList }

theorem regtest_branch_reachable : (net_system regtest_idle_kernel).Reachable regtest_branch := by
  have hfresh : (net_system regtest_idle_kernel).Reachable regtest_fresh :=
    .of_init regtest_fresh_init
  have howed := (hfresh.step (NetStep.connect 0 rfl rfl)).step
    (NetStep.receive 0 regtest_source (.Headers [regtest_header 1, regtest_header 2]) rfl)
  have hdelivered :=
    (howed.step (NetStep.receive 0 regtest_source (.Block (regtest_block (regtest_header 1)))
      rfl)).step
    (NetStep.receive 0 regtest_source (.Block (regtest_block (regtest_header 2))) rfl)
  exact (hdelivered.step (NetStep.take_connectable .id rfl rfl)).step (NetStep.process_block rfl)

/-- The second block of the branch is handed out once nothing else is left. -/
theorem parent_not_overtaken_branch :
    ∃ after block, ((section_system regtest_idle_kernel).restrict ParentsBuffered).Reachable
      regtest_branch.sections ∧
      ((section_system regtest_idle_kernel).restrict ParentsBuffered).step regtest_branch.sections
        (.take_connectable .id) after ∧
      (regtest_block (regtest_header 2)).convert regtest_idle_kernel = some block ∧
      after.validating = some block ∧
      regtest_branch.node.is_on_active_chain regtest_idle_kernel (regtest.block_hash 1) = false ∧
      ¬ regtest_branch.sections.OnItsWay (regtest.block_hash 1) := by
  have hreach := sections_reachable regtest_branch_reachable
  have hstep : SectionStep regtest_idle_kernel regtest_branch.sections (.take_connectable .id) _ :=
    .take_connectable .id rfl rfl
  have hallowed : ParentsBuffered regtest_branch.sections (.take_connectable .id) :=
    parents_buffered_sections regtest_branch _
  exact ⟨_, _, hreach, ⟨hallowed, hstep⟩, rfl, rfl, by decide,
    parent_not_overtaken regtest_idle_kernel hreach ⟨hallowed, hstep⟩ rfl (by decide)⟩

/-- The second peer has delivered the second block, and the first peer's thread
    has released the first one. -/
def regtest_delivering : ThreadState regtest.Chainstate :=
  let delivered := regtest_two_peers.receive regtest.kernel 1 (regtest_owes 2) regtest_source
    (.Block (regtest_block (regtest_header 2)))
  let releasing := delivered.sections.resume 0
    (begin_message regtest.kernel (regtest_owes 1) (.Block (regtest_block (regtest_header 1)))
      regtest_source
      delivered.node)
  releasing.resume 0 (advance regtest.kernel
    (some (.releasing ⟨HashSet.collect []⟩ (regtest_block (regtest_header 1))), releasing.node))

/-- The block thread takes the second block while its parent is between its
    release and the buffer. -/
theorem released_parent_overtaken :
    ∃ after block, (section_system regtest.kernel).Reachable regtest_delivering ∧
      (section_system regtest.kernel).step regtest_delivering (.take_connectable .id) after ∧
      (regtest_block (regtest_header 2)).convert regtest.kernel = some block ∧
      after.validating = some block ∧
      regtest_delivering.node.is_on_active_chain regtest.kernel (regtest.block_hash 1) = false ∧
      regtest_delivering.OnItsWay (regtest.block_hash 1) := by
  have hdelivered := (sections_reachable (regtest_two_peers_owes.of_restrict.step
    (NetStep.receive 1 regtest_source (.Block (regtest_block (regtest_header 2))) rfl))).of_restrict
  have hreleasing := hdelivered.step
    (SectionStep.begin_message 0 regtest_source (.Block (regtest_block (regtest_header 1))) rfl)
  have hreach : (section_system regtest.kernel).Reachable regtest_delivering :=
    hreleasing.step (SectionStep.advance 0 rfl)
  exact ⟨_, _, hreach, SectionStep.take_connectable .id rfl rfl, rfl, rfl, by decide,
    .inr (.inr (.inr ⟨0, _, regtest_block (regtest_header 1), rfl, rfl⟩))⟩

end net
