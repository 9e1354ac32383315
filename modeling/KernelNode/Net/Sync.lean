import KernelNode.Net.Batches
import KernelNode.Net.HonestPeer
import KernelNode.Transition

open bitcoin bitcoinkernel std.collections transition

namespace net

/-- A connection to a peer that serves a chain: the node, the state machine of
    the peer, the messages on their way in either direction, and the block that
    the block thread is validating. -/
structure SyncState (C : Type) where
  node : NodeState C
  peer : PeerStateMachine
  to_peer : List NetworkMessage
  from_peer : List NetworkMessage
  validating : Option bitcoinkernel.Block

inductive SyncAction where
  /-- The peer answers the next message. -/
  | answer
  /-- The node processes the next message. -/
  | receive
  | take_connectable (order : Reorder BlockHash)
  | process_block

/-- A step of the conversation, as opposed to one of the block thread. -/
def SyncAction.is_message : SyncAction → Bool
  | .answer | .receive => true
  | _ => false

variable {C : Type}

/-- The peer, the peer's thread and the block thread, one whole call at a time. A
    call that panics is no step. -/
inductive SyncStep (kernelInst : ChainstateManager C) (chain : RemoteChain) (source : AddrV2) :
    SyncState C → SyncAction → SyncState C → Prop where
  | answer {state : SyncState C} {message : NetworkMessage} {rest : List NetworkMessage}
      (hsent : state.to_peer = message :: rest) :
      SyncStep kernelInst chain source state .answer
        { state with to_peer := rest, from_peer := state.from_peer ++ chain.answer message }
  | receive {state : SyncState C} {message : NetworkMessage} {rest messages : List NetworkMessage}
      {peer : PeerStateMachine} {node : NodeState C} (hsent : state.from_peer = message :: rest)
      (hprocess : process_message kernelInst state.peer message source state.node =
        (some (peer, messages), node)) :
      SyncStep kernelInst chain source state .receive
        { state with node, peer, to_peer := state.to_peer ++ messages, from_peer := rest }
  | take_connectable {state : SyncState C} (order : Reorder BlockHash)
      {block : bitcoinkernel.Block} {download : DownloadState} (hidle : state.validating = none)
      (htake : state.node.take_connectable kernelInst order = (some block, download)) :
      SyncStep kernelInst chain source state (.take_connectable order)
        { state with node := { state.node with download }, validating := some block }
  | process_block {state : SyncState C} {block : bitcoinkernel.Block}
      (hbusy : state.validating = some block) :
      SyncStep kernelInst chain source state .process_block
        { state with
          node := { state.node with chainman := kernelInst.process_block state.node.chainman block }
          validating := none }

/-- A new connection of a node that has the headers and the blocks of the chain up
    to two heights: it has asked for the next headers. -/
structure SyncState.Connected (kernelInst : ChainstateManager C) (tracks : C → Nat → Nat → Prop)
    (known active : Nat) (state : SyncState C) : Prop where
  tracks : tracks state.node.chainman known active
  download : state.node.download = .default
  asked : request_headers kernelInst state.node.chainman = some (state.peer, state.to_peer)
  from_peer : state.from_peer = []
  validating : state.validating = none

def sync_system (kernelInst : ChainstateManager C) (chain : RemoteChain)
    (tracks : C → Nat → Nat → Prop) (source : AddrV2) : System (SyncState C) SyncAction where
  init state := ∃ known active, state.Connected kernelInst tracks known active
  step := SyncStep kernelInst chain source

/-- What the two sides have said: a question on its way, its answer on its way, or
    silence. -/
inductive Talk (chain : RemoteChain) (known : Nat) :
    PeerStateMachine → List NetworkMessage → List NetworkMessage → Prop where
  | ask_headers {locators : List BlockHash} (hhead : locators.head? = chain.hashes[known]?) :
      Talk chain known .AwaitingHeaders [create_getheaders_message locators] []
  | headers : Talk chain known .AwaitingHeaders [] [.Headers (chain.headers_after known)]
  | ask_blocks {batch : List BlockHash} (hne : batch ≠ []) (hnodup : batch.Nodup)
      (hchain : ∀ hash ∈ batch, hash ∈ chain.blocks.map bitcoin.Block.block_hash) :
      Talk chain known (.AwaitingBlock ⟨HashSet.collect batch⟩) [create_getdata_message batch] []
  | blocks {owed : HashSet BlockHash} {blocks : List bitcoin.Block} (hne : blocks ≠ [])
      (hchain : ∀ block ∈ blocks, block ∈ chain.blocks)
      (hnodup : (blocks.map bitcoin.Block.block_hash).Nodup)
      (howed : ∀ hash, hash ∈ owed ↔ hash ∈ blocks.map bitcoin.Block.block_hash) :
      Talk chain known (.AwaitingBlock ⟨owed⟩) [] (blocks.map .Block)
  | ask_inventory {locators : List BlockHash} :
      Talk chain known .AwaitingInv [create_getblocks_message locators] []
  | inventory {inventory : List Inventory} (hne : inventory.filterMap Inventory.block_hash ≠ []) :
      Talk chain known .AwaitingInv [] [.Inv inventory]
  | silence : Talk chain known .AwaitingInv [] []

/-- The block is in the buffer, under its parent, or with the block thread. -/
def SyncState.Holds (kernelInst : ChainstateManager C) (state : SyncState C)
    (block : bitcoin.Block) : Prop :=
  ∃ held, block.convert kernelInst = some held ∧
    (state.node.download.buffer.lookup block.header.prev_blockhash = some held ∨
      state.validating = some held)

/-- Every block above the active chain has been received. -/
def SyncState.Received (kernelInst : ChainstateManager C) (chain : RemoteChain) (active : Nat)
    (state : SyncState C) : Prop :=
  ∀ i block, chain.blocks[i]? = some block → active ≤ i → state.Holds kernelInst block

/-- Every block above the active chain is asked for, owed or received. -/
def SyncState.Covered (kernelInst : ChainstateManager C) (chain : RemoteChain) (active : Nat)
    (state : SyncState C) : Prop :=
  ∀ i block, chain.blocks[i]? = some block → active ≤ i →
    block.block_hash ∈ state.node.download.queue ∨
      block.block_hash ∈ state.node.download.in_flight ∨ state.Holds kernelInst block

/-- Before the first complete answer to a request for headers. -/
def SyncState.Starting (state : SyncState C) : Prop :=
  state.node.download = .default ∧ state.validating = none ∧ state.peer = .AwaitingHeaders

/-- What holds all along a synchronization. -/
structure SyncState.Syncs (kernelInst : ChainstateManager C) (chain : RemoteChain)
    (tracks : C → Nat → Nat → Prop) (known active : Nat) (state : SyncState C) : Prop where
  tracks : tracks state.node.chainman known active
  talk : Talk chain known state.peer state.to_peer state.from_peer
  in_flight : ∀ hash, hash ∈ state.node.download.in_flight ↔ hash ∈ state.peer.inventory
  queued : ∀ hash ∈ state.node.download.queue, hash ∈ chain.blocks.map bitcoin.Block.block_hash
  waiting : state.peer.inventory.keys = [] → state.node.download.queue = []
  buffered : ∀ prev held, state.node.download.buffer.lookup prev = some held →
    ∃ i block, chain.blocks[i]? = some block ∧ i < known ∧ prev = block.header.prev_blockhash ∧
      block.convert kernelInst = some held
  validating : ∀ held, state.validating = some held →
    ∃ i block, chain.blocks[i]? = some block ∧ i < known ∧ i ≤ active ∧
      block.convert kernelInst = some held
  stage : state.Starting ∨ known = chain.blocks.length ∧ state.Covered kernelInst chain active

/-- How many steps of the conversation are left at most until everything is
    received. -/
def SyncState.remaining (chain : RemoteChain) (known : Nat) (state : SyncState C) : Nat :=
  match state.peer with
  | .AwaitingHeaders =>
    2 * ((chain.blocks.length - known) / 2000) + 2 * chain.blocks.length + 3 + state.to_peer.length
  | .AwaitingBlock _ =>
    2 * state.node.download.queue.length + (state.to_peer.flatMap NetworkMessage.requested).length +
      state.to_peer.length + state.from_peer.length
  | .AwaitingInv => 0

/-- The node processes a message without a panic, the synchronization goes on and
    loses no block, and either everything is received or less is left to do. -/
def SyncState.Handles (kernelInst : ChainstateManager C) (chain : RemoteChain)
    (tracks : C → Nat → Nat → Prop) (source : AddrV2) (known active : Nat) (state : SyncState C)
    (message : NetworkMessage) (rest : List NetworkMessage) : Prop :=
  ∃ peer messages node learned,
    process_message kernelInst state.peer message source state.node =
      (some (peer, messages), node) ∧
    { state with node, peer, to_peer := messages, from_peer := rest }.Syncs kernelInst chain tracks
      learned active ∧
    (∀ block ∈ chain.blocks, state.Holds kernelInst block →
      { state with node, peer, to_peer := messages, from_peer := rest }.Holds kernelInst block) ∧
    ({ state with node, peer, to_peer := messages, from_peer := rest }.Received kernelInst chain
        active ∨
      { state with node, peer, to_peer := messages, from_peer := rest }.remaining chain learned <
        state.remaining chain known)

section

variable {kernelInst : ChainstateManager C} {chain : RemoteChain} {tracks : C → Nat → Nat → Prop}
  {source : AddrV2} {known active : Nat} {state next : SyncState C}

/-- Nothing queued and nothing owed: everything is received. -/
theorem SyncState.Covered.received (hcovered : state.Covered kernelInst chain active)
    (hqueue : state.node.download.queue = [])
    (hflight : ∀ hash, hash ∉ state.node.download.in_flight) :
    state.Received kernelInst chain active := by
  intro i block hblock hle
  rcases hcovered i block hblock hle with hqueued | howed | hholds
  · rw [hqueue] at hqueued
    cases hqueued
  · exact absurd howed (hflight _)
  · exact hholds

/-- What taking a batch does while nothing is in flight. -/
structure BatchTaken (chain : RemoteChain) (known : Nat) (before after : DownloadState)
    (peer : PeerStateMachine) (messages : List NetworkMessage) : Prop where
  talk : Talk chain known peer messages []
  buffer : after.buffer = before.buffer
  in_flight : ∀ hash, hash ∈ after.in_flight ↔ hash ∈ peer.inventory
  subset : ∀ hash ∈ after.queue, hash ∈ before.queue
  kept : ∀ hash ∈ before.queue, hash ∈ after.queue ∨ hash ∈ after.in_flight
  waiting : peer.inventory.keys = [] → after.queue = []
  cost : peer = .AwaitingInv ∨ ∃ owed, peer = .AwaitingBlock owed ∧
    2 * after.queue.length + (messages.flatMap NetworkMessage.requested).length +
      messages.length ≤ 2 * before.queue.length

theorem request_batch_taken (kernelInst : ChainstateManager C) (known : Nat) {node : NodeState C}
    (hflight : ∀ hash, hash ∉ node.download.in_flight)
    (hqueued : ∀ hash ∈ node.download.queue,
      hash ∈ chain.blocks.map bitcoin.Block.block_hash) :
    ∃ peer messages download,
      request_batch kernelInst node = (some (peer, messages), { node with download }) ∧
        BatchTaken chain known node.download download peer messages := by
  obtain ⟨popped, rest, hsplit, hpop⟩ := node.download.pop_batch_eq DOWNLOAD_BATCH_SIZE
  have hclaims := node.download.pop_batch_claims DOWNLOAD_BATCH_SIZE
  have hqueue := node.download.pop_batch_queue DOWNLOAD_BATCH_SIZE
  have hlength := node.download.pop_batch_length DOWNLOAD_BATCH_SIZE
  generalize hbatch : node.download.pop_batch DOWNLOAD_BATCH_SIZE = taken at *
  obtain ⟨batch, download⟩ := taken
  have hmem (hash : BlockHash) : hash ∈ download.in_flight ↔ hash ∈ batch := by
    rw [hclaims.mem_iff, or_iff_right (hflight hash)]
  have hbuffer : download.buffer = node.download.buffer := by
    rw [(Prod.mk.inj hpop).2]
  cases batch with
  | nil =>
    obtain ⟨locators, hlocators, _⟩ :=
      build_block_locators_head (kernelInst.active_tip node.chainman)
    refine ⟨.AwaitingInv, [create_getblocks_message locators], download, ?_, .ask_inventory,
      hbuffer, hmem, fun hash => (hqueue hash).2.1, fun hash => (hqueue hash).2.2,
      fun _ => hlength.2 (show 0 < DOWNLOAD_BATCH_SIZE by decide), .inl rfl⟩
    simp [request_batch, hbatch, hlocators]
  | cons head tail =>
    refine ⟨_, [create_getdata_message (head :: tail)], download, ?_,
      .ask_blocks (List.cons_ne_nil head tail) hclaims.nodup fun hash hhash =>
        hqueued hash ((hqueue hash).1 hhash),
      hbuffer, fun hash => (hmem hash).trans (HashSet.mem_collect _ hash).symm,
      fun hash => (hqueue hash).2.1, fun hash => (hqueue hash).2.2, ?_, .inr ⟨_, rfl, ?_⟩⟩
    · simp [request_batch, hbatch]
    · intro hkeys
      exact absurd ((HashSet.mem_collect _ head).mpr List.mem_cons_self)
        (HashSet.keys_eq_nil_iff.mp hkeys head)
    · -- each hash of the batch has left the queue
      have hsubset : head :: tail ⊆ popped := by
        intro hash hhash
        rw [(Prod.mk.inj hpop).1] at hhash
        exact (insert_new_mem popped _ hash).2 hhash
      have hle := (List.subperm_of_subset hclaims.nodup hsubset).length_le
      have hrest : download.queue = rest := by
        rw [(Prod.mk.inj hpop).2]
      have htotal := congrArg List.length hsplit
      rw [List.length_append] at htotal
      simp only [List.flatMap_cons, List.flatMap_nil, List.append_nil,
        requested_create_getdata_message, List.length_singleton, hrest]
      simp only [List.length_cons] at hle ⊢
      omega

/-- The peer has every block that it is asked for, and sends them in order. -/
theorem answer_getdata {batch : List BlockHash}
    (hchain : ∀ hash ∈ batch, hash ∈ chain.blocks.map bitcoin.Block.block_hash) :
    ∃ blocks : List bitcoin.Block,
      chain.answer (create_getdata_message batch) = blocks.map .Block ∧
        blocks.map bitcoin.Block.block_hash = batch ∧ ∀ block ∈ blocks, block ∈ chain.blocks := by
  have hanswer : chain.answer (create_getdata_message batch) =
      (create_getdata_message batch).requested.filterMap fun hash =>
        (chain.blocks.find? fun block => block.block_hash = hash).map .Block := rfl
  rw [hanswer, requested_create_getdata_message]
  clear hanswer
  induction batch with
  | nil => exact ⟨[], rfl, rfl, by simp⟩
  | cons hash batch ih =>
    obtain ⟨hhash, hrest⟩ := List.forall_mem_cons.mp hchain
    obtain ⟨i, block, hblock, rfl⟩ := RemoteChain.mem_block_hashes.mp hhash
    obtain ⟨blocks, hblocks, hhashes, hmem⟩ := ih hrest
    refine ⟨block :: blocks, ?_, by rw [List.map_cons, hhashes],
      List.forall_mem_cons.mpr ⟨List.mem_of_getElem? hblock, hmem⟩⟩
    rw [List.filterMap_cons, RemoteChain.find_block hblock, Option.map_some, hblocks, List.map_cons]

/-- The answer takes the place of the question. -/
theorem Talk.answer {peer : PeerStateMachine} {message : NetworkMessage}
    {rest from_peer : List NetworkMessage} (hknown : known ≤ chain.blocks.length)
    (htalk : Talk chain known peer (message :: rest) from_peer) :
    Talk chain known peer rest (from_peer ++ chain.answer message) := by
  cases htalk with
  | ask_headers hhead =>
    have hanswer := RemoteChain.fork_height_of_head hknown hhead
    simp only [create_getheaders_message, RemoteChain.answer, hanswer, List.nil_append]
    exact .headers
  | @ask_blocks batch hne hnodup hchain =>
    obtain ⟨blocks, hanswer, hhashes, hmem⟩ := answer_getdata hchain
    rw [hanswer, List.nil_append]
    refine .blocks ?_ hmem (by rwa [hhashes]) (by simp [hhashes])
    rintro rfl
    exact hne hhashes.symm
  | ask_inventory =>
    simp only [create_getblocks_message, RemoteChain.answer, List.nil_append]
    split
    · exact .silence
    · rename_i hne
      refine .inventory fun hnone => hne ?_
      rw [RemoteChain.inventory_after_hashes, List.map_eq_nil_iff] at hnone
      rw [RemoteChain.inventory_after, hnone]
      rfl

namespace SyncState.Syncs

/-- A peer that owes nothing has delivered everything, once the headers are
    complete. -/
theorem received (hsyncs : state.Syncs kernelInst chain tracks known active)
    (hcovered : state.Covered kernelInst chain active) (hkeys : state.peer.inventory.keys = []) :
    state.Received kernelInst chain active := by
  refine hcovered.received (hsyncs.waiting hkeys) fun hash => ?_
  rw [hsyncs.in_flight]
  exact HashSet.keys_eq_nil_iff.mp hkeys hash

theorem covered (hsyncs : state.Syncs kernelInst chain tracks known active)
    (hpeer : state.peer ≠ .AwaitingHeaders) :
    known = chain.blocks.length ∧ state.Covered kernelInst chain active := by
  rcases hsyncs.stage with hstarting | hcovered
  · exact absurd hstarting.2.2 hpeer
  · exact hcovered

theorem buffered_weak (hsyncs : state.Syncs kernelInst chain tracks known active) (prev : BlockHash)
    (held : bitcoinkernel.Block) (hheld : state.node.download.buffer.lookup prev = some held) :
    ∃ (i : Nat) (block : bitcoin.Block), chain.blocks[i]? = some block ∧
      prev = block.header.prev_blockhash ∧ block.convert kernelInst = some held := by
  obtain ⟨i, block, hblock, _, hprev, hconvert⟩ := hsyncs.buffered prev held hheld
  exact ⟨i, block, hblock, hprev, hconvert⟩

theorem validating_weak (hsyncs : state.Syncs kernelInst chain tracks known active)
    (held : bitcoinkernel.Block) (hheld : state.validating = some held) :
    ∃ (i : Nat) (block : bitcoin.Block), chain.blocks[i]? = some block ∧ i ≤ active ∧
      block.convert kernelInst = some held := by
  obtain ⟨i, block, hblock, _, hle, hconvert⟩ := hsyncs.validating held hheld
  exact ⟨i, block, hblock, hle, hconvert⟩

/-- What is buffered under the hash of a block of the chain is that block. -/
theorem lookup_of_buffered (hsyncs : state.Syncs kernelInst chain tracks known active) {i : Nat}
    {block : bitcoin.Block} (hblock : chain.blocks[i]? = some block)
    (hheld : block.block_hash ∈ state.node.download.buffered_hashes) :
    ∃ held, block.convert kernelInst = some held ∧
      state.node.download.buffer.lookup block.header.prev_blockhash = some held := by
  obtain ⟨prev, held, hlookup, hhash⟩ := (DownloadState.mem_buffered_hashes _ _).mp hheld
  obtain ⟨j, other, hother, _, rfl, hconvert⟩ := hsyncs.buffered prev held hlookup
  rw [Block.convert_hash hconvert] at hhash
  obtain rfl := RemoteChain.index_of_block_hash hother hblock hhash
  obtain rfl := Option.some.inj (hother.symm.trans hblock)
  exact ⟨held, hconvert, hlookup⟩

/-- The peer answers. -/
theorem answer (hfollows : Follows kernelInst chain tracks)
    (hsyncs : state.Syncs kernelInst chain tracks known active) {message : NetworkMessage}
    {rest : List NetworkMessage} (hsent : state.to_peer = message :: rest)
    (hnext : next = { state with
      to_peer := rest, from_peer := state.from_peer ++ chain.answer message }) :
    next.Syncs kernelInst chain tracks known active ∧
      (next.Received kernelInst chain active ∨
        next.remaining chain known < state.remaining chain known) := by
  have htalk := hsyncs.talk
  rw [hsent] at htalk
  have hsyncs' : next.Syncs kernelInst chain tracks known active := by
    subst hnext
    exact { hsyncs with talk := htalk.answer (hfollows.bounds hsyncs.tracks).2 }
  refine ⟨hsyncs', ?_⟩
  obtain ⟨node, peer, to_peer, from_peer, validating⟩ := state
  subst hnext
  dsimp only at hsent htalk
  subst hsent
  cases htalk with
  | ask_headers =>
    refine .inr ?_
    simp only [remaining, List.length_cons, List.length_nil]
    omega
  | ask_blocks hne hnodup hchain =>
    obtain ⟨blocks, hanswer, hhashes, _⟩ := answer_getdata hchain
    have hlength := congrArg List.length hhashes
    refine .inr ?_
    simp only [remaining, hanswer, List.nil_append, List.length_map, List.flatMap_cons,
      List.flatMap_nil, List.append_nil, requested_create_getdata_message, List.length_cons,
      List.length_nil] at hlength ⊢
    omega
  | ask_inventory => exact .inl (hsyncs'.received (hsyncs'.covered (by simp)).2 rfl)

/-- A full message of headers: the next headers are asked for. -/
theorem receive_full (hfollows : Follows kernelInst chain tracks)
    (hsyncs : state.Syncs kernelInst chain tracks known active)
    (hpeer : state.peer = .AwaitingHeaders) (hto : state.to_peer = [])
    (hfull : (chain.headers_after known).length = 2000) :
    state.Handles kernelInst chain tracks source known active
      (.Headers (chain.headers_after known)) [] := by
  have hlength := chain.length_headers_after known
  have hknown := hfollows.accept_headers_after hsyncs.tracks
  rw [hfull] at hlength hknown
  obtain ⟨locators, hrequest, hhead⟩ := hfollows.request_headers hknown
  have hstarting : state.Starting := by
    rcases hsyncs.stage with hstarting | ⟨hall, _⟩
    · exact hstarting
    · omega
  refine ⟨.AwaitingHeaders, [create_getheaders_message locators], { state.node with
    chainman := (accept_headers kernelInst state.node.chainman (chain.headers_after known)).2 },
    known + 2000, ?_, ⟨hknown, .ask_headers hhead, hpeer ▸ hsyncs.in_flight, hsyncs.queued,
      hpeer ▸ hsyncs.waiting, ?_, ?_, .inl ⟨hstarting.1, hstarting.2.1, rfl⟩⟩,
    fun _ _ hheld => hheld, .inr ?_⟩
  · simp only [hpeer, process_message, hfull, ne_eq, not_true_eq_false, if_false, hrequest]
  · intro prev held hheld
    dsimp only at hheld
    rw [hstarting.1] at hheld
    cases hheld
  · intro held hheld
    dsimp only at hheld
    rw [hstarting.2.1] at hheld
    cases hheld
  · simp only [remaining, hpeer, hto, List.length_cons, List.length_nil]
    omega

/-- The next batch, where nothing is in flight and the headers are complete. -/
theorem take_batch (kernelInst : ChainstateManager C) (state : SyncState C) (node : NodeState C)
    (htracks : tracks node.chainman chain.blocks.length active)
    (hflight : ∀ hash, hash ∉ node.download.in_flight)
    (hqueued : ∀ hash ∈ node.download.queue, hash ∈ chain.blocks.map bitcoin.Block.block_hash)
    (hbuffered : ∀ prev held, node.download.buffer.lookup prev = some held →
      ∃ (i : Nat) (block : bitcoin.Block), chain.blocks[i]? = some block ∧
        prev = block.header.prev_blockhash ∧ block.convert kernelInst = some held)
    (hvalidating : ∀ held, state.validating = some held →
      ∃ (i : Nat) (block : bitcoin.Block), chain.blocks[i]? = some block ∧ i ≤ active ∧
        block.convert kernelInst = some held)
    (hcovered : { state with node }.Covered kernelInst chain active) :
    ∃ peer messages after, request_batch kernelInst node = (some (peer, messages), after) ∧
      { state with node := after, peer, to_peer := messages, from_peer := [] }.Syncs kernelInst
        chain tracks chain.blocks.length active ∧
      after.download.buffer = node.download.buffer ∧
      ({ state with node := after, peer, to_peer := messages, from_peer := [] }.Received kernelInst
          chain active ∨
        { state with node := after, peer, to_peer := messages, from_peer := [] }.remaining chain
          chain.blocks.length ≤ 2 * node.download.queue.length) := by
  obtain ⟨peer, messages, download, hrequest, htaken⟩ :=
    request_batch_taken kernelInst chain.blocks.length hflight hqueued
  have hindex (i : Nat) (block : bitcoin.Block) (hblock : chain.blocks[i]? = some block) :
      i < chain.blocks.length := (List.getElem?_eq_some_iff.mp hblock).1
  have hcovers : SyncState.Covered kernelInst chain active { state with
      node := { node with download }, peer, to_peer := messages, from_peer := [] } := by
    intro i block hblock hle
    rcases hcovered i block hblock hle with hqueue | howed | hheld
    · exact (htaken.kept _ hqueue).imp_right .inl
    · exact absurd howed (hflight _)
    · refine .inr (.inr ?_)
      simp only [Holds, htaken.buffer]
      exact hheld
  have hsyncs : SyncState.Syncs kernelInst chain tracks chain.blocks.length active { state with
      node := { node with download }, peer, to_peer := messages, from_peer := [] } := by
    refine ⟨htracks, htaken.talk, htaken.in_flight, fun hash hhash =>
      hqueued hash (htaken.subset hash hhash), htaken.waiting, ?_, ?_, .inr ⟨rfl, hcovers⟩⟩
    · intro prev held hheld
      dsimp only at hheld
      rw [htaken.buffer] at hheld
      obtain ⟨i, block, hblock, hprev, hconvert⟩ := hbuffered prev held hheld
      exact ⟨i, block, hblock, hindex i block hblock, hprev, hconvert⟩
    · intro held hheld
      obtain ⟨i, block, hblock, hle, hconvert⟩ := hvalidating held hheld
      exact ⟨i, block, hblock, hindex i block hblock, hle, hconvert⟩
  refine ⟨peer, messages, _, hrequest, hsyncs, htaken.buffer, ?_⟩
  rcases htaken.cost with rfl | ⟨owed, rfl, hcost⟩
  · exact .inl (hsyncs.received hcovers rfl)
  · exact .inr (by simpa only [remaining, List.length_nil, Nat.add_zero] using hcost)

/-- The last headers: the queue is built and the first batch asked for. -/
theorem receive_rest (hfollows : Follows kernelInst chain tracks)
    (hsyncs : state.Syncs kernelInst chain tracks known active)
    (hpeer : state.peer = .AwaitingHeaders)
    (hrest : (chain.headers_after known).length ≠ 2000) :
    state.Handles kernelInst chain tracks source known active
      (.Headers (chain.headers_after known)) [] := by
  have hlength := chain.length_headers_after known
  have hbounds := hfollows.bounds hsyncs.tracks
  have hknown := hfollows.accept_headers_after hsyncs.tracks
  rw [show known + (chain.headers_after known).length = chain.blocks.length by omega] at hknown
  have hflight : ∀ hash, hash ∉ state.node.download.in_flight := by
    intro hash
    rw [hsyncs.in_flight, hpeer]
    exact AList.notMem_empty hash
  have hqueue : state.node.download.queue = [] := hsyncs.waiting (by rw [hpeer]; rfl)
  have hmem := hfollows.mem_populate_download_queue hknown hqueue
  generalize hchainman :
    (accept_headers kernelInst state.node.chainman (chain.headers_after known)).2 = chainman at *
  generalize hdownload :
    populate_download_queue kernelInst chainman state.node.download = download at *
  have hsame : download.in_flight = state.node.download.in_flight ∧
      download.buffer = state.node.download.buffer := by
    rw [← hdownload]
    exact ⟨populate_download_queue_in_flight kernelInst chainman _,
      populate_download_queue_buffer kernelInst chainman _⟩
  have hqueued : ∀ hash ∈ download.queue, hash ∈ chain.blocks.map bitcoin.Block.block_hash := by
    intro hash hhash
    obtain ⟨height, hlt, _, hheight, _⟩ := (hmem hash).mp hhash
    exact RemoteChain.mem_block_hashes_of_height (Nat.zero_lt_of_lt hlt) hheight
  have hcovered : { state with node := { state.node with chainman, download } }.Covered kernelInst
      chain active := by
    intro i block hblock hle
    have hindex := (List.getElem?_eq_some_iff.mp hblock).1
    by_cases hheld : block.block_hash ∈ state.node.download.buffered_hashes
    · obtain ⟨held, hconvert, hlookup⟩ := hsyncs.lookup_of_buffered hblock hheld
      refine .inr (.inr ⟨held, hconvert, .inl ?_⟩)
      dsimp only
      rwa [hsame.2]
    · exact .inl ((hmem _).mpr ⟨i + 1, Nat.lt_succ_of_le hle, hindex,
        RemoteChain.hash_above hblock, hheld, hflight _⟩)
  obtain ⟨peer, messages, after, hrequest, hnext, hbuffer, hcost⟩ := take_batch kernelInst state
    { state.node with chainman, download } hknown (by rw [hsame.1]; exact hflight) hqueued
    (by rw [hsame.2]; exact hsyncs.buffered_weak) hsyncs.validating_weak hcovered
  refine ⟨peer, messages, after, chain.blocks.length, ?_, hnext, fun block _ => ?_,
    hcost.imp_right fun hle => ?_⟩
  · simp only [hpeer, process_message, hrest, ne_eq, not_false_eq_true, if_true, hchainman,
      hdownload]
    exact hrequest
  · simp only [Holds, hbuffer, hsame.2]
    exact id
  · have hnodup : download.queue.Nodup := by
      rcases populate_download_queue_queue kernelInst chainman state.node.download with
        hsame | ⟨_, hnodup, _⟩
      · rw [← hdownload, hsame, hqueue]
        exact List.nodup_nil
      · rwa [← hdownload]
    have hshort := (List.subperm_of_subset hnodup hqueued).length_le
    rw [List.length_map] at hshort
    refine Nat.lt_of_le_of_lt hle ?_
    simp only [remaining, hpeer]
    omega

/-- A delivery does not take the place of another block of the chain. -/
theorem holds_deliver {i : Nat} {block other : bitcoin.Block}
    (hblock : chain.blocks[i]? = some block) (hother : other ∈ chain.blocks)
    (hheld : state.Holds kernelInst other) :
    { state with node := { state.node with
      download := (state.node.download.deliver kernelInst block).2 } }.Holds kernelInst other := by
  obtain ⟨held, hconvert, hheld⟩ := hheld
  refine ⟨held, hconvert, hheld.imp_left fun hlookup => ?_⟩
  simp only [DownloadState.deliver_eq]
  split
  · by_cases hprev : other.header.prev_blockhash = block.header.prev_blockhash
    · obtain ⟨j, hother⟩ := List.mem_iff_getElem?.mp hother
      obtain rfl := RemoteChain.height_unique (RemoteChain.hash_below hother)
        (hprev ▸ RemoteChain.hash_below hblock)
      obtain rfl := Option.some.inj (hother.symm.trans hblock)
      rw [hconvert]
      exact AList.lookup_insert _
    · cases block.convert kernelInst with
      | none => exact hlookup
      | some converted => exact (AList.lookup_insert_ne hprev).trans hlookup
  · exact hlookup

/-- A block that the peer owes goes into the buffer; the others stay where they
    are. -/
theorem covered_deliver (hcovered : state.Covered kernelInst chain active) {i : Nat}
    {block : bitcoin.Block} {held : bitcoinkernel.Block} (hblock : chain.blocks[i]? = some block)
    (hconvert : block.convert kernelInst = some held)
    (howed : block.block_hash ∈ state.node.download.in_flight) :
    { state with node := { state.node with
      download := (state.node.download.deliver kernelInst block).2 } }.Covered kernelInst chain
        active := by
  intro j other hother hle
  by_cases hhash : other.block_hash = block.block_hash
  · obtain rfl := RemoteChain.index_of_block_hash hother hblock hhash
    obtain rfl := Option.some.inj (hother.symm.trans hblock)
    refine .inr (.inr ⟨held, hconvert, .inl ?_⟩)
    simp only [DownloadState.deliver_eq, howed, if_true, hconvert]
    exact AList.lookup_insert _
  · rcases hcovered j other hother hle with hqueued | hflying | hheld
    · refine .inl ?_
      simp only [DownloadState.deliver_eq]
      exact hqueued
    · refine .inr (.inl ?_)
      simp only [DownloadState.deliver_eq]
      exact AList.mem_erase.mpr ⟨hhash, hflying⟩
    · exact .inr (.inr (holds_deliver hblock (List.mem_of_getElem? hother) hheld))

theorem buffered_deliver (hsyncs : state.Syncs kernelInst chain tracks known active) {i : Nat}
    {block : bitcoin.Block} {converted : bitcoinkernel.Block}
    (hblock : chain.blocks[i]? = some block)
    (hconvert : block.convert kernelInst = some converted) (prev : BlockHash)
    (held : bitcoinkernel.Block)
    (hheld : (state.node.download.deliver kernelInst block).2.buffer.lookup prev = some held) :
    ∃ (i : Nat) (block : bitcoin.Block), chain.blocks[i]? = some block ∧
      prev = block.header.prev_blockhash ∧ block.convert kernelInst = some held := by
  rw [DownloadState.deliver_eq, hconvert] at hheld
  dsimp only at hheld
  split at hheld
  · by_cases hprev : prev = block.header.prev_blockhash
    · subst hprev
      obtain rfl := Option.some.inj ((AList.lookup_insert _).symm.trans hheld)
      exact ⟨i, block, hblock, rfl, hconvert⟩
    · exact hsyncs.buffered_weak prev held ((AList.lookup_insert_ne hprev).symm.trans hheld)
  · exact hsyncs.buffered_weak prev held hheld

/-- A block that the peer owes. -/
theorem receive_block (hfollows : Follows kernelInst chain tracks)
    (hsyncs : state.Syncs kernelInst chain tracks known active) {owed : HashSet BlockHash}
    (hpeer : state.peer = .AwaitingBlock ⟨owed⟩) (hto : state.to_peer = [])
    {block : bitcoin.Block} {blocks : List bitcoin.Block}
    (hfrom : state.from_peer = (block :: blocks).map .Block)
    (hchain : ∀ other ∈ block :: blocks, other ∈ chain.blocks)
    (hnodup : ((block :: blocks).map bitcoin.Block.block_hash).Nodup)
    (howed : ∀ hash, hash ∈ owed ↔ hash ∈ (block :: blocks).map bitcoin.Block.block_hash) :
    state.Handles kernelInst chain tracks source known active (.Block block)
      (blocks.map .Block) := by
  obtain ⟨rfl, hcovered⟩ := hsyncs.covered (by simp [hpeer])
  obtain ⟨hblock, hblocks⟩ := List.forall_mem_cons.mp hchain
  obtain ⟨converted, hconvert⟩ := hfollows.decodes block hblock
  have hdecoded : ¬ state.node.download.Refused kernelInst block := by
    simp [DownloadState.Refused, hconvert]
  obtain ⟨i, hblock⟩ := List.mem_iff_getElem?.mp hblock
  rw [List.map_cons, List.nodup_cons] at hnodup
  have hflight (hash : BlockHash) : hash ∈ state.node.download.in_flight ↔
      hash ∈ (block :: blocks).map bitcoin.Block.block_hash := by
    rw [hsyncs.in_flight, hpeer]
    exact howed hash
  have hcovers := covered_deliver hcovered hblock hconvert ((hflight _).mpr List.mem_cons_self)
  have hbuffers := hsyncs.buffered_deliver hblock hconvert
  have herase (hash : BlockHash) : hash ∈ owed.erase block.block_hash ↔
      hash ∈ blocks.map bitcoin.Block.block_hash := by
    rw [AList.mem_erase, howed, List.map_cons, List.mem_cons]
    constructor
    · rintro ⟨hne, rfl | hrest⟩
      · exact absurd rfl hne
      · exact hrest
    · intro hrest
      exact ⟨fun hhash => hnodup.1 (hhash ▸ hrest), .inr hrest⟩
  have hflight' (hash : BlockHash) :
      hash ∈ (state.node.download.deliver kernelInst block).2.in_flight ↔
        hash ∈ owed.erase block.block_hash := by
    rw [DownloadState.deliver_eq, AList.mem_erase, AList.mem_erase, hsyncs.in_flight, hpeer]
    rfl
  have hqueue : (state.node.download.deliver kernelInst block).2.queue =
      state.node.download.queue := by
    rw [DownloadState.deliver_eq]
  have hqueued := hsyncs.queued
  rw [← hqueue] at hqueued
  cases blocks with
  | nil =>
    -- the batch is complete
    have hlast : (owed.erase block.block_hash).keys = [] :=
      HashSet.keys_eq_nil_iff.mpr fun hash hhash => by simpa using (herase hash).mp hhash
    obtain ⟨peer, messages, after, hrequest, hnext, hbuffer, hcost⟩ := take_batch kernelInst state
      { state.node with download := (state.node.download.deliver kernelInst block).2 } hsyncs.tracks
      (fun hash hhash => by simpa using (herase hash).mp ((hflight' hash).mp hhash))
      hqueued hbuffers hsyncs.validating_weak hcovers
    refine ⟨peer, messages, after, _, ?_, hnext, fun other hother hheld => ?_,
      hcost.imp_right fun hle => ?_⟩
    · rw [hpeer, process_message_decoded hdecoded, if_pos (List.isEmpty_iff.mpr hlast)]
      exact hrequest
    · simp only [Holds, hbuffer]
      exact holds_deliver hblock hother hheld
    · refine Nat.lt_of_le_of_lt hle ?_
      simp only [remaining, hpeer, hto, hfrom, List.flatMap_nil, List.length_nil, List.map_cons,
        List.map_nil, List.length_cons, hqueue]
      omega
  | cons second rest =>
    have hmore : (owed.erase block.block_hash).keys ≠ [] := by
      intro hkeys
      exact HashSet.keys_eq_nil_iff.mp hkeys second.block_hash
        ((herase _).mpr List.mem_cons_self)
    refine ⟨.AwaitingBlock ⟨owed.erase block.block_hash⟩, [],
      { state.node with download := (state.node.download.deliver kernelInst block).2 }, _, ?_,
      ⟨hsyncs.tracks, .blocks (List.cons_ne_nil second rest) hblocks hnodup.2 herase, hflight',
        hqueued, fun hkeys => absurd hkeys hmore, ?_, hsyncs.validating,
        .inr ⟨rfl, hcovers⟩⟩, fun _ => holds_deliver hblock, .inr ?_⟩
    · rw [hpeer, process_message_decoded hdecoded,
        if_neg fun hempty => hmore (List.isEmpty_iff.mp hempty)]
    · intro prev held hheld
      obtain ⟨j, other, hother, hprev, hconvert⟩ := hbuffers prev held hheld
      exact ⟨j, other, hother, (List.getElem?_eq_some_iff.mp hother).1, hprev, hconvert⟩
    · simp only [remaining, hpeer, hto, hfrom, List.flatMap_nil, List.length_nil, List.map_cons,
        List.length_cons, hqueue]
      omega

/-- An announcement that comes while everything is received: the node asks for
    headers again. -/
theorem receive_inventory (hfollows : Follows kernelInst chain tracks)
    (hsyncs : state.Syncs kernelInst chain tracks known active) (hpeer : state.peer = .AwaitingInv)
    {inventory : List Inventory} (hne : inventory.filterMap Inventory.block_hash ≠ []) :
    state.Handles kernelInst chain tracks source known active (.Inv inventory) [] := by
  obtain ⟨hknown, hcovered⟩ := hsyncs.covered (by simp [hpeer])
  have hreceived := hsyncs.received hcovered (by rw [hpeer]; rfl)
  obtain ⟨locators, hrequest, hhead⟩ := hfollows.request_headers hsyncs.tracks
  have hflight := hsyncs.in_flight
  have hwaiting := hsyncs.waiting
  rw [hpeer] at hflight hwaiting
  refine ⟨.AwaitingHeaders, [create_getheaders_message locators], state.node, known, ?_,
    ⟨hsyncs.tracks, .ask_headers hhead, hflight, hsyncs.queued, hwaiting, hsyncs.buffered,
      hsyncs.validating, .inr ⟨hknown, hcovered⟩⟩, fun _ _ hheld => hheld, .inl hreceived⟩
  simp [hpeer, process_message, hne, hrequest]

/-- Whatever the peer sends, the node handles it. -/
theorem handles (hfollows : Follows kernelInst chain tracks)
    (hsyncs : state.Syncs kernelInst chain tracks known active) (source : AddrV2)
    {message : NetworkMessage} {rest : List NetworkMessage}
    (hsent : state.from_peer = message :: rest) :
    state.to_peer = [] ∧
      state.Handles kernelInst chain tracks source known active message rest := by
  have htalk := hsyncs.talk
  generalize hpeer : state.peer = peer at htalk
  generalize hto : state.to_peer = to_peer at htalk
  generalize hfrom : state.from_peer = from_peer at htalk
  rw [hfrom] at hsent
  cases htalk with
  | ask_headers => cases hsent
  | headers =>
    cases hsent
    by_cases hfull : (chain.headers_after known).length = 2000
    · exact ⟨rfl, hsyncs.receive_full hfollows hpeer hto hfull⟩
    · exact ⟨rfl, hsyncs.receive_rest hfollows hpeer hfull⟩
  | ask_blocks => cases hsent
  | @blocks owed blocks hne hchain hnodup howed =>
    obtain ⟨block, blocks, rfl, rfl, rfl⟩ := List.map_eq_cons_iff.mp hsent
    exact ⟨rfl, hsyncs.receive_block hfollows hpeer hto hfrom hchain hnodup howed⟩
  | ask_inventory => cases hsent
  | inventory hne =>
    cases hsent
    exact ⟨rfl, hsyncs.receive_inventory hfollows hpeer hne⟩
  | silence => cases hsent

end SyncState.Syncs

end

end net
