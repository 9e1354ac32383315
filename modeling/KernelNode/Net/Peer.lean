import KernelNode.Bitcoin.Chainstate
import KernelNode.Bitcoin.Message
import KernelNode.Net.Download

open bitcoin bitcoinkernel std.collections

namespace net

def PROTOCOL_VERSION : UInt32 := 70015
def MAX_LOCATOR_HASHES : Nat := 101
def DOWNLOAD_BATCH_SIZE : Nat := 16

/-- What the peer threads and the block thread share. `addr_tx` is what has been
    sent on the address channel. -/
structure NodeState (C : Type) where
  addr_tx : List (AddrV2 × List AddrV2Message)
  chainman : C
  download : DownloadState

structure AwaitingBlock where
  peer_inventory : HashSet BlockHash

inductive PeerStateMachine where
  | AwaitingHeaders
  | AwaitingInv
  | AwaitingBlock (state : AwaitingBlock)

/-- The blocks that the peer owes. -/
def PeerStateMachine.inventory : PeerStateMachine → HashSet BlockHash
  | .AwaitingBlock state => state.peer_inventory
  | _ => ∅

/-- The loop of `build_block_locators` with the number of locators it may still
    push. A height outside the chain is a panic, here `none`. -/
def build_block_locators_loop (tip : BlockTreeEntry) :
    Nat → Int32 → Int32 → List BlockHash → Option (List BlockHash)
  | 0, _, _, locators => some locators
  | remaining + 1, current_height, step, locators => do
    let hash ← tip.ancestor current_height
    let locators := locators ++ [hash]
    if current_height = 0 then
      return locators
    let current_height := max (current_height - step) 0
    let step := if locators.length > 10 then step * 2 else step
    build_block_locators_loop tip remaining current_height step locators

def build_block_locators (tip : BlockTreeEntry) : Option (List BlockHash) :=
  build_block_locators_loop tip MAX_LOCATOR_HASHES tip.height 1 []

/-- The loop of `populate_download_queue` down from the best entry, with what it
    breaks with: the hashes it has pushed, and the fork point. No active ancestor is
    `none`. -/
def walk_to_fork (active : BlockHash → Bool) :
    List BlockHash → Option (List BlockHash × BlockHash)
  | [] => none
  | hash :: ancestors =>
    if active hash then some ([], hash) else (walk_to_fork active ancestors).map
      fun (hashes, fork_point) => (hash :: hashes, fork_point)

/-- The hashes to queue, lowest first: the walk of `populate_download_queue`
    over the block tree. -/
def missing_hashes {C : Type} (kernelInst : ChainstateManager C) (chainman : C) :
    Option (List BlockHash) := do
  let best ← kernelInst.best_entry chainman
  let (hashes, _) ← walk_to_fork (kernelInst.active_contains chainman) best.hashes
  return hashes.reverse

/-- The second locked section of `populate_download_queue`. -/
def DownloadState.install_queue (self : DownloadState) (hashes : List BlockHash) : DownloadState :=
  if !self.queue.isEmpty then self else
  let buffered := self.buffered_hashes
  let queued := hashes.filter fun hash => hash ∉ buffered && hash ∉ self.in_flight
  if queued.isEmpty then self else { self with queue := queued }

def populate_download_queue {C : Type} (kernelInst : ChainstateManager C) (chainman : C)
    (download : DownloadState) : DownloadState :=
  if !download.queue.isEmpty then download else
  match missing_hashes kernelInst chainman with
  | none => download
  | some hashes => if hashes.isEmpty then download else download.install_queue hashes

def create_getheaders_message (locator_hashes : List BlockHash) : NetworkMessage :=
  .GetHeaders { version := PROTOCOL_VERSION, locator_hashes, stop_hash := .all_zeros }

def create_getblocks_message (locator_hashes : List BlockHash) : NetworkMessage :=
  .GetBlocks { version := PROTOCOL_VERSION, locator_hashes, stop_hash := .all_zeros }

def create_getdata_message (block_hashes : List BlockHash) : NetworkMessage :=
  .GetData (block_hashes.map .WitnessBlock)

section

variable {C : Type} (kernelInst : ChainstateManager C)

/-- The header loops of `process_message`, which stop at the first header that
    the kernel does not accept: the hashes accepted before it. -/
def accept_headers : C → List Header → List BlockHash × C
  | chainman, [] => ([], chainman)
  | chainman, header :: headers =>
    match kernelInst.process_block_header chainman header with
    | (some .Valid, chainman) =>
      let (accepted, chainman) := accept_headers chainman headers
      (header.block_hash :: accepted, chainman)
    | (_, chainman) => ([], chainman)

/-- Ask for headers after the best one. Without a best entry the thread panics. -/
def request_headers (chainman : C) : Option (PeerStateMachine × List NetworkMessage) := do
  let best ← kernelInst.best_entry chainman
  let locators ← build_block_locators best
  return (.AwaitingHeaders, [create_getheaders_message locators])

/-- Take the next batch from the queue, or wait for announcements. -/
def request_batch (node_state : NodeState C) :
    Option (PeerStateMachine × List NetworkMessage) × NodeState C :=
  let (batch, download) := node_state.download.pop_batch DOWNLOAD_BATCH_SIZE
  let node_state := { node_state with download }
  if !batch.isEmpty then
    (some (.AwaitingBlock { peer_inventory := HashSet.collect batch },
      [create_getdata_message batch]), node_state)
  else
    ((build_block_locators (kernelInst.active_tip node_state.chainman)).map fun locators =>
      (.AwaitingInv, [create_getblocks_message locators]), node_state)

/-- A received block: it is buffered if it was in flight. The hash is released
    before the block is decoded, and a block that cannot be decoded is a panic,
    here `none`. -/
def DownloadState.deliver (self : DownloadState) (block : bitcoin.Block) :
    Option Unit × DownloadState :=
  let (released, download) := self.release block.block_hash
  if released then
    match block.convert kernelInst with
    | some converted => (some (), download.buffer_block block.header.prev_blockhash converted)
    | none => (none, download)
  else (some (), download)

/-- The block is in flight and cannot be decoded, so that its delivery panics. -/
def DownloadState.Refused (self : DownloadState) (block : bitcoin.Block) : Prop :=
  block.block_hash ∈ self.in_flight ∧ block.convert kernelInst = none

instance (self : DownloadState) (block : bitcoin.Block) :
    Decidable (self.Refused kernelInst block) :=
  inferInstanceAs (Decidable (_ ∧ _))

/-- A disconnecting peer gives its claims back. -/
def PeerStateMachine.release_in_flight (self : PeerStateMachine) (order : Reorder BlockHash)
    (download : DownloadState) : DownloadState :=
  match self with
  | .AwaitingBlock state => download.requeue_unreceived order state.peer_inventory
  | _ => download

def NodeState.is_on_active_chain (self : NodeState C) (block_hash : BlockHash) : Bool :=
  match kernelInst.get_block_tree_entry self.chainman block_hash with
  | some entry => kernelInst.active_contains self.chainman entry.block_hash
  | none => false

def NodeState.take_connectable (self : NodeState C) (order : Reorder BlockHash) :
    Option bitcoinkernel.Block × DownloadState :=
  self.download.take_connectable order (self.is_on_active_chain kernelInst)

/-- One message from a peer: the peer's next state with the messages to send, or
    `none` where its thread panics, and the shared state. -/
def process_message (state_machine : PeerStateMachine) (event : NetworkMessage) (source : AddrV2)
    (node_state : NodeState C) : Option (PeerStateMachine × List NetworkMessage) × NodeState C :=
  match state_machine, event with
  | _, .Ping nonce => (some (state_machine, [.Pong nonce]), node_state)
  | _, .AddrV2 payload =>
    (some (state_machine, []), { node_state with
      addr_tx := node_state.addr_tx ++ [(source, payload)] })
  | .AwaitingHeaders, .Headers headers =>
    let (_, chainman) := accept_headers kernelInst node_state.chainman headers
    let node_state := { node_state with chainman }
    if headers.length ≠ 2000 then
      request_batch kernelInst
        { node_state with
          download := populate_download_queue kernelInst chainman node_state.download }
    else (request_headers kernelInst chainman, node_state)
  | .AwaitingHeaders, _ => (some (.AwaitingHeaders, []), node_state)
  | .AwaitingInv, .Headers headers =>
    let (announced, chainman) := accept_headers kernelInst node_state.chainman headers
    let node_state := { node_state with chainman }
    if announced.isEmpty then (request_headers kernelInst chainman, node_state) else
    let (claimed, download) := node_state.download.claim announced
    let node_state := { node_state with download }
    if claimed.isEmpty then (some (.AwaitingInv, []), node_state)
    else (some (.AwaitingBlock { peer_inventory := HashSet.collect claimed },
      [create_getdata_message claimed]),
      node_state)
  | .AwaitingInv, .Inv inventory =>
    let block_hashes := inventory.filterMap Inventory.block_hash
    if !block_hashes.isEmpty then (request_headers kernelInst node_state.chainman, node_state)
    else (some (.AwaitingInv, []), node_state)
  | .AwaitingInv, _ => (some (.AwaitingInv, []), node_state)
  | .AwaitingBlock block_state, .Block block =>
    let block_state :=
      { block_state with peer_inventory := block_state.peer_inventory.erase block.block_hash }
    match node_state.download.deliver kernelInst block with
    | (none, download) => (none, { node_state with download })
    | (some (), download) =>
      let node_state := { node_state with download }
      if block_state.peer_inventory.keys.isEmpty then request_batch kernelInst node_state
      else (some (.AwaitingBlock block_state, []), node_state)
  | .AwaitingBlock block_state, _ => (some (.AwaitingBlock block_state, []), node_state)

end

/-- The block that a message delivers; a block from a peer that owes none is
    ignored. -/
def delivered_block : PeerStateMachine → NetworkMessage → Option bitcoin.Block
  | .AwaitingBlock _, .Block block => some block
  | _, _ => none

theorem event_of_delivered_block {state_machine : PeerStateMachine} {event : NetworkMessage}
    {block : bitcoin.Block} (hdelivered : delivered_block state_machine event = some block) :
    event = .Block block := by
  cases state_machine <;> cases event <;> cases hdelivered
  rfl

/-- What a call does to the peer's inventory and to the shared state, and the
    blocks it requests. A panicking thread owes nothing. -/
inductive Outcome {C : Type} (kernelInst : ChainstateManager C) (before : NodeState C) :
    PeerStateMachine → NetworkMessage → HashSet BlockHash → List BlockHash →
      NodeState C → Prop where
  /-- Nothing is requested and nothing received. -/
  | quiet {state_machine : PeerStateMachine} {event : NetworkMessage} {after : NodeState C}
      (headers : List Header)
      (hchainman : after.chainman = (accept_headers kernelInst before.chainman headers).2)
      (hdownload : after.download = before.download)
      (hdelivered : delivered_block state_machine event = none) :
      Outcome kernelInst before state_machine event state_machine.inventory [] after
  /-- The headers are complete and a batch is taken from the queue. -/
  | sync {headers : List Header} {download : DownloadState} {chainman : C} {batch : List BlockHash}
      {after : NodeState C} (hlength : headers.length ≠ 2000)
      (hchainman : (accept_headers kernelInst before.chainman headers).2 = chainman)
      (hbatch : (populate_download_queue kernelInst chainman before.download).pop_batch
        DOWNLOAD_BATCH_SIZE =
        (batch, download))
      (hafter : after = { before with chainman, download }) :
      Outcome kernelInst before .AwaitingHeaders (.Headers headers)
        (HashSet.collect batch) batch after
  /-- Announced blocks are claimed. -/
  | announce {headers : List Header} {download : DownloadState} {chainman : C}
      {announced claimed : List BlockHash} {after : NodeState C}
      (hannounced : accept_headers kernelInst before.chainman headers = (announced, chainman))
      (hclaim : before.download.claim announced = (claimed, download))
      (hafter : after = { before with chainman, download }) :
      Outcome kernelInst before .AwaitingInv (.Headers headers)
        (HashSet.collect claimed) claimed after
  /-- A block is received and more are owed. -/
  | deliver {state : AwaitingBlock} {block : bitcoin.Block} {after : NodeState C}
      (hdecoded : ¬ before.download.Refused kernelInst block)
      (hafter : after = { before with download := (before.download.deliver kernelInst block).2 }) :
      Outcome kernelInst before (.AwaitingBlock state) (.Block block)
        (state.peer_inventory.erase block.block_hash) [] after
  /-- The last block owed is received and a batch is taken from the queue. -/
  | deliver_last {state : AwaitingBlock} {block : bitcoin.Block} {download : DownloadState}
      {batch : List BlockHash} {after : NodeState C}
      (hdecoded : ¬ before.download.Refused kernelInst block)
      (hlast : (state.peer_inventory.erase block.block_hash).keys = [])
      (hbatch : (before.download.deliver kernelInst block).2.pop_batch DOWNLOAD_BATCH_SIZE =
        (batch, download))
      (hafter : after = { before with download }) :
      Outcome kernelInst before (.AwaitingBlock state) (.Block block)
        (HashSet.collect batch) batch after
  /-- The kernel cannot decode the block and the thread panics. What else the peer
      owed stays in flight. -/
  | refuse {state : AwaitingBlock} {block : bitcoin.Block} {after : NodeState C}
      (hrefused : before.download.Refused kernelInst block)
      (hafter : after = { before with download := (before.download.deliver kernelInst block).2 }) :
      Outcome kernelInst before (.AwaitingBlock state) (.Block block) ∅ [] after

/-- The inventory of a peer after a call. -/
def result_inventory (result : Option (PeerStateMachine × List NetworkMessage)) :
    HashSet BlockHash :=
  result.elim ∅ fun next => next.1.inventory

/-- The blocks that a call requests. -/
def result_requested (result : Option (PeerStateMachine × List NetworkMessage)) : List BlockHash :=
  result.elim [] fun next => next.2.flatMap NetworkMessage.requested

section

variable {C : Type} {kernelInst : ChainstateManager C}

@[simp]
theorem requested_create_getdata_message (hashes : List BlockHash) :
    (create_getdata_message hashes).requested = hashes := by
  simp [create_getdata_message, NetworkMessage.requested, List.filterMap_map]

@[simp]
theorem result_requested_getdata (state_machine : PeerStateMachine) (hashes : List BlockHash) :
    result_requested (some (state_machine, [create_getdata_message hashes])) = hashes := by
  simp [result_requested]

theorem request_headers_quiet (kernelInst : ChainstateManager C) (chainman : C) :
    result_inventory (request_headers kernelInst chainman) = ∅ ∧
      result_requested (request_headers kernelInst chainman) = [] := by
  simp only [request_headers]
  cases kernelInst.best_entry chainman with
  | none => exact ⟨rfl, rfl⟩
  | some best =>
    cases hlocators : build_block_locators best <;> simp [hlocators] <;> exact ⟨rfl, rfl⟩

theorem request_batch_spec (kernelInst : ChainstateManager C) (node_state : NodeState C)
    {batch : List BlockHash} {download : DownloadState}
    (hbatch : node_state.download.pop_batch DOWNLOAD_BATCH_SIZE = (batch, download)) :
    result_inventory (request_batch kernelInst node_state).1 = HashSet.collect batch ∧
      result_requested (request_batch kernelInst node_state).1 = batch ∧
      (request_batch kernelInst node_state).2 = { node_state with download } := by
  simp only [request_batch, hbatch]
  cases batch with
  | nil =>
    cases build_block_locators (kernelInst.active_tip node_state.chainman) <;> simp <;>
      exact ⟨rfl, rfl⟩
  | cons head tail => simp [result_inventory, PeerStateMachine.inventory]

@[simp]
theorem DownloadState.install_queue_in_flight (self : DownloadState) (hashes : List BlockHash) :
    (self.install_queue hashes).in_flight = self.in_flight := by
  simp only [install_queue]
  split_ifs <;> rfl

@[simp]
theorem DownloadState.install_queue_buffer (self : DownloadState) (hashes : List BlockHash) :
    (self.install_queue hashes).buffer = self.buffer := by
  simp only [install_queue]
  split_ifs <;> rfl

/-- The queue is built only where it is empty, and nothing else changes. -/
theorem populate_download_queue_cases (kernelInst : ChainstateManager C) (chainman : C)
    (download : DownloadState) :
    populate_download_queue kernelInst chainman download = download ∨
      download.queue = [] ∧ ∃ hashes, missing_hashes kernelInst chainman = some hashes ∧
        populate_download_queue kernelInst chainman download = download.install_queue hashes := by
  simp only [populate_download_queue]
  split
  · exact .inl rfl
  · rename_i hqueue
    split
    · exact .inl rfl
    · rename_i hashes hmissing
      split
      · exact .inl rfl
      · exact .inr ⟨by simpa using hqueue, hashes, hmissing, rfl⟩

/-- The walk stops at the first active ancestor. -/
theorem walk_to_fork_split {active : BlockHash → Bool} {ancestors hashes : List BlockHash}
    {fork_point : BlockHash}
    (hwalk : walk_to_fork active ancestors = some (hashes, fork_point)) :
    ∃ below, ancestors = hashes ++ fork_point :: below ∧ active fork_point = true ∧
      ∀ hash ∈ hashes, active hash = false := by
  induction ancestors generalizing hashes with
  | nil => cases hwalk
  | cons hash ancestors ih =>
    simp only [walk_to_fork] at hwalk
    split at hwalk
    · rename_i hactive
      cases hwalk
      exact ⟨ancestors, rfl, hactive, by simp⟩
    · rename_i hinactive
      obtain ⟨⟨rest, fork⟩, hrest, heq⟩ := Option.map_eq_some_iff.mp hwalk
      cases heq
      obtain ⟨below, rfl, hfork, hall⟩ := ih hrest
      exact ⟨below, rfl, hfork, List.forall_mem_cons.mpr ⟨by simpa using hinactive, hall⟩⟩

/-- A queue that is built lists each block once, and only blocks of the best
    header chain that are not active, not buffered and not in flight. -/
theorem populate_download_queue_queue (kernelInst : ChainstateManager C) (chainman : C)
    (download : DownloadState) :
    (populate_download_queue kernelInst chainman download).queue = download.queue ∨
      download.queue = [] ∧ (populate_download_queue kernelInst chainman download).queue.Nodup ∧
        ∀ hash ∈ (populate_download_queue kernelInst chainman download).queue,
          (∃ best, kernelInst.best_entry chainman = some best ∧ hash ∈ best.hashes) ∧
          hash ∉ download.buffered_hashes ∧ hash ∉ download.in_flight ∧
          kernelInst.active_contains chainman hash = false := by
  rcases populate_download_queue_cases kernelInst chainman download with
    hsame | ⟨hempty, hashes, hmissing, hinstall⟩
  · exact .inl (by rw [hsame])
  · simp only [missing_hashes, Option.bind_eq_bind, Option.bind_eq_some_iff, Option.pure_def,
      Option.some.injEq] at hmissing
    obtain ⟨best, hbest, ⟨walked, fork_point⟩, hwalk, rfl⟩ := hmissing
    obtain ⟨below, hsplit, _, hinactive⟩ := walk_to_fork_split hwalk
    have hsublist : walked.Sublist best.hashes := hsplit ▸ List.sublist_append_left _ _
    rw [hinstall]
    simp only [DownloadState.install_queue]
    split_ifs
    · exact .inl rfl
    · exact .inl rfl
    · refine .inr ⟨hempty, (List.nodup_reverse.mpr (best.nodup.sublist hsublist)).filter _,
        fun hash hhash => ?_⟩
      simp only [List.mem_filter, List.mem_reverse, Bool.and_eq_true, decide_eq_true_eq] at hhash
      exact ⟨⟨best, hbest, hsublist.subset hhash.1⟩, hhash.2.1, hhash.2.2, hinactive hash hhash.1⟩

@[simp]
theorem populate_download_queue_in_flight (kernelInst : ChainstateManager C) (chainman : C)
    (download : DownloadState) :
    (populate_download_queue kernelInst chainman download).in_flight = download.in_flight := by
  rcases populate_download_queue_cases kernelInst chainman download with
    hsame | ⟨_, hashes, _, hinstall⟩
  · rw [hsame]
  · rw [hinstall, DownloadState.install_queue_in_flight]

@[simp]
theorem populate_download_queue_buffer (kernelInst : ChainstateManager C) (chainman : C)
    (download : DownloadState) :
    (populate_download_queue kernelInst chainman download).buffer = download.buffer := by
  rcases populate_download_queue_cases kernelInst chainman download with
    hsame | ⟨_, hashes, _, hinstall⟩
  · rw [hsame]
  · rw [hinstall, DownloadState.install_queue_buffer]

/-- A delivery ends the claim on the hash, and a block that was in flight and is
    decoded goes into the buffer under its parent. -/
theorem DownloadState.deliver_eq (kernelInst : ChainstateManager C) (self : DownloadState)
    (block : bitcoin.Block) :
    self.deliver kernelInst block = (if self.Refused kernelInst block then none else some (),
      { self with
        in_flight := self.in_flight.erase block.block_hash
        buffer := if block.block_hash ∈ self.in_flight then
            (block.convert kernelInst).elim self.buffer
              (self.buffer.insert block.header.prev_blockhash)
          else self.buffer }) := by
  simp only [deliver, release, Refused, decide_eq_true_eq]
  by_cases hin_flight : block.block_hash ∈ self.in_flight
  · simp only [hin_flight, if_true, true_and]
    split
    · rename_i converted hconvert
      simp [hconvert, buffer_block]
    · rename_i hconvert
      simp [hconvert]
  · simp [hin_flight]

/-- A block in flight that cannot be decoded ends the thread of its sender. -/
theorem process_message_refused {node_state : NodeState C} {block : bitcoin.Block}
    (hrefused : node_state.download.Refused kernelInst block) (state : AwaitingBlock)
    (source : AddrV2) :
    process_message kernelInst (.AwaitingBlock state) (.Block block) source node_state =
      (none, { node_state with
        download := (node_state.download.deliver kernelInst block).2 }) := by
  simp only [process_message, DownloadState.deliver_eq, if_pos hrefused]

/-- Any other block is taken off the inventory of its sender, which goes on with a
    batch once it owes nothing. -/
theorem process_message_decoded {node_state : NodeState C} {block : bitcoin.Block}
    (hdecoded : ¬ node_state.download.Refused kernelInst block) (state : AwaitingBlock)
    (source : AddrV2) :
    process_message kernelInst (.AwaitingBlock state) (.Block block) source node_state =
      if (state.peer_inventory.erase block.block_hash).keys.isEmpty then
        request_batch kernelInst { node_state with
          download := (node_state.download.deliver kernelInst block).2 }
      else (some (.AwaitingBlock ⟨state.peer_inventory.erase block.block_hash⟩, []),
        { node_state with download := (node_state.download.deliver kernelInst block).2 }) := by
  simp only [process_message, DownloadState.deliver_eq, if_neg hdecoded]

theorem PeerStateMachine.mem_release_in_flight (self : PeerStateMachine) (order : Reorder BlockHash)
    (download : DownloadState) (hash : BlockHash) :
    hash ∈ (self.release_in_flight order download).in_flight ↔ hash ∉ self.inventory ∧
      hash ∈ download.in_flight := by
  cases self with
  | AwaitingHeaders => simp [release_in_flight, inventory]
  | AwaitingInv => simp [release_in_flight, inventory]
  | AwaitingBlock state =>
    exact download.mem_requeue_unreceived_in_flight order state.peer_inventory hash

@[simp]
theorem PeerStateMachine.release_in_flight_buffer (self : PeerStateMachine)
    (order : Reorder BlockHash) (download : DownloadState) :
    (self.release_in_flight order download).buffer = download.buffer := by
  cases self <;> simp [release_in_flight, DownloadState.requeue_unreceived_eq]

/-- What a peer owes goes back to the front of the queue. -/
theorem PeerStateMachine.release_in_flight_queue (self : PeerStateMachine)
    (order : Reorder BlockHash) (download : DownloadState) :
    (self.release_in_flight order download).queue.Perm (self.inventory.keys ++ download.queue) := by
  cases self with
  | AwaitingHeaders => exact List.Perm.refl _
  | AwaitingInv => exact List.Perm.refl _
  | AwaitingBlock owed =>
    simp only [release_in_flight, DownloadState.requeue_unreceived_eq]
    exact ((List.reverse_perm _).trans (order.perm _)).append_right _

theorem Outcome.of_quiet {before after : NodeState C} {state_machine : PeerStateMachine}
    {event : NetworkMessage} {result : Option (PeerStateMachine × List NetworkMessage)}
    (headers : List Header) (hinventory : result_inventory result = state_machine.inventory)
    (hrequested : result_requested result = [])
    (hchainman : after.chainman = (accept_headers kernelInst before.chainman headers).2)
    (hdownload : after.download = before.download)
    (hdelivered : delivered_block state_machine event = none) :
    Outcome kernelInst before state_machine event (result_inventory result)
      (result_requested result) after := by
  rw [hinventory, hrequested]
  exact .quiet headers hchainman hdownload hdelivered

/-- Every call has one of the outcomes. -/
theorem process_message_outcome (kernelInst : ChainstateManager C)
    (state_machine : PeerStateMachine) (event : NetworkMessage) (source : AddrV2)
    (node_state : NodeState C) :
    Outcome kernelInst node_state state_machine event
      (result_inventory (process_message kernelInst state_machine event source node_state).1)
      (result_requested (process_message kernelInst state_machine event source node_state).1)
      (process_message kernelInst state_machine event source node_state).2 := by
  cases event with
  | Headers headers =>
    cases state_machine with
    | AwaitingHeaders =>
      simp only [process_message]
      split
      · rename_i hlength
        obtain ⟨hinventory, hrequested, hafter⟩ := request_batch_spec kernelInst
          { node_state with
            chainman := (accept_headers kernelInst node_state.chainman headers).2
            download := populate_download_queue kernelInst
              (accept_headers kernelInst node_state.chainman headers).2
              node_state.download } rfl
        rw [hinventory, hrequested]
        exact .sync hlength rfl rfl hafter
      · obtain ⟨hinventory, hrequested⟩ := request_headers_quiet kernelInst
          (accept_headers kernelInst node_state.chainman headers).2
        exact .of_quiet headers hinventory hrequested rfl rfl rfl
    | AwaitingInv =>
      simp only [process_message]
      split
      · obtain ⟨hinventory, hrequested⟩ := request_headers_quiet kernelInst
          (accept_headers kernelInst node_state.chainman headers).2
        exact .of_quiet headers hinventory hrequested rfl rfl rfl
      · rcases hclaim : node_state.download.claim
          (accept_headers kernelInst node_state.chainman headers).1 with
          ⟨claimed, download⟩
        cases claimed with
        | nil => exact .announce rfl hclaim rfl
        | cons head tail =>
          simp only [List.isEmpty_cons, Bool.false_eq_true, if_false]
          rw [result_requested_getdata]
          exact .announce rfl hclaim rfl
    | AwaitingBlock state => exact .quiet [] rfl rfl rfl
  | Inv inventory =>
    cases state_machine with
    | AwaitingHeaders => exact .quiet [] rfl rfl rfl
    | AwaitingInv =>
      simp only [process_message]
      split
      · obtain ⟨hinventory, hrequested⟩ := request_headers_quiet kernelInst node_state.chainman
        exact .of_quiet [] hinventory hrequested rfl rfl rfl
      · exact .quiet [] rfl rfl rfl
    | AwaitingBlock state => exact .quiet [] rfl rfl rfl
  | Block block =>
    cases state_machine with
    | AwaitingHeaders => exact .quiet [] rfl rfl rfl
    | AwaitingInv => exact .quiet [] rfl rfl rfl
    | AwaitingBlock state =>
      by_cases hrefused : node_state.download.Refused kernelInst block
      · rw [process_message_refused hrefused]
        exact .refuse hrefused rfl
      · rw [process_message_decoded hrefused]
        split
        · rename_i hlast
          obtain ⟨hinventory, hrequested, hafter⟩ := request_batch_spec kernelInst
            { node_state with download := (node_state.download.deliver kernelInst block).2 } rfl
          rw [hinventory, hrequested]
          exact .deliver_last hrefused (List.isEmpty_iff.mp hlast) rfl hafter
        · exact .deliver hrefused rfl
  | _ => cases state_machine <;> exact .quiet [] rfl rfl rfl

end

end net
