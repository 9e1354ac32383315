import KernelNode.Net.Peers

open bitcoin bitcoinkernel std.collections transition

namespace net

/-- Where a peer thread is between two locked sections of the download state:
    waiting for a message, or about to enter the next section of its call. -/
inductive Phase where
  | idle (state_machine : PeerStateMachine)
  /-- `populate_download_queue`: the first check of the queue. -/
  | populating
  /-- The queue was empty; the block tree is walked without a lock. -/
  | walking
  | installing (hashes : List BlockHash)
  | popping
  | claiming (announced : List BlockHash)
  | releasing (state : AwaitingBlock) (block : bitcoin.Block)
  /-- The hash has been released and the block is not yet in the buffer. -/
  | buffering (state : AwaitingBlock) (block : bitcoin.Block)

section

variable {C : Type} (kernelInst : ChainstateManager C)

/-- A peer goes on with the next batch once it owes nothing. -/
def after_delivery (state : AwaitingBlock) : Phase :=
  if state.peer_inventory.keys.isEmpty then .popping else .idle (.AwaitingBlock state)

/-- The part of `process_message` before its first locked section. -/
def begin_message (state_machine : PeerStateMachine) (event : NetworkMessage) (source : AddrV2)
    (node_state : NodeState C) : Option Phase × NodeState C :=
  match state_machine, event with
  | _, .AddrV2 payload =>
    (some (.idle state_machine), { node_state with
      addr_tx := node_state.addr_tx ++ [(source, payload)] })
  | .AwaitingHeaders, .Headers headers =>
    let (_, chainman) := accept_headers kernelInst node_state.chainman headers
    if headers.length ≠ 2000 then (some .populating, { node_state with chainman })
    else ((request_headers kernelInst chainman).map fun next => .idle next.1,
      { node_state with chainman })
  | .AwaitingInv, .Headers headers =>
    let (announced, chainman) := accept_headers kernelInst node_state.chainman headers
    if announced.isEmpty then
      ((request_headers kernelInst chainman).map fun next => .idle next.1,
        { node_state with chainman })
    else (some (.claiming announced), { node_state with chainman })
  | .AwaitingInv, .Inv inventory =>
    let block_hashes := inventory.filterMap Inventory.block_hash
    if !block_hashes.isEmpty then
      ((request_headers kernelInst node_state.chainman).map fun next => .idle next.1, node_state)
    else (some (.idle .AwaitingInv), node_state)
  | .AwaitingBlock block_state, .Block block =>
    (some (.releasing { block_state with
      peer_inventory := block_state.peer_inventory.erase block.block_hash } block),
      node_state)
  | _, _ => (some (.idle state_machine), node_state)

/-- The next section of a call, as one atomic step. A panicked thread and a
    waiting one do nothing. -/
def advance : Option Phase × NodeState C → Option Phase × NodeState C
  | (none, node_state) => (none, node_state)
  | (some phase, node_state) =>
    match phase with
    | .idle state_machine => (some (.idle state_machine), node_state)
    | .populating =>
      (some (if !node_state.download.queue.isEmpty then .popping else .walking), node_state)
    | .walking =>
      match missing_hashes kernelInst node_state.chainman with
      | none => (some .popping, node_state)
      | some hashes => (some (if hashes.isEmpty then .popping else .installing hashes), node_state)
    | .installing hashes =>
      (some .popping, { node_state with download := node_state.download.install_queue hashes })
    | .popping =>
      let (result, node_state) := request_batch kernelInst node_state
      (result.map fun next => .idle next.1, node_state)
    | .claiming announced =>
      let (claimed, download) := node_state.download.claim announced
      (some (.idle (if claimed.isEmpty then .AwaitingInv
        else .AwaitingBlock ⟨HashSet.collect claimed⟩)),
        { node_state with download })
    | .releasing state block =>
      let (released, download) := node_state.download.release block.block_hash
      (some (if released then .buffering state block else after_delivery state),
        { node_state with download })
    | .buffering state block =>
      match block.convert kernelInst with
      | none => (none, node_state)
      | some converted =>
        (some (after_delivery state),
          { node_state with
            download := node_state.download.buffer_block block.header.prev_blockhash converted })

/-- Where a thread is once its call has returned: it waits for a message, or it
    has panicked. -/
def returned (result : Option (PeerStateMachine × List NetworkMessage) × NodeState C) :
    Option Phase × NodeState C :=
  (result.1.map fun next => .idle next.1, result.2)

variable {kernelInst}

theorem advance_iterate_returned (count : Nat)
    (result : Option (PeerStateMachine × List NetworkMessage) × NodeState C) :
    (advance kernelInst)^[count] (returned result) = returned result := by
  refine Function.iterate_fixed ?_ count
  obtain ⟨_ | next, node_state⟩ := result <;> rfl

theorem advance_iterate_popping (count : Nat) (node_state : NodeState C) :
    (advance kernelInst)^[count + 1] (some .popping, node_state) =
      returned (request_batch kernelInst node_state) := by
  rw [Function.iterate_succ_apply]
  exact advance_iterate_returned count _

/-- The three sections of a completed header sync: the check of the queue, its
    construction and the first batch. -/
theorem advance_iterate_populating (node_state : NodeState C) :
    (advance kernelInst)^[4] (some .populating, node_state) =
      returned (request_batch kernelInst { node_state with
        download := populate_download_queue kernelInst node_state.chainman
          node_state.download }) := by
  rw [Function.iterate_succ_apply]
  simp only [advance, populate_download_queue]
  split
  · exact advance_iterate_popping 2 node_state
  · rw [Function.iterate_succ_apply]
    cases hmissing : missing_hashes kernelInst node_state.chainman with
    | none =>
      simp only [advance, hmissing]
      exact advance_iterate_popping 1 node_state
    | some hashes =>
      simp only [advance, hmissing]
      split
      · exact advance_iterate_popping 1 node_state
      · rw [Function.iterate_succ_apply]
        exact advance_iterate_popping 0 _

/-- After the last section of a delivery the thread waits or takes a batch. -/
theorem advance_iterate_after_delivery (count : Nat) (state : AwaitingBlock)
    (node_state : NodeState C) :
    (advance kernelInst)^[count + 1] (some (after_delivery state), node_state) =
      returned (if state.peer_inventory.keys.isEmpty then request_batch kernelInst node_state
        else (some (.AwaitingBlock state, []), node_state)) := by
  simp only [after_delivery]
  split
  · exact advance_iterate_popping count node_state
  · exact advance_iterate_returned (count + 1) (some (.AwaitingBlock state, []), node_state)

/-- The two sections of a delivery. Between them the block is decoded. -/
theorem advance_iterate_releasing (kernelInst : ChainstateManager C) (state : AwaitingBlock)
    (block : bitcoin.Block) (node_state : NodeState C) :
    (advance kernelInst)^[4] (some (.releasing state block), node_state) =
      returned (match node_state.download.deliver kernelInst block with
        | (none, download) => (none, { node_state with download })
        | (some (), download) =>
          if state.peer_inventory.keys.isEmpty then
            request_batch kernelInst { node_state with download }
          else (some (.AwaitingBlock state, []), { node_state with download })) := by
  rw [Function.iterate_succ_apply]
  by_cases hflight : block.block_hash ∈ node_state.download.in_flight
  · cases hconvert : block.convert kernelInst with
    | none =>
      rw [Function.iterate_succ_apply]
      simp only [advance, DownloadState.deliver, DownloadState.release, hflight, hconvert,
        decide_true, if_true]
      exact advance_iterate_returned 2 (none, _)
    | some converted =>
      rw [Function.iterate_succ_apply]
      simp only [advance, DownloadState.deliver, DownloadState.release, hflight, hconvert,
        decide_true, if_true]
      exact advance_iterate_after_delivery 1 state _
  · simp only [advance, DownloadState.deliver, DownloadState.release, hflight, decide_false,
      Bool.false_eq_true, if_false]
    exact advance_iterate_after_delivery 2 state _

/-- The sections of a call without interruption are the call. -/
theorem advance_iterate_begin_message (state_machine : PeerStateMachine) (event : NetworkMessage)
    (source : AddrV2) (node_state : NodeState C) :
    (advance kernelInst)^[4] (begin_message kernelInst state_machine event source node_state) =
      returned (process_message kernelInst state_machine event source node_state) := by
  cases event with
  | Headers headers =>
    cases state_machine with
    | AwaitingHeaders =>
      simp only [begin_message, process_message]
      split
      · exact advance_iterate_populating _
      · exact advance_iterate_returned 4 (_, _)
    | AwaitingInv =>
      simp only [begin_message, process_message]
      split
      · exact advance_iterate_returned 4 (_, _)
      · rw [Function.iterate_succ_apply]
        simp only [advance]
        split
        · exact advance_iterate_returned 3 (some (.AwaitingInv, []), _)
        · exact advance_iterate_returned 3 (some (.AwaitingBlock _, [create_getdata_message _]), _)
    | AwaitingBlock state => rfl
  | Inv inventory =>
    cases state_machine with
    | AwaitingHeaders => rfl
    | AwaitingInv =>
      simp only [begin_message, process_message]
      split
      · exact advance_iterate_returned 4 (_, _)
      · rfl
    | AwaitingBlock state => rfl
  | Block block =>
    cases state_machine with
    | AwaitingHeaders => rfl
    | AwaitingInv => rfl
    | AwaitingBlock state =>
      exact advance_iterate_releasing kernelInst
        { state with peer_inventory := state.peer_inventory.erase block.block_hash }
        block node_state
  | _ => cases state_machine <;> rfl

end

end net
