import KernelNode.Net.Peer
import KernelNode.Transition

open bitcoin bitcoinkernel std.collections transition

namespace net

abbrev PeerId := Nat

/-- The shared state, the live peers and the block that the block thread is
    validating, with the history of the blocks: those accepted from a peer, as they
    arrived, and not handed out since, those handed to the block thread, and the
    hashes requested, in the order of the requests. -/
structure NetState (C : Type) where
  node : NodeState C
  peers : PeerId → Option PeerStateMachine
  validating : Option bitcoinkernel.Block
  accepted : List bitcoin.Block
  handed : List bitcoinkernel.Block
  requested : List BlockHash

inductive NetAction where
  | connect (peer : PeerId)
  | receive (peer : PeerId) (source : AddrV2) (event : NetworkMessage)
  | disconnect (peer : PeerId) (order : Reorder BlockHash)
  | take_connectable (order : Reorder BlockHash)
  | process_block

/-- The block a message delivers, where the delivery is accepted: its hash was in
    flight. -/
def accepted_block (state_machine : PeerStateMachine) (event : NetworkMessage)
    (download : DownloadState) : Option bitcoin.Block :=
  (delivered_block state_machine event).filter fun block => block.block_hash ∈ download.in_flight

variable {C : Type}

/-- The state after a peer's message has been processed. A peer whose thread
    panics is gone. -/
def NetState.receive (kernelInst : ChainstateManager C) (self : NetState C) (peer : PeerId)
    (state_machine : PeerStateMachine) (source : AddrV2) (event : NetworkMessage) : NetState C :=
  let (result, node) := process_message kernelInst state_machine event source self.node
  { self with
    node
    peers := Function.update self.peers peer (result.map Prod.fst)
    accepted := self.accepted ++ (accepted_block state_machine event self.node.download).toList
    requested := self.requested ++ result_requested result }

/-- The state with a new peer. -/
def NetState.join (self : NetState C) (peer : PeerId) (state_machine : PeerStateMachine) :
    NetState C :=
  { self with peers := Function.update self.peers peer (some state_machine) }

/-- The peer threads and the block thread, one whole call at a time. -/
inductive NetStep (kernelInst : ChainstateManager C) : NetState C → NetAction →
    NetState C → Prop where
  | connect {state : NetState C} (peer : PeerId) {state_machine : PeerStateMachine}
      {messages : List NetworkMessage} (hfree : state.peers peer = none)
      (hnew : request_headers kernelInst state.node.chainman = some (state_machine, messages)) :
      NetStep kernelInst state (.connect peer) (state.join peer state_machine)
  | receive {state : NetState C} (peer : PeerId) {state_machine : PeerStateMachine}
      (source : AddrV2) (event : NetworkMessage) (hpeer : state.peers peer = some state_machine) :
      NetStep kernelInst state (.receive peer source event)
        (state.receive kernelInst peer state_machine source event)
  | disconnect {state : NetState C} (peer : PeerId) {state_machine : PeerStateMachine}
      (order : Reorder BlockHash) (hpeer : state.peers peer = some state_machine) :
      NetStep kernelInst state (.disconnect peer order)
        { state with
          node := { state.node with
            download := state_machine.release_in_flight order state.node.download }
          peers := Function.update state.peers peer none }
  | take_connectable {state : NetState C} (order : Reorder BlockHash) {block : bitcoinkernel.Block}
      {download : DownloadState} (hidle : state.validating = none)
      (htake : state.node.take_connectable kernelInst order = (some block, download)) :
      NetStep kernelInst state (.take_connectable order)
        { state with
          node := { state.node with download }
          validating := some block
          accepted := state.accepted.filter fun other => other.convert kernelInst ≠ some block
          handed := state.handed ++ [block] }
  | take_nothing {state : NetState C} (order : Reorder BlockHash) {download : DownloadState}
      (hidle : state.validating = none)
      (htake : state.node.take_connectable kernelInst order = (none, download)) :
      NetStep kernelInst state (.take_connectable order) { state with
        node := { state.node with download } }
  | process_block {state : NetState C} {block : bitcoinkernel.Block}
      (hbusy : state.validating = some block) :
      NetStep kernelInst state .process_block
        { state with
          node := { state.node with chainman := kernelInst.process_block state.node.chainman block }
          validating := none }

/-- Before the first peer: nothing is downloaded or requested. -/
structure NetState.Fresh (state : NetState C) : Prop where
  download : state.node.download = .default
  peers : ∀ peer, state.peers peer = none
  validating : state.validating = none
  accepted : state.accepted = []
  handed : state.handed = []
  requested : state.requested = []

def net_system (kernelInst : ChainstateManager C) : System (NetState C) NetAction where
  init := NetState.Fresh
  step := NetStep kernelInst

/-- The blocks that a peer owes; none where the peer is gone. -/
def NetState.inventory (self : NetState C) (peer : PeerId) : HashSet BlockHash :=
  (self.peers peer).elim ∅ PeerStateMachine.inventory

/-- Every block message comes from a peer that owes the block. -/
def OwesBlocks (state : NetState C) : NetAction → Prop
  | .receive peer _ (.Block block) => block.block_hash ∈ state.inventory peer
  | _ => True

/-- A node with the regtest genesis block and no peers. -/
def regtest_fresh : NetState regtest.Chainstate where
  node := ⟨[], regtest.chainstate, .default⟩
  peers _ := none
  validating := none
  accepted := []
  handed := []
  requested := []

theorem regtest_fresh_init : regtest_fresh.Fresh := ⟨rfl, fun _ => rfl, rfl, rfl, rfl, rfl⟩

/-- The header of a regtest block on the block before it. -/
def regtest_header (height : UInt8) : Header :=
    ⟨regtest.block_hash height, regtest.block_hash (height - 1)⟩

/-- The block of a header, with a coinbase transaction. -/
def regtest_block (header : Header) : bitcoin.Block where
  header
  txdata := [⟨2, 0, [⟨.null, [], 0xffffffff, []⟩], [⟨⟨5000000000⟩, regtest.sender_script⟩]⟩]

/-- The block of a header with a transaction that has no inputs, which the kernel
    does not decode. -/
def regtest_refused (header : Header) : bitcoin.Block where
  header
  txdata := [⟨2, 0, [], [⟨⟨5000000000⟩, regtest.sender_script⟩]⟩]

def regtest_source : AddrV2 := .Ipv4 (List.Vector.replicate 4 1)

/-- A peer that was asked for one block. -/
def regtest_owes (height : UInt8) : PeerStateMachine :=
    .AwaitingBlock ⟨HashSet.collect [regtest.block_hash height]⟩

/-- The first peer sends a header and is asked for its block. -/
def regtest_requested : NetState regtest.Chainstate :=
  (regtest_fresh.join 0 .AwaitingHeaders).receive regtest.kernel 0 .AwaitingHeaders regtest_source
    (.Headers [regtest_header 1])

/-- A second peer sends another header as well and is asked for the next block. -/
def regtest_two_peers : NetState regtest.Chainstate :=
  (regtest_requested.join 1 .AwaitingHeaders).receive regtest.kernel 1 .AwaitingHeaders
    regtest_source
    (.Headers [regtest_header 1, regtest_header 2])

section

variable {allowed : NetState regtest.Chainstate → NetAction → Prop}

theorem regtest_requested_reachable (hconnect : allowed regtest_fresh (.connect 0))
    (hheaders : allowed (regtest_fresh.join 0 .AwaitingHeaders)
      (.receive 0 regtest_source (.Headers [regtest_header 1]))) :
    ((net_system regtest.kernel).restrict allowed).Reachable regtest_requested := by
  have hfresh : ((net_system regtest.kernel).restrict allowed).Reachable regtest_fresh :=
    .of_init regtest_fresh_init
  exact (hfresh.step_restrict (NetStep.connect 0 rfl rfl) hconnect).step_restrict
    (NetStep.receive 0 regtest_source (.Headers [regtest_header 1]) rfl) hheaders

theorem regtest_two_peers_reachable
    (hrequested : ((net_system regtest.kernel).restrict allowed).Reachable regtest_requested)
    (hconnect : allowed regtest_requested (.connect 1))
    (hheaders : allowed (regtest_requested.join 1 .AwaitingHeaders)
      (.receive 1 regtest_source (.Headers [regtest_header 1, regtest_header 2]))) :
    ((net_system regtest.kernel).restrict allowed).Reachable regtest_two_peers :=
  (hrequested.step_restrict (NetStep.connect 1 rfl rfl) hconnect).step_restrict
    (NetStep.receive 1 regtest_source (.Headers [regtest_header 1, regtest_header 2]) rfl) hheaders

end

theorem regtest_two_peers_owes :
    ((net_system regtest.kernel).restrict OwesBlocks).Reachable regtest_two_peers :=
  regtest_two_peers_reachable (regtest_requested_reachable trivial trivial) trivial trivial

end net
