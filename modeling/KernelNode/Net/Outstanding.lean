import KernelNode.Net.Peers

open bitcoin bitcoinkernel std.collections transition

namespace net

/-- A peer with the history of its requests: the content of the last `getdata`
    message sent to it, and the blocks received from it since. -/
structure PeerRun where
  state_machine : PeerStateMachine
  getdata : List Inventory
  received : List BlockHash

/-- The content of a `getdata` message. -/
def getdata_content : NetworkMessage → Option (List Inventory)
  | .GetData inventory => some inventory
  | _ => none

def received_block : NetworkMessage → List BlockHash
  | .Block block => [block.block_hash]
  | _ => []

/-- The history after a message from the peer and the answer to it. -/
def PeerRun.answer (self : PeerRun) (event : NetworkMessage) (state_machine : PeerStateMachine)
    (messages : List NetworkMessage) : PeerRun :=
  match (messages.filterMap getdata_content).getLast? with
  | some getdata => { state_machine, getdata, received := [] }
  | none => { self with state_machine, received := self.received ++ received_block event }

/-- The messages of one peer. The shared state is whatever the other threads have
    made of it when a message is processed. -/
def peer_system {C : Type} (kernelInst : ChainstateManager C) :
    System PeerRun (NetworkMessage × AddrV2) where
  init peer := peer = { state_machine := .AwaitingHeaders, getdata := [], received := [] }
  step peer label next := ∃ node_state after state_machine messages,
    process_message kernelInst peer.state_machine label.1 label.2 node_state =
      (some (state_machine, messages), after) ∧
    next = peer.answer label.1 state_machine messages

/-- There is no `getdata` message. -/
def AsksForNone (messages : List NetworkMessage) : Prop := messages.filterMap getdata_content = []

theorem AsksForNone.not_mem {messages : List NetworkMessage} (hmessages : AsksForNone messages)
    (inventory : List Inventory) : .GetData inventory ∉ messages := by
  intro hinventory
  have hasked : inventory ∈ messages.filterMap getdata_content :=
    List.mem_filterMap.mpr ⟨_, hinventory, rfl⟩
  rw [hmessages] at hasked
  cases hasked

def PeerStateMachine.is_awaiting_block : PeerStateMachine → Bool
  | .AwaitingBlock _ => true
  | _ => false

/-- The answers to a message. -/
inductive Answer : PeerStateMachine → NetworkMessage → PeerStateMachine → List NetworkMessage →
    Prop where
  /-- The state does not matter, or the message does not matter in this state. -/
  | keep {state_machine : PeerStateMachine} {event : NetworkMessage}
      {messages : List NetworkMessage} (hblock : delivered_block state_machine event = none)
      (hmessages : AsksForNone messages) : Answer state_machine event state_machine messages
  /-- The peer owes nothing before and after. -/
  | wait {state_machine next : PeerStateMachine} {event : NetworkMessage}
      {messages : List NetworkMessage} (hidle : ¬state_machine.is_awaiting_block)
      (hnext : ¬next.is_awaiting_block) (hmessages : AsksForNone messages) :
      Answer state_machine event next messages
  /-- A peer that owes nothing is asked for blocks. -/
  | request {state_machine : PeerStateMachine} {event : NetworkMessage} {hashes : List BlockHash}
      (hidle : ¬state_machine.is_awaiting_block) (hhashes : hashes ≠ []) (hnodup : hashes.Nodup) :
      Answer state_machine event (.AwaitingBlock ⟨HashSet.collect hashes⟩)
        [create_getdata_message hashes]
  /-- A block arrives and more are owed. -/
  | deliver {state : AwaitingBlock} {block : bitcoin.Block}
      (hmore : (state.peer_inventory.erase block.block_hash).keys ≠ []) :
      Answer (.AwaitingBlock state) (.Block block)
        (.AwaitingBlock ⟨state.peer_inventory.erase block.block_hash⟩) []
  /-- The last block arrives and the peer is asked for more. -/
  | renew {state : AwaitingBlock} {block : bitcoin.Block} {hashes : List BlockHash}
      (hlast : (state.peer_inventory.erase block.block_hash).keys = []) (hhashes : hashes ≠ [])
      (hnodup : hashes.Nodup) :
      Answer (.AwaitingBlock state) (.Block block) (.AwaitingBlock ⟨HashSet.collect hashes⟩)
        [create_getdata_message hashes]
  /-- The last block arrives and there is nothing more to ask for. -/
  | finish {state : AwaitingBlock} {block : bitcoin.Block} {next : PeerStateMachine}
      {messages : List NetworkMessage}
      (hlast : (state.peer_inventory.erase block.block_hash).keys = [])
      (hnext : ¬next.is_awaiting_block) (hmessages : AsksForNone messages) :
      Answer (.AwaitingBlock state) (.Block block) next messages

section

variable {C : Type} {kernelInst : ChainstateManager C}

theorem request_headers_answer {chainman : C} {next : PeerStateMachine}
    {messages : List NetworkMessage}
    (hrequest : request_headers kernelInst chainman = some (next, messages)) :
    ¬next.is_awaiting_block ∧ AsksForNone messages := by
  simp only [request_headers, Option.bind_eq_bind, Option.bind_eq_some_iff, Option.pure_def,
    Option.some.injEq, Prod.mk.injEq] at hrequest
  obtain ⟨best, _, locators, _, rfl, rfl⟩ := hrequest
  exact ⟨by decide, rfl⟩

theorem request_batch_answer {node_state after : NodeState C} {next : PeerStateMachine}
    {messages : List NetworkMessage}
    (hrequest : request_batch kernelInst node_state = (some (next, messages), after)) :
    (∃ hashes, hashes ≠ [] ∧ hashes.Nodup ∧ next = .AwaitingBlock ⟨HashSet.collect hashes⟩ ∧
      messages = [create_getdata_message hashes]) ∨
    ¬next.is_awaiting_block ∧ AsksForNone messages := by
  have hnodup := (node_state.download.pop_batch_claims DOWNLOAD_BATCH_SIZE).nodup
  simp only [request_batch] at hrequest
  split at hrequest
  · rename_i hbatch
    obtain ⟨⟨rfl, rfl⟩, -⟩ := Prod.mk.inj hrequest
    exact .inl ⟨_, by simpa using hbatch, hnodup, rfl, rfl⟩
  · obtain ⟨locators, _, hnext⟩ := Option.map_eq_some_iff.mp (Prod.mk.inj hrequest).1
    obtain ⟨rfl, rfl⟩ := Prod.mk.inj hnext
    exact .inr ⟨by decide, rfl⟩

/-- A call that leaves the state of the peer as it is. -/
theorem Answer.of_kept {state_machine next : PeerStateMachine} {event : NetworkMessage}
    {node_state after : NodeState C} {kept messages : List NetworkMessage}
    (hblock : delivered_block state_machine event = none)
    (hprocess : (some (state_machine, kept), node_state) = (some (next, messages), after))
    (hkept : AsksForNone kept) : Answer state_machine event next messages := by
  obtain ⟨⟨rfl, rfl⟩, -⟩ := Prod.mk.inj hprocess
  exact .keep hblock hkept

theorem Answer.of_request_headers {state_machine next : PeerStateMachine} {event : NetworkMessage}
    {chainman : C} {node_state after : NodeState C} {messages : List NetworkMessage}
    (hidle : ¬state_machine.is_awaiting_block)
    (hprocess : (request_headers kernelInst chainman, node_state) =
      (some (next, messages), after)) : Answer state_machine event next messages := by
  obtain ⟨hnext, hmessages⟩ := request_headers_answer (Prod.mk.inj hprocess).1
  exact .wait hidle hnext hmessages

/-- Every call that returns gives one of the answers. -/
theorem process_message_answer {state_machine next : PeerStateMachine} {event : NetworkMessage}
    {source : AddrV2} {node_state after : NodeState C} {messages : List NetworkMessage}
    (hprocess : process_message kernelInst state_machine event source node_state =
      (some (next, messages), after)) : Answer state_machine event next messages := by
  -- a batch is taken by a peer that owes nothing, or by one that has just sent its last block
  cases event with
  | Headers headers =>
    cases state_machine with
    | AwaitingHeaders =>
      simp only [process_message] at hprocess
      split at hprocess
      · obtain ⟨hashes, hhashes, hnodup, rfl, rfl⟩ | ⟨hnext, hmessages⟩ :=
          request_batch_answer hprocess
        · exact .request (by decide) hhashes hnodup
        · exact .wait (by decide) hnext hmessages
      · exact .of_request_headers (by decide) hprocess
    | AwaitingInv =>
      simp only [process_message] at hprocess
      split at hprocess
      · exact .of_request_headers (by decide) hprocess
      · split at hprocess
        · exact .of_kept rfl hprocess rfl
        · rename_i hclaimed
          obtain ⟨⟨rfl, rfl⟩, -⟩ := Prod.mk.inj hprocess
          exact .request (by decide) (by simpa using hclaimed)
            (node_state.download.claim_claims _).nodup
    | AwaitingBlock state => exact .of_kept rfl hprocess rfl
  | Inv inventory =>
    cases state_machine with
    | AwaitingInv =>
      simp only [process_message] at hprocess
      split at hprocess
      · exact .of_request_headers (by decide) hprocess
      · exact .of_kept rfl hprocess rfl
    | _ => exact .of_kept rfl hprocess rfl
  | Block block =>
    cases state_machine with
    | AwaitingBlock state =>
      simp only [process_message] at hprocess
      split at hprocess
      · cases hprocess
      · split at hprocess
        · rename_i hlast
          rw [List.isEmpty_iff] at hlast
          obtain ⟨hashes, hhashes, hnodup, rfl, rfl⟩ | ⟨hnext, hmessages⟩ :=
            request_batch_answer hprocess
          · exact .renew hlast hhashes hnodup
          · exact .finish hlast hnext hmessages
        · rename_i hmore
          obtain ⟨⟨rfl, rfl⟩, -⟩ := Prod.mk.inj hprocess
          exact .deliver (by simpa using hmore)
    | _ => exact .of_kept rfl hprocess rfl
  | _ => cases state_machine <;> exact .of_kept rfl hprocess rfl

/-- What is owed is what was asked for and has not come. -/
def PeerRun.Owes (self : PeerRun) : Prop :=
  ∀ state, self.state_machine = .AwaitingBlock state → state.peer_inventory.keys ≠ [] ∧
    ∀ hash, hash ∈ state.peer_inventory ↔
      hash ∈ (NetworkMessage.GetData self.getdata).requested ∧ hash ∉ self.received

theorem PeerRun.answer_of_none {messages : List NetworkMessage} (hmessages : AsksForNone messages)
    (peer : PeerRun) (event : NetworkMessage) (next : PeerStateMachine) :
    peer.answer event next messages = { peer with
      state_machine := next
      received := peer.received ++ received_block event } := by
  rw [answer, hmessages]
  rfl

theorem received_block_of_awaiting {state : AwaitingBlock} {event : NetworkMessage}
    (hblock : delivered_block (.AwaitingBlock state) event = none) : received_block event = [] := by
  cases event <;> first | rfl | cases hblock

theorem PeerRun.Owes.of_idle {peer : PeerRun} (hidle : ¬peer.state_machine.is_awaiting_block) :
    peer.Owes := by
  intro state hstate
  rw [hstate] at hidle
  exact absurd rfl hidle

/-- A peer that was just asked owes all that it was asked for. -/
theorem PeerRun.Owes.of_getdata {hashes : List BlockHash} (hhashes : hashes ≠ []) :
    PeerRun.Owes ⟨.AwaitingBlock ⟨HashSet.collect hashes⟩, hashes.map .WitnessBlock, []⟩ := by
  rintro _ ⟨⟩
  have hmem (hash : BlockHash) : hash ∈ HashSet.collect hashes ↔
      hash ∈ (NetworkMessage.GetData (hashes.map .WitnessBlock)).requested := by
    rw [HashSet.mem_collect]
    exact iff_of_eq (congrArg _ (requested_create_getdata_message hashes).symm)
  refine ⟨fun hempty => ?_, fun hash => by simp [hmem]⟩
  obtain ⟨hash, hhash⟩ := List.exists_mem_of_ne_nil hashes hhashes
  exact HashSet.keys_eq_nil_iff.mp hempty hash ((HashSet.mem_collect hashes hash).mpr hhash)

theorem PeerRun.Owes.answer {peer : PeerRun} (howes : peer.Owes) {event : NetworkMessage}
    {next : PeerStateMachine} {messages : List NetworkMessage}
    (hanswer : Answer peer.state_machine event next messages) :
    (peer.answer event next messages).Owes := by
  obtain ⟨state_machine, getdata, received⟩ := peer
  cases hanswer with
  | keep hblock hmessages =>
    rw [PeerRun.answer_of_none hmessages]
    rintro state hstate
    obtain rfl : state_machine = .AwaitingBlock state := hstate
    rw [received_block_of_awaiting hblock, List.append_nil]
    exact howes state rfl
  | wait hidle hnext hmessages =>
    rw [PeerRun.answer_of_none hmessages]
    exact .of_idle hnext
  | request hidle hhashes hnodup => exact .of_getdata hhashes
  | @deliver state block hmore =>
    rw [PeerRun.answer_of_none (show AsksForNone [] from rfl)]
    rintro _ ⟨⟩
    refine ⟨hmore, fun hash => ?_⟩
    rw [AList.mem_erase, (howes state rfl).2]
    simp only [received_block, List.mem_append, List.mem_singleton]
    tauto
  | renew hlast hhashes hnodup => exact .of_getdata hhashes
  | finish hlast hnext hmessages =>
    rw [PeerRun.answer_of_none hmessages]
    exact .of_idle hnext

theorem reachable_owes {peer : PeerRun} (hreach : (peer_system kernelInst).Reachable peer) :
    peer.Owes := by
  refine hreach.invariant ?_ ?_
  · rintro _ rfl
    exact .of_idle (by decide)
  · rintro peer label _ howes ⟨node_state, after, state_machine, messages, hprocess, rfl⟩
    exact howes.answer (process_message_answer hprocess)

/-- A `getdata` message comes with the wait for what it asks for. -/
theorem Answer.getdata {state_machine next : PeerStateMachine} {event : NetworkMessage}
    {messages : List NetworkMessage} (hanswer : Answer state_machine event next messages)
    {inventory : List Inventory} (hinventory : .GetData inventory ∈ messages) :
    ∃ hashes, inventory = hashes.map .WitnessBlock ∧ hashes.Nodup ∧
      next = .AwaitingBlock ⟨HashSet.collect hashes⟩ := by
  cases hanswer with
  | request hidle hhashes hnodup | renew hlast hhashes hnodup =>
    obtain rfl : inventory = _ := by simpa [create_getdata_message] using hinventory
    exact ⟨_, rfl, hnodup, rfl⟩
  | deliver hmore => cases hinventory
  | keep hblock hmessages | wait hidle hnext hmessages | finish hlast hnext hmessages =>
    exact absurd hinventory (hmessages.not_mem inventory)

/-- The wait goes on, or it was for this block alone. -/
theorem Answer.leave {state : AwaitingBlock} {next : PeerStateMachine} {event : NetworkMessage}
    {messages : List NetworkMessage} (hanswer : Answer (.AwaitingBlock state) event next messages)
    (howed : state.peer_inventory.keys ≠ []) :
    (∃ remaining, next = .AwaitingBlock remaining ∧ AsksForNone messages) ∨
    ∃ block, event = .Block block ∧
      ∀ hash, hash ∈ state.peer_inventory ↔ hash = block.block_hash := by
  have hlast {block : bitcoin.Block}
      (hempty : (state.peer_inventory.erase block.block_hash).keys = []) (hash : BlockHash) :
      hash ∈ state.peer_inventory ↔ hash = block.block_hash := by
    have honly : ∀ hash ∈ state.peer_inventory, hash = block.block_hash := fun hash hhash =>
      by_contra fun hother =>
        HashSet.keys_eq_nil_iff.mp hempty hash (AList.mem_erase.mpr ⟨hother, hhash⟩)
    obtain ⟨owed, howed⟩ := List.exists_mem_of_ne_nil _ howed
    refine ⟨honly hash, ?_⟩
    rintro rfl
    rwa [← honly owed howed]
  cases hanswer with
  | keep hblock hmessages => exact .inl ⟨state, rfl, hmessages⟩
  | wait hidle hnext hmessages | request hidle hhashes hnodup => exact absurd rfl hidle
  | deliver hmore => exact .inl ⟨_, rfl, rfl⟩
  | renew hempty hhashes hnodup | finish hempty hnext hmessages =>
    exact .inr ⟨_, rfl, hlast hempty⟩

end

/-- A peer that has announced two blocks is asked for them. -/
def regtest_asked_peer : PeerRun where
  state_machine := .AwaitingBlock ⟨HashSet.collect [regtest.block_hash 1, regtest.block_hash 2]⟩
  getdata := [.WitnessBlock (regtest.block_hash 1), .WitnessBlock (regtest.block_hash 2)]
  received := []

/-- It has sent the first one. -/
def regtest_peer : PeerRun where
  state_machine := .AwaitingBlock ⟨(HashSet.collect [regtest.block_hash 1,
    regtest.block_hash 2]).erase (regtest.block_hash 1)⟩
  getdata := [.WitnessBlock (regtest.block_hash 1), .WitnessBlock (regtest.block_hash 2)]
  received := [regtest.block_hash 1]

theorem regtest_peer_reachable : (peer_system regtest.kernel).Reachable regtest_peer := by
  have hfresh : (peer_system regtest.kernel).Reachable ⟨.AwaitingHeaders, [], []⟩ := .of_init rfl
  have hheaders : (peer_system regtest.kernel).step ⟨.AwaitingHeaders, [], []⟩
      (.Headers [regtest_header 1, regtest_header 2], regtest_source) regtest_asked_peer :=
    ⟨regtest_fresh.node, _, _, _, rfl, rfl⟩
  have hblock : (peer_system regtest.kernel).step regtest_asked_peer
      (.Block (regtest_block (regtest_header 1)), regtest_source) regtest_peer :=
    ⟨regtest_fresh.node, _, _, _, rfl, rfl⟩
  exact (hfresh.step hheaders).step hblock

/-- A peer owes what it was last asked for and has not sent. It is asked for each
    block once and then waited for, until the last of them has come. -/
theorem outstanding_requests {C : Type} (kernelInst : ChainstateManager C) {peer : PeerRun}
    (hreach : (peer_system kernelInst).Reachable peer) :
    (∀ state, peer.state_machine = .AwaitingBlock state → state.peer_inventory.keys ≠ [] ∧
      ∀ hash, hash ∈ state.peer_inventory ↔
        hash ∈ (NetworkMessage.GetData peer.getdata).requested ∧ hash ∉ peer.received) ∧
    ∀ event source node_state after next messages,
      process_message kernelInst peer.state_machine event source node_state =
        (some (next, messages), after) →
      (∀ inventory, .GetData inventory ∈ messages →
        ∃ hashes, inventory = hashes.map .WitnessBlock ∧ hashes.Nodup ∧
          next = .AwaitingBlock ⟨HashSet.collect hashes⟩) ∧
      ∀ state, peer.state_machine = .AwaitingBlock state →
        (∃ remaining, next = .AwaitingBlock remaining ∧
          ∀ inventory, .GetData inventory ∉ messages) ∨
        ∃ block, event = .Block block ∧
          ∀ hash, hash ∈ state.peer_inventory ↔ hash = block.block_hash := by
  have howes := reachable_owes hreach
  refine ⟨howes, fun event source node_state after next messages hprocess => ?_⟩
  have hanswer := process_message_answer hprocess
  refine ⟨fun inventory hinventory => hanswer.getdata hinventory, fun state hstate => ?_⟩
  rw [hstate] at hanswer
  obtain ⟨remaining, hnext, hmessages⟩ | hlast := hanswer.leave (howes state hstate).1
  · exact .inl ⟨remaining, hnext, hmessages.not_mem⟩
  · exact .inr hlast

theorem outstanding_requests_second_block :
    regtest_peer.state_machine.inventory.keys ≠ [] ∧
      ∀ hash, hash ∈ regtest_peer.state_machine.inventory ↔
        hash ∈ (NetworkMessage.GetData regtest_peer.getdata).requested ∧
          hash ∉ regtest_peer.received :=
  (outstanding_requests regtest.kernel regtest_peer_reachable).1 _ rfl

end net
