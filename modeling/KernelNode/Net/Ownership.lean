import KernelNode.Lease
import KernelNode.Net.Peers

open bitcoin bitcoinkernel std.collections transition

namespace net

variable {C : Type} {kernelInst : ChainstateManager C}

/-- Claims as a lease: what is in flight is taken, and each peer holds what it
    owes. -/
def NetState.ledger (self : NetState C) : lease.Ledger PeerId BlockHash where
  taken := {hash | hash ∈ self.node.download.in_flight}
  held peer := {hash | hash ∈ self.inventory peer}

/-- Where the kernel cannot decode a block, each other hash that its sender owes and
    that is in flight is owed by another peer as well. -/
def OrphansNone (kernelInst : ChainstateManager C) (state : NetState C) : NetAction → Prop
  | .receive peer _ (.Block block) => state.node.download.Refused kernelInst block →
      ∀ hash ∈ state.inventory peer, hash ≠ block.block_hash →
        hash ∈ state.node.download.in_flight →
        ∃ other, other ≠ peer ∧ hash ∈ state.inventory other
  | _ => True

/-- The peer first gives back at most the block it sends and then acquires hashes
    that nobody has claimed, or its thread panics and only the hash of the block it
    sends is given back. -/
theorem Outcome.lease {before after : NodeState C} {state_machine : PeerStateMachine}
    {event : NetworkMessage} {inventory : HashSet BlockHash} {requested : List BlockHash}
    (houtcome : Outcome kernelInst before state_machine event inventory requested after) :
    (∃ returned acquired : Set BlockHash,
      (∀ hash, hash ∈ after.download.in_flight ↔
        hash ∈ before.download.in_flight ∧ hash ∉ returned ∨ hash ∈ acquired) ∧
      (∀ hash, hash ∈ inventory ↔ hash ∈ state_machine.inventory ∧ hash ∉ returned ∨
        hash ∈ acquired) ∧
      (∀ hash ∈ acquired, hash ∈ before.download.in_flight → hash ∈ returned) ∧
      (∀ hash ∈ returned, ∃ block, event = .Block block ∧ block.block_hash = hash)) ∨
    ∃ block, event = .Block block ∧ before.download.Refused kernelInst block ∧ inventory = ∅ ∧
      ∀ hash, hash ∈ after.download.in_flight ↔
        hash ∈ before.download.in_flight ∧ hash ≠ block.block_hash := by
  cases houtcome with
  | quiet headers hchainman hdownload hdelivered =>
    exact .inl ⟨∅, ∅, by simp [hdownload], by simp, by simp, by simp⟩
  | @sync headers download chainman batch _ _ _ hbatch hafter =>
    have hclaims := (populate_download_queue kernelInst chainman before.download).pop_batch_claims
      DOWNLOAD_BATCH_SIZE
    rw [hbatch, populate_download_queue_in_flight] at hclaims
    subst hafter
    refine .inl ⟨∅, {hash | hash ∈ requested}, ?_, ?_, ?_, by simp⟩
    · simpa using hclaims.mem_iff
    · simp [PeerStateMachine.inventory]
    · exact fun hash hhash hflight => absurd hflight (hclaims.free hash hhash)
  | @announce headers download chainman announced claimed _ _ hclaim hafter =>
    have hclaims := before.download.claim_claims announced
    rw [hclaim] at hclaims
    subst hafter
    refine .inl ⟨∅, {hash | hash ∈ requested}, ?_, ?_, ?_, by simp⟩
    · simpa using hclaims.mem_iff
    · simp [PeerStateMachine.inventory]
    · exact fun hash hhash hflight => absurd hflight (hclaims.free hash hhash)
  | @deliver state block _ _ hafter =>
    subst hafter
    refine .inl ⟨{block.block_hash}, ∅, ?_, ?_, by simp, by simp⟩
    · simp [DownloadState.deliver_eq, AList.mem_erase, and_comm]
    · simp [PeerStateMachine.inventory, AList.mem_erase, and_comm]
  | @deliver_last state block download batch _ _ hlast hbatch hafter =>
    have hclaims := (before.download.deliver kernelInst block).2.pop_batch_claims
      DOWNLOAD_BATCH_SIZE
    rw [hbatch, DownloadState.deliver_eq] at hclaims
    subst hafter
    refine .inl ⟨{block.block_hash}, {hash | hash ∈ requested}, ?_, ?_, ?_, by simp⟩
    · intro hash
      rw [hclaims.mem_iff]
      simp [AList.mem_erase, and_comm]
    · intro hash
      have hnone : ¬ (hash ∈ state.peer_inventory ∧ hash ≠ block.block_hash) := by
        rintro ⟨howed, hne⟩
        have hmem : hash ∈ (state.peer_inventory.erase block.block_hash).keys :=
          AList.mem_keys.mp (AList.mem_erase.mpr ⟨hne, howed⟩)
        rw [hlast] at hmem
        cases hmem
      simp only [HashSet.mem_collect, PeerStateMachine.inventory, Set.mem_singleton_iff,
        Set.mem_ofPred_eq]
      exact ⟨.inr, Or.rec (fun howed => absurd howed hnone) fun hbatch => hbatch⟩
    · intro hash hhash hflight
      by_contra hne
      exact hclaims.free hash hhash (AList.mem_erase.mpr ⟨hne, hflight⟩)
  | @refuse state block _ hrefused hafter =>
    subst hafter
    refine .inr ⟨block, rfl, hrefused, rfl, fun hash => ?_⟩
    simp [DownloadState.deliver_eq, AList.mem_erase, and_comm]

theorem NetState.inventory_receive (state : NetState C) (peer : PeerId)
    (state_machine : PeerStateMachine) (source : AddrV2) (event : NetworkMessage) (other : PeerId) :
    (state.receive kernelInst peer state_machine source event).inventory other =
      if other = peer then result_inventory
        (process_message kernelInst state_machine event source state.node).1
      else state.inventory other := by
  simp only [NetState.inventory, NetState.receive]
  by_cases hother : other = peer
  · subst hother
    rw [Function.update_self, if_pos rfl]
    cases (process_message kernelInst state_machine event source state.node).1 <;> rfl
  · rw [Function.update_of_ne hother, if_neg hother]

/-- A step that changes neither what is in flight nor what a peer owes. -/
theorem NetState.ledger_eq {state after : NetState C} (hflight : after.node.download.in_flight =
    state.node.download.in_flight)
    (hinventory : ∀ peer, after.inventory peer = state.inventory peer) :
    after.ledger = state.ledger := by
  simp only [NetState.ledger, hflight, hinventory]

/-- A new peer owes nothing. -/
theorem NetState.ledger_join {state : NetState C} {peer : PeerId} {state_machine : PeerStateMachine}
    {messages : List NetworkMessage} (hfree : state.peers peer = none)
    (hnew : request_headers kernelInst state.node.chainman = some (state_machine, messages)) :
    (state.join peer state_machine).ledger = state.ledger := by
  refine NetState.ledger_eq rfl fun other => ?_
  by_cases hother : other = peer
  · subst hother
    obtain ⟨hinventory, _⟩ := request_headers_quiet kernelInst state.node.chainman
    rw [hnew] at hinventory
    simp only [NetState.inventory, NetState.join, hfree, Function.update_self]
    exact hinventory
  · simp [NetState.inventory, NetState.join, hother]

theorem NetState.inventory_of_peer {state : NetState C} {peer : PeerId}
    {state_machine : PeerStateMachine} (hpeer : state.peers peer = some state_machine) :
    state.inventory peer = state_machine.inventory := by
  simp [NetState.inventory, hpeer]

/-- A message is a trade of the peer that sends it, which returns at most the block
    in the message, or the block in it cannot be decoded and the peer is gone
    without returning what else it owes. -/
theorem NetState.trade_receive (kernelInst : ChainstateManager C) {state : NetState C}
    {peer : PeerId} {state_machine : PeerStateMachine}
    (hpeer : state.peers peer = some state_machine) (source : AddrV2) (event : NetworkMessage) :
    (∃ returned acquired, state.ledger.Trade peer returned acquired
        (state.receive kernelInst peer state_machine source event).ledger ∧
      ∀ hash ∈ returned, ∃ block, event = .Block block ∧ block.block_hash = hash) ∨
    ∃ block, event = .Block block ∧ state.node.download.Refused kernelInst block ∧
      (state.receive kernelInst peer state_machine source event).ledger =
        (state.ledger.give_back peer {block.block_hash}).forget peer := by
  rcases (process_message_outcome kernelInst state_machine event source state.node).lease with
    ⟨returned, acquired, htaken, hheld, hfree, hreturned⟩ |
      ⟨block, rfl, hrefused, hnone, htaken⟩
  · refine .inl ⟨returned, acquired, .of_mem htaken (fun other hash => ?_) hfree, hreturned⟩
    simp only [NetState.ledger, NetState.inventory_receive, Set.mem_ofPred_eq]
    by_cases hother : other = peer
    · subst hother
      rw [if_pos rfl, hheld, NetState.inventory_of_peer hpeer]
      simp
    · simp [hother]
  · refine .inr ⟨block, rfl, hrefused, lease.Ledger.ext (Set.ext htaken) (funext fun other => ?_)⟩
    simp only [NetState.ledger, NetState.inventory_receive, lease.Ledger.forget,
      lease.Ledger.give_back]
    by_cases hother : other = peer
    · subst hother
      simp [hnone]
    · simp [hother]

/-- A peer that is disconnected returns all that it holds. -/
theorem NetState.trade_disconnect {state : NetState C} {peer : PeerId}
    {state_machine : PeerStateMachine} (hpeer : state.peers peer = some state_machine)
    (order : Reorder BlockHash) :
    state.ledger.Trade peer (state.ledger.held peer) ∅ (NetState.ledger
      { state with
        node := { state.node with
          download := state_machine.release_in_flight order state.node.download }
        peers := Function.update state.peers peer none }) := by
  refine .of_mem (fun hash => ?_) (fun other hash => ?_) (by simp)
  · simp [NetState.ledger, NetState.inventory_of_peer hpeer,
      PeerStateMachine.mem_release_in_flight, and_comm]
  · by_cases hother : other = peer
    · subst hother
      simp [NetState.ledger, NetState.inventory]
    · simp [NetState.ledger, NetState.inventory, hother]

/-- Every step is a trade, in which a peer that sends only what it owes returns
    only what it holds, or the panic of a peer. -/
theorem NetStep.trade {state after : NetState C} {action : NetAction}
    (hstep : NetStep kernelInst state action after) :
    (∃ peer returned acquired, state.ledger.Trade peer returned acquired after.ledger ∧
      (OwesBlocks state action → returned ⊆ state.ledger.held peer)) ∨
    ∃ peer source block, action = .receive peer source (.Block block) ∧
      state.node.download.Refused kernelInst block ∧
      after.ledger = (state.ledger.give_back peer {block.block_hash}).forget peer := by
  have hidle : ∀ {after : NetState C}, after.ledger = state.ledger →
      ∃ peer returned acquired, state.ledger.Trade peer returned acquired after.ledger ∧
        (OwesBlocks state action → returned ⊆ state.ledger.held peer) := by
    intro after hsame
    rw [hsame]
    exact ⟨0, ∅, ∅, .refl _ _, fun _ => Set.empty_subset _⟩
  cases hstep with
  | connect peer hfree hnew => exact .inl (hidle (NetState.ledger_join hfree hnew))
  | @receive peer state_machine source event hpeer =>
    rcases NetState.trade_receive kernelInst hpeer source event with
      ⟨returned, acquired, htrade, hreturned⟩ | ⟨block, rfl, hrefused, hledger⟩
    · refine .inl ⟨peer, returned, acquired, htrade, fun howes hash hhash => ?_⟩
      obtain ⟨block, rfl, rfl⟩ := hreturned hash hhash
      exact howes
    · exact .inr ⟨peer, source, block, rfl, hrefused, hledger⟩
  | disconnect peer order hpeer =>
    exact .inl ⟨peer, _, ∅, NetState.trade_disconnect hpeer order, fun _ => subset_rfl⟩
  | take_connectable order _ htake =>
    obtain ⟨prev, _, rfl, _⟩ := DownloadState.take_connectable_eq_some _ htake
    exact .inl (hidle (NetState.ledger_eq rfl fun _ => rfl))
  | take_nothing order _ htake =>
    obtain rfl := DownloadState.take_connectable_eq_none _ htake
    exact .inl (hidle (NetState.ledger_eq rfl fun _ => rfl))
  | process_block hbusy => exact .inl (hidle (NetState.ledger_eq rfl fun _ => rfl))

/-- A step that orphans no hash keeps every hash in flight owed. -/
theorem NetStep.covered {state after : NetState C} {action : NetAction}
    (hstep : NetStep kernelInst state action after) (horphans : OrphansNone kernelInst state action)
    (hcovered : state.ledger.Covered) : after.ledger.Covered := by
  rcases hstep.trade with ⟨peer, returned, acquired, htrade, _⟩ |
    ⟨peer, source, block, rfl, hrefused, hledger⟩
  · exact hcovered.trade htrade
  · rw [hledger]
    refine hcovered.give_back.forget fun hash hheld htaken => ?_
    obtain ⟨hheld, hne⟩ := lease.Ledger.mem_give_back_held.mp hheld
    obtain ⟨other, hother, howed⟩ := horphans hrefused hash hheld (hne rfl) htaken.1
    exact ⟨other, hother, lease.Ledger.mem_give_back_held.mpr ⟨howed, fun hpeer =>
      absurd hpeer hother⟩⟩

/-- Among peers that owe disjoint hashes, a panic that orphans none is the panic of
    a peer that owes nothing else. -/
theorem NetStep.exclusive {state after : NetState C} {action : NetAction}
    (hstep : NetStep kernelInst state action after) (howes : OwesBlocks state action)
    (horphans : OrphansNone kernelInst state action) (hexclusive : state.ledger.Exclusive) :
    after.ledger.Exclusive := by
  rcases hstep.trade with ⟨peer, returned, acquired, htrade, hown⟩ |
    ⟨peer, source, block, rfl, hrefused, hledger⟩
  · exact hexclusive.trade htrade (hown howes)
  · have hnone : (state.ledger.give_back peer {block.block_hash}).held peer = ∅ := by
      refine Set.eq_empty_of_forall_notMem fun hash hheld => ?_
      obtain ⟨hheld, hne⟩ := lease.Ledger.mem_give_back_held.mp hheld
      obtain ⟨other, hother, howed⟩ := horphans hrefused hash hheld (hne rfl)
        ((hexclusive.taken_iff hash).mpr ⟨peer, hheld⟩)
      exact Set.disjoint_left.mp (hexclusive.disjoint hother) howed hheld
    rw [hledger, lease.Ledger.forget_eq_self hnone]
    exact hexclusive.give_back (Set.singleton_subset_iff.mpr howes)

/-- Whatever the peers send, where no block that the kernel cannot decode orphans a
    hash: every hash in flight is owed by a live peer. So a hash that a batch drops
    from the queue is owed by one, and without peers nothing is in flight. -/
theorem in_flight_owed (kernelInst : ChainstateManager C) {state : NetState C}
    (hreach : ((net_system kernelInst).restrict (OrphansNone kernelInst)).Reachable state) :
    (∀ hash ∈ state.node.download.in_flight, ∃ peer state_machine,
      state.peers peer = some state_machine ∧ hash ∈ state_machine.inventory) ∧
    (∀ batch_size, ∀ hash ∈ state.node.download.queue,
      hash ∉ (state.node.download.pop_batch batch_size).1 →
        hash ∉ (state.node.download.pop_batch batch_size).2.queue →
      ∃ peer state_machine, state.peers peer = some state_machine ∧
        hash ∈ state_machine.inventory) ∧
    ((∀ peer, state.peers peer = none) → ∀ hash, hash ∉ state.node.download.in_flight) := by
  have hcovered : state.ledger.Covered := by
    refine hreach.invariant (P := fun state => state.ledger.Covered) ?_ ?_
    · intro first hfresh hash hflight
      simp [NetState.ledger, hfresh.download, DownloadState.default] at hflight
    · rintro before action after hcovered ⟨horphans, hstep⟩
      exact hstep.covered horphans hcovered
  have howed : ∀ hash ∈ state.node.download.in_flight, ∃ peer state_machine,
      state.peers peer = some state_machine ∧ hash ∈ state_machine.inventory := by
    intro hash hflight
    obtain ⟨peer, hheld⟩ := hcovered hash hflight
    simp only [NetState.ledger, NetState.inventory, Set.mem_ofPred_eq] at hheld
    cases hpeer : state.peers peer with
    | none => simp [hpeer] at hheld
    | some state_machine => exact ⟨peer, state_machine, hpeer, by simpa [hpeer] using hheld⟩
  refine ⟨howed, ?_, ?_⟩
  · intro batch_size hash hqueue hbatch hrest
    obtain ⟨_, _, hkept⟩ := state.node.download.pop_batch_queue batch_size hash
    have hflight := (hkept hqueue).resolve_left hrest
    rw [(state.node.download.pop_batch_claims batch_size).mem_iff] at hflight
    exact howed hash (hflight.resolve_right hbatch)
  · intro hgone hash hflight
    obtain ⟨peer, _, hpeer, _⟩ := howed hash hflight
    rw [hgone] at hpeer
    cases hpeer

/-- Where every block message is from a peer that owes the block, and no block that
    the kernel cannot decode orphans a hash: what is in flight is what the live
    peers owe, no block is owed by two of them, and a disconnect returns to the
    queue what that peer owes and leaves the claims of the others. -/
theorem in_flight_exclusive (kernelInst : ChainstateManager C) {state : NetState C}
    (hreach : ((net_system kernelInst).restrict fun state action =>
      OwesBlocks state action ∧ OrphansNone kernelInst state action).Reachable state) :
    (∀ hash, hash ∈ state.node.download.in_flight ↔ ∃ peer, hash ∈ state.inventory peer) ∧
    (∀ first second, first ≠ second → ∀ hash ∈ state.inventory first,
      hash ∉ state.inventory second) ∧
    (∀ peer state_machine order, state.peers peer = some state_machine →
      (state_machine.release_in_flight order state.node.download).queue.Perm
        (state_machine.inventory.keys ++ state.node.download.queue) ∧
      ∀ hash, hash ∈ (state_machine.release_in_flight order state.node.download).in_flight ↔
        ∃ other, other ≠ peer ∧ hash ∈ state.inventory other) := by
  have hexclusive : state.ledger.Exclusive := by
    refine hreach.invariant (P := fun state => state.ledger.Exclusive) ?_ ?_
    · intro first hfresh
      refine ⟨fun hash => ?_, fun _ _ _ => ?_⟩ <;>
        simp [NetState.ledger, NetState.inventory, hfresh.peers, hfresh.download,
          DownloadState.default]
    · rintro before action after hexclusive ⟨⟨howes, horphans⟩, hstep⟩
      exact hstep.exclusive howes horphans hexclusive
  have htaken : ∀ hash, hash ∈ state.node.download.in_flight ↔
    ∃ peer, hash ∈ state.inventory peer :=
    hexclusive.taken_iff
  have hdisjoint : ∀ first second, first ≠ second → ∀ hash ∈ state.inventory first,
    hash ∉ state.inventory second :=
    fun first second hne hash hfirst hsecond =>
      Set.disjoint_left.mp (hexclusive.disjoint hne) hfirst hsecond
  refine ⟨htaken, hdisjoint, ?_⟩
  intro peer state_machine order hpeer
  have hmachine := NetState.inventory_of_peer hpeer
  refine ⟨state_machine.release_in_flight_queue order state.node.download, fun hash => ?_⟩
  rw [PeerStateMachine.mem_release_in_flight, htaken, ← hmachine]
  constructor
  · rintro ⟨hkept, other, hother⟩
    exact ⟨other, fun hsame => hkept (hsame ▸ hother), hother⟩
  · rintro ⟨other, hne, hother⟩
    exact ⟨hdisjoint other peer hne hash hother, other, hother⟩

/-- Each of the two peers owes its own block. The kernel refuses the one that the
    first peer sends, and the second one is still owed. -/
theorem in_flight_exclusive_two_peers :
    (∀ hash ∈ regtest_two_peers.inventory 0, hash ∉ regtest_two_peers.inventory 1) ∧
    ∃ state, ((net_system regtest.kernel).restrict fun state action =>
        OwesBlocks state action ∧ OrphansNone regtest.kernel state action).Reachable state ∧
      state.peers 0 = none ∧ regtest.block_hash 2 ∈ state.node.download.in_flight ∧
      ∃ peer, regtest.block_hash 2 ∈ state.inventory peer := by
  have hreach : ((net_system regtest.kernel).restrict fun state action =>
      OwesBlocks state action ∧ OrphansNone regtest.kernel state action).Reachable
        regtest_two_peers :=
    regtest_two_peers_reachable (regtest_requested_reachable ⟨trivial, trivial⟩ ⟨trivial, trivial⟩)
      ⟨trivial, trivial⟩ ⟨trivial, trivial⟩
  have howes : regtest.block_hash 1 ∈ regtest_two_peers.inventory 0 := by decide
  have hlast : OrphansNone regtest.kernel regtest_two_peers
      (.receive 0 regtest_source (.Block (regtest_refused (regtest_header 1)))) := by
    intro _ hash hhash hne
    have hhash : hash ∈ [regtest.block_hash 1] := hhash
    exact absurd (List.mem_singleton.mp hhash) hne
  have hrefused := hreach.step_restrict
    (NetStep.receive 0 regtest_source (.Block (regtest_refused (regtest_header 1))) rfl)
    ⟨howes, hlast⟩
  refine ⟨(in_flight_exclusive regtest.kernel hreach).2.1 0 1 (by decide), _, hrefused, rfl,
    by decide, ?_⟩
  exact ((in_flight_exclusive regtest.kernel hrefused).1 _).mp (by decide)

/-- A peer that was asked for two blocks. -/
def regtest_owes_two : PeerStateMachine :=
  .AwaitingBlock ⟨HashSet.collect [regtest.block_hash 1, regtest.block_hash 2]⟩

/-- A peer sends two headers, is asked for both blocks and sends the first one with
    a transaction that the kernel does not decode. -/
def regtest_orphaned : NetState regtest.Chainstate :=
  ((regtest_fresh.join 0 .AwaitingHeaders).receive regtest.kernel 0 .AwaitingHeaders regtest_source
    (.Headers [regtest_header 1, regtest_header 2])).receive regtest.kernel 0 regtest_owes_two
    regtest_source (.Block (regtest_refused (regtest_header 1)))

theorem regtest_orphaned_reachable :
    ((net_system regtest.kernel).restrict OwesBlocks).Reachable regtest_orphaned := by
  have hfresh : ((net_system regtest.kernel).restrict OwesBlocks).Reachable regtest_fresh :=
    .of_init regtest_fresh_init
  have hasked := (hfresh.step_restrict (NetStep.connect 0 rfl rfl) trivial).step_restrict
    (NetStep.receive 0 regtest_source (.Headers [regtest_header 1, regtest_header 2]) rfl) trivial
  have howes : regtest.block_hash 1 ∈ regtest_owes_two.inventory := by decide
  exact hasked.step_restrict
    (NetStep.receive 0 regtest_source (.Block (regtest_refused (regtest_header 1))) rfl) howes

/-- The thread of the peer has panicked, and the second block that it owed is still
    in flight. -/
theorem refused_block_orphans :
    ((net_system regtest.kernel).restrict OwesBlocks).Reachable regtest_orphaned ∧
      regtest.block_hash 2 ∈ regtest_orphaned.node.download.in_flight ∧
      ∀ peer, regtest.block_hash 2 ∉ regtest_orphaned.inventory peer := by
  refine ⟨regtest_orphaned_reachable, by decide, fun peer => ?_⟩
  have hgone : regtest_orphaned.peers peer = none := by
    rcases peer with _ | peer <;> rfl
  simp [NetState.inventory, hgone]

/-- Another peer sends the same headers, is asked for the first block only and
    disconnects. No peer is left, and the second block is still in flight. -/
theorem orphan_never_requested :
    ∃ state, (net_system regtest.kernel).Reachable state ∧ (∀ peer, state.peers peer = none) ∧
      state.requested =
        [regtest.block_hash 1, regtest.block_hash 2, regtest.block_hash 1] ∧
      regtest.block_hash 2 ∈ state.node.download.in_flight := by
  have hreach := ((regtest_orphaned_reachable.of_restrict.step (NetStep.connect 1 rfl rfl)).step
    (NetStep.receive 1 regtest_source (.Headers [regtest_header 1, regtest_header 2]) rfl)).step
    (NetStep.disconnect 1 .id rfl)
  refine ⟨_, hreach, fun peer => ?_, by decide, by decide⟩
  rcases peer with _ | _ | peer <;> rfl

/-- The second peer sends the block that the first one owes: the first claim is
    gone and the second one is still owed. -/
theorem in_flight_owed_unsolicited_block :
    ∃ state, ((net_system regtest.kernel).restrict (OrphansNone regtest.kernel)).Reachable state ∧
      regtest.block_hash 1 ∈ state.inventory 0 ∧
        regtest.block_hash 1 ∉ state.node.download.in_flight ∧
      regtest.block_hash 2 ∈ state.node.download.in_flight ∧
      ∃ peer state_machine, state.peers peer = some state_machine ∧
        regtest.block_hash 2 ∈ state_machine.inventory := by
  have htwo_peers : ((net_system regtest.kernel).restrict (OrphansNone regtest.kernel)).Reachable
      regtest_two_peers :=
    regtest_two_peers_reachable (regtest_requested_reachable trivial trivial) trivial trivial
  have hpeer : regtest_two_peers.peers 1 =
    some (.AwaitingBlock ⟨HashSet.collect [regtest.block_hash 2]⟩) := rfl
  have hdecoded : ¬ regtest_two_peers.node.download.Refused regtest.kernel
    (regtest_block (regtest_header 1)) := by decide
  have hreach := htwo_peers.step_restrict
    (NetStep.receive 1 regtest_source (.Block (regtest_block (regtest_header 1))) hpeer)
    fun hrefused => absurd hrefused hdecoded
  have hflight : regtest.block_hash 2 ∈ (regtest_two_peers.receive regtest.kernel 1
      (.AwaitingBlock ⟨HashSet.collect [regtest.block_hash 2]⟩) regtest_source
      (.Block (regtest_block (regtest_header 1)))).node.download.in_flight := by decide
  exact ⟨_, hreach, by decide, by decide, hflight,
    (in_flight_owed regtest.kernel hreach).1 _ hflight⟩

end net
