import KernelNode.Net.Outstanding
import KernelNode.P2p.Transport

open bitcoin bitcoinkernel std.collections std.time transition

namespace net

def PEER_STALL_TIMEOUT : Duration := .from_secs 30

def stalled (state : PeerStateMachine) (last_progress now : Instant) : Bool :=
  (match state with
    | .AwaitingInv => false
    | _ => true) && last_progress.elapsed now > PEER_STALL_TIMEOUT.as_nanos

def delivers_requested_block : PeerStateMachine → NetworkMessage → Bool
  | .AwaitingBlock awaiting, .Block block => block.block_hash ∈ awaiting.peer_inventory
  | _, _ => false

structure BitcoinPeer where
  addr : AddrV2
  state_machine : PeerStateMachine
  last_progress : Instant

/-- A peer that has just been asked for headers. -/
def BitcoinPeer.new (addr : AddrV2) (now : Instant) : BitcoinPeer := ⟨addr, .AwaitingHeaders, now⟩

def BitcoinPeer.is_stalled (self : BitcoinPeer) (now : Instant) : Bool :=
  stalled self.state_machine self.last_progress now

/-- The messages that ask the peer for something it has to send. -/
def is_request : NetworkMessage → Bool
  | .GetHeaders _ => true
  | .GetData _ => true
  | _ => false

/-- The peer after what was received at a time, and the messages to send it. An
    error in receiving leaves it as it is; so does one in sending, since its state
    is set before. -/
def BitcoinPeer.receive_and_process_message {C : Type} (kernelInst : ChainstateManager C)
    (self : BitcoinPeer) (received : Except p2p.net.Error NetworkMessage) (now : Instant)
    (node_state : NodeState C) : Option (BitcoinPeer × List NetworkMessage) × NodeState C :=
  match received with
  | .error _ => (some (self, []), node_state)
  | .ok msg =>
    let delivered := delivers_requested_block self.state_machine msg
    match process_message kernelInst self.state_machine msg self.addr node_state with
    | (none, node_state) => (none, node_state)
    | (some (state_machine, messages), node_state) =>
      let requested := messages.any is_request
      let last_progress := if delivered || requested then now else self.last_progress
      (some ({ self with state_machine, last_progress }, messages), node_state)

/-- A peer with the history of its waits. -/
structure TimedPeer where
  peer : BitcoinPeer
  /-- The time of the last message. -/
  now : Instant
  /-- The last time at which the peer was found waiting for announcements. -/
  idle_until : Instant
  /-- The time and the content of the last `getdata` message. -/
  requested_at : Instant
  batch : List BlockHash
  /-- The peer was not stalled when a message came, since then. -/
  unstalled : Bool

def PeerStateMachine.is_awaiting_inv : PeerStateMachine → Bool
  | .AwaitingInv => true
  | _ => false

/-- The history after a message at a time and the answer to it. -/
def TimedPeer.answer (self : TimedPeer) (now : Instant) (peer : BitcoinPeer)
    (messages : List NetworkMessage) : TimedPeer :=
  let idle_until := if self.peer.state_machine.is_awaiting_inv then now else self.idle_until
  match (messages.filterMap getdata_content).getLast? with
  | some getdata =>
    { peer, now, idle_until, requested_at := now, unstalled := true
      batch := (NetworkMessage.GetData getdata).requested }
  | none =>
    { self with peer, now, idle_until, unstalled := self.unstalled && !self.peer.is_stalled now }

/-- What one peer sends, at times that do not go back. The shared state is whatever
    the other threads have made of it. -/
def timed_system {C : Type} (kernelInst : ChainstateManager C) :
    System TimedPeer (Except p2p.net.Error NetworkMessage × Instant) where
  init timed := ∃ addr start, timed =
    { peer := .new addr start, now := start, idle_until := start, requested_at := start
      batch := [], unstalled := true }
  step timed label next := timed.now.nanos ≤ label.2.nanos ∧ ∃ node_state after peer messages,
    timed.peer.receive_and_process_message kernelInst label.1 label.2 node_state =
      (some (peer, messages), after) ∧
    next = timed.answer label.2 peer messages

section

variable {C : Type} {kernelInst : ChainstateManager C}

theorem receive_and_process_message_eq_some {self next : BitcoinPeer} {msg : NetworkMessage}
    {now : Instant} {node_state after : NodeState C} {messages : List NetworkMessage}
    (hreceive : self.receive_and_process_message kernelInst (.ok msg) now node_state =
      (some (next, messages), after)) :
    process_message kernelInst self.state_machine msg self.addr node_state =
        (some (next.state_machine, messages), after) ∧
      next = { self with
        state_machine := next.state_machine
        last_progress := if delivers_requested_block self.state_machine msg ||
          messages.any is_request then now else self.last_progress } := by
  simp only [BitcoinPeer.receive_and_process_message] at hreceive
  rcases hprocess : process_message kernelInst self.state_machine msg self.addr node_state with
    ⟨_ | ⟨state_machine, answers⟩, last⟩
  · simp [hprocess] at hreceive
  · simp only [hprocess, Prod.mk.injEq, Option.some.injEq] at hreceive
    obtain ⟨⟨rfl, rfl⟩, rfl⟩ := hreceive
    exact ⟨rfl, rfl⟩

/-- Headers are asked for when none are owed, and then they are waited for. -/
theorem request_headers_requests {chainman : C} {next : PeerStateMachine}
    {messages : List NetworkMessage}
    (hrequest : request_headers kernelInst chainman = some (next, messages)) :
    messages.any is_request := by
  simp only [request_headers, Option.bind_eq_bind, Option.bind_eq_some_iff, Option.pure_def,
    Option.some.injEq, Prod.mk.injEq] at hrequest
  obtain ⟨best, _, locators, _, rfl, rfl⟩ := hrequest
  rfl

/-- A peer that waits for announcements goes on with it or is asked for something. -/
theorem process_message_leaves_inv {next : PeerStateMachine} {event : NetworkMessage}
    {source : AddrV2} {node_state after : NodeState C} {messages : List NetworkMessage}
    (hprocess : process_message kernelInst .AwaitingInv event source node_state =
      (some (next, messages), after)) : next = .AwaitingInv ∨ messages.any is_request := by
  cases event with
  | Headers headers =>
    simp only [process_message] at hprocess
    split at hprocess
    · exact .inr (request_headers_requests (Prod.mk.inj hprocess).1)
    · split at hprocess
      · obtain ⟨⟨rfl, rfl⟩, -⟩ := Prod.mk.inj hprocess
        exact .inl rfl
      · obtain ⟨⟨rfl, rfl⟩, -⟩ := Prod.mk.inj hprocess
        exact .inr rfl
  | Inv inventory =>
    simp only [process_message] at hprocess
    split at hprocess
    · exact .inr (request_headers_requests (Prod.mk.inj hprocess).1)
    · obtain ⟨⟨rfl, rfl⟩, -⟩ := Prod.mk.inj hprocess
      exact .inl rfl
  | _ =>
    obtain ⟨⟨rfl, rfl⟩, -⟩ := Prod.mk.inj hprocess
    exact .inl rfl

/-- What a message does to a peer that owes blocks. -/
inductive Receipt (state : AwaitingBlock) : NetworkMessage → PeerStateMachine →
    List NetworkMessage → Prop where
  /-- It brings none of them, and nothing is asked for. -/
  | ignore {event : NetworkMessage} {messages : List NetworkMessage}
      (hevent : delivers_requested_block (.AwaitingBlock state) event = false)
      (hmessages : messages.any is_request = false) :
      Receipt state event (.AwaitingBlock state) messages
  /-- It brings one, and more are owed. -/
  | more {block : bitcoin.Block} (hblock : block.block_hash ∈ state.peer_inventory)
      (hmore : (state.peer_inventory.erase block.block_hash).keys ≠ []) :
      Receipt state (.Block block) (.AwaitingBlock ⟨state.peer_inventory.erase block.block_hash⟩) []
  /-- It brings the last one, and the peer is asked for others. -/
  | renew {block : bitcoin.Block} {hashes : List BlockHash}
      (hblock : block.block_hash ∈ state.peer_inventory) (hhashes : hashes ≠ [])
      (hnodup : hashes.Nodup) :
      Receipt state (.Block block) (.AwaitingBlock ⟨HashSet.collect hashes⟩)
        [create_getdata_message hashes]
  /-- It brings the last one, and there are no others. -/
  | finish {block : bitcoin.Block} {next : PeerStateMachine} {messages : List NetworkMessage}
      (hblock : block.block_hash ∈ state.peer_inventory) (hnext : ¬next.is_awaiting_block) :
      Receipt state (.Block block) next messages

theorem Receipt.of_kept {state : AwaitingBlock} {next : PeerStateMachine} {event : NetworkMessage}
    {node_state after : NodeState C} {kept messages : List NetworkMessage}
    (hevent : delivers_requested_block (.AwaitingBlock state) event = false)
    (hprocess : (some (PeerStateMachine.AwaitingBlock state, kept), node_state) =
      (some (next, messages), after))
    (hkept : kept.any is_request = false) : Receipt state event next messages := by
  obtain ⟨⟨rfl, rfl⟩, -⟩ := Prod.mk.inj hprocess
  exact .ignore hevent hkept

theorem erase_of_not_mem {set : HashSet BlockHash} {hash : BlockHash} (hhash : hash ∉ set) :
    set.erase hash = set :=
  AList.ext (List.kerase_of_notMem_keys hhash)

theorem delivers_requested_block_iff {state : AwaitingBlock} {event : NetworkMessage} :
    delivers_requested_block (.AwaitingBlock state) event ↔
      ∃ block, event = .Block block ∧ block.block_hash ∈ state.peer_inventory := by
  cases event <;> simp [delivers_requested_block]

theorem delivers_requested_block_of_mem {state : AwaitingBlock} {block : bitcoin.Block}
    (hblock : block.block_hash ∈ state.peer_inventory) :
    delivers_requested_block (.AwaitingBlock state) (.Block block) = true :=
  decide_eq_true hblock

/-- What brings none of the blocks changes nothing. -/
theorem Receipt.kept {state : AwaitingBlock} {next : PeerStateMachine} {event : NetworkMessage}
    {messages : List NetworkMessage} (hreceipt : Receipt state event next messages)
    (hevent : ¬delivers_requested_block (.AwaitingBlock state) event) :
    next = .AwaitingBlock state := by
  cases hreceipt with
  | ignore _ hmessages => rfl
  | more hblock hmore => exact absurd (delivers_requested_block_of_mem hblock) hevent
  | renew hblock hhashes hnodup => exact absurd (delivers_requested_block_of_mem hblock) hevent
  | finish hblock hnext => exact absurd (delivers_requested_block_of_mem hblock) hevent

theorem process_message_receipt {state : AwaitingBlock} (howed : state.peer_inventory.keys ≠ [])
    {next : PeerStateMachine} {event : NetworkMessage} {source : AddrV2}
    {node_state after : NodeState C} {messages : List NetworkMessage}
    (hprocess : process_message kernelInst (.AwaitingBlock state) event source node_state =
      (some (next, messages), after)) : Receipt state event next messages := by
  cases event with
  | Block block =>
    simp only [process_message] at hprocess
    split at hprocess
    · cases hprocess
    by_cases hblock : block.block_hash ∈ state.peer_inventory
    · split at hprocess
      · obtain ⟨hashes, hhashes, hnodup, rfl, rfl⟩ | ⟨hnext, _⟩ := request_batch_answer hprocess
        · exact .renew hblock hhashes hnodup
        · exact .finish hblock hnext
      · rename_i hmore
        obtain ⟨⟨rfl, rfl⟩, -⟩ := Prod.mk.inj hprocess
        exact .more hblock (by simpa using hmore)
    · -- a block that is not owed, or not any more, leaves the inventory as it is
      rw [erase_of_not_mem hblock, if_neg (by simpa using howed)] at hprocess
      exact .of_kept (by simpa [delivers_requested_block] using hblock) hprocess rfl
  | _ => exact .of_kept rfl hprocess rfl

@[simp]
theorem TimedPeer.answer_peer (timed : TimedPeer) (now : Instant) (peer : BitcoinPeer)
    (messages : List NetworkMessage) : (timed.answer now peer messages).peer = peer := by
  simp only [answer]
  split <;> rfl

@[simp]
theorem TimedPeer.answer_now (timed : TimedPeer) (now : Instant) (peer : BitcoinPeer)
    (messages : List NetworkMessage) : (timed.answer now peer messages).now = now := by
  simp only [answer]
  split <;> rfl

@[simp]
theorem TimedPeer.answer_idle_until (timed : TimedPeer) (now : Instant) (peer : BitcoinPeer)
    (messages : List NetworkMessage) : (timed.answer now peer messages).idle_until =
      if timed.peer.state_machine.is_awaiting_inv then now else timed.idle_until := by
  simp only [answer]
  split <;> rfl

/-- Without a request the batch stays. -/
theorem TimedPeer.answer_of_none {messages : List NetworkMessage}
    (hmessages : messages.any is_request = false) (timed : TimedPeer) (now : Instant)
    (peer : BitcoinPeer) :
    (timed.answer now peer messages).batch = timed.batch ∧
      (timed.answer now peer messages).requested_at = timed.requested_at ∧
      (timed.answer now peer messages).unstalled =
        (timed.unstalled && !timed.peer.is_stalled now) := by
  have hnone : messages.filterMap getdata_content = [] := by
    refine List.filterMap_eq_nil_iff.mpr fun message hmessage => ?_
    have hrequest := List.any_eq_false.mp hmessages message hmessage
    cases message <;> first | rfl | exact absurd rfl hrequest
  simp only [answer, hnone]
  exact ⟨rfl, rfl, rfl⟩

theorem TimedPeer.answer_of_getdata (timed : TimedPeer) (now : Instant) (peer : BitcoinPeer)
    (hashes : List BlockHash) :
    (timed.answer now peer [create_getdata_message hashes]).batch = hashes ∧
      (timed.answer now peer [create_getdata_message hashes]).requested_at = now :=
  ⟨requested_create_getdata_message hashes, rfl⟩

/-- The blocks that are owed are of the last batch, and each that has come since it
    was asked for has taken no more than the timeout. -/
structure TimedPeer.Owes (timed : TimedPeer) (state : AwaitingBlock) : Prop where
  ne_nil : state.peer_inventory.keys ≠ []
  nodup : timed.batch.Nodup
  subset : ∀ hash ∈ state.peer_inventory, hash ∈ timed.batch
  timely : timed.unstalled → timed.peer.last_progress.nanos +
    state.peer_inventory.keys.length * PEER_STALL_TIMEOUT.as_nanos ≤
      timed.requested_at.nanos + timed.batch.length * PEER_STALL_TIMEOUT.as_nanos

/-- What holds at every time: progress is in the past, it is not before the last
    time of waiting for announcements, and the blocks of the batch keep coming. -/
structure TimedPeer.Timely (timed : TimedPeer) : Prop where
  progress : timed.peer.last_progress.nanos ≤ timed.now.nanos
  idle : ¬timed.peer.state_machine.is_awaiting_inv →
    timed.idle_until.nanos ≤ timed.peer.last_progress.nanos
  owes : ∀ state, timed.peer.state_machine = .AwaitingBlock state → timed.Owes state

theorem elapsed_gt_iff (earlier now : Instant) (timeout : Nat) :
    earlier.elapsed now > timeout ↔ earlier.nanos + timeout < now.nanos := by
  rw [Instant.elapsed]
  omega

theorem is_stalled_iff (peer : BitcoinPeer) (time : Instant) :
    peer.is_stalled time ↔ ¬peer.state_machine.is_awaiting_inv ∧
      peer.last_progress.nanos + PEER_STALL_TIMEOUT.as_nanos < time.nanos := by
  refine Iff.trans ?_ (and_congr_right fun _ => elapsed_gt_iff _ _ _)
  unfold BitcoinPeer.is_stalled stalled
  generalize PEER_STALL_TIMEOUT.as_nanos = timeout
  cases peer.state_machine <;> simp [PeerStateMachine.is_awaiting_inv]

/-- A peer that owes blocks and is not stalled has made progress within the
    timeout. -/
theorem in_time_of_not_stalled {peer : BitcoinPeer} {state : AwaitingBlock}
    (hstate : peer.state_machine = .AwaitingBlock state) {time : Instant}
    (hstalled : peer.is_stalled time = false) :
    time.nanos ≤ peer.last_progress.nanos + PEER_STALL_TIMEOUT.as_nanos := by
  by_contra hlate
  have hactive : ¬peer.state_machine.is_awaiting_inv := by
    rw [hstate]
    exact Bool.false_ne_true
  have htrue := (is_stalled_iff peer time).mpr ⟨hactive, Nat.lt_of_not_le hlate⟩
  rw [hstalled] at htrue
  cases htrue

theorem keys_collect_length_le (hashes : List BlockHash) :
    (HashSet.collect hashes).keys.length ≤ hashes.length := by
  refine (List.subperm_of_subset (AList.keys_nodup _) fun hash hhash => ?_).length_le
  exact (HashSet.mem_collect hashes hash).mp hhash

/-- A batch of which nothing has come. -/
theorem TimedPeer.Owes.answer_none {timed : TimedPeer} {state : AwaitingBlock}
    (howes : timed.Owes state) {messages : List NetworkMessage}
    (hmessages : messages.any is_request = false) (now : Instant) {peer : BitcoinPeer}
    (hprogress : peer.last_progress = timed.peer.last_progress) :
    (timed.answer now peer messages).Owes state := by
  obtain ⟨hbatch, hrequested, hunstalled⟩ := timed.answer_of_none hmessages now peer
  refine ⟨howes.ne_nil, hbatch ▸ howes.nodup, hbatch ▸ howes.subset, fun h => ?_⟩
  rw [hunstalled, Bool.and_eq_true] at h
  rw [TimedPeer.answer_peer, hprogress, hbatch, hrequested]
  exact howes.timely h.1

/-- A batch of which a block has come in time. -/
theorem TimedPeer.Owes.answer_block {timed : TimedPeer} {state : AwaitingBlock}
    (howes : timed.Owes state) (hstate : timed.peer.state_machine = .AwaitingBlock state)
    {hash : BlockHash} (hhash : hash ∈ state.peer_inventory)
    (hmore : (state.peer_inventory.erase hash).keys ≠ []) {now : Instant} {peer : BitcoinPeer}
    (hprogress : peer.last_progress = now) :
    (timed.answer now peer []).Owes ⟨state.peer_inventory.erase hash⟩ := by
  obtain ⟨hbatch, hrequested, hunstalled⟩ :=
    timed.answer_of_none (show [].any is_request = false from rfl) now peer
  refine ⟨hmore, hbatch ▸ howes.nodup,
    fun other hother => hbatch ▸ howes.subset other (AList.mem_erase.mp hother).2, fun h => ?_⟩
  rw [hunstalled, Bool.and_eq_true, Bool.not_eq_true'] at h
  have hintime := in_time_of_not_stalled hstate h.2
  have htimely := howes.timely h.1
  have hlength : (state.peer_inventory.erase hash).keys.length + 1 =
      state.peer_inventory.keys.length := by
    rw [AList.keys_erase, List.length_erase_of_mem hhash]
    exact Nat.sub_add_cancel (List.length_pos_of_ne_nil howes.ne_nil)
  rw [← hlength, Nat.add_mul, Nat.one_mul] at htimely
  rw [TimedPeer.answer_peer, hprogress, hbatch, hrequested]
  dsimp only
  omega

/-- A batch that is asked for now starts its time. -/
theorem TimedPeer.Owes.answer_getdata (timed : TimedPeer) {hashes : List BlockHash}
    (hhashes : hashes ≠ []) (hnodup : hashes.Nodup) {now : Instant} {peer : BitcoinPeer}
    (hprogress : peer.last_progress = now) :
    (timed.answer now peer [create_getdata_message hashes]).Owes ⟨HashSet.collect hashes⟩ := by
  obtain ⟨hbatch, hrequested⟩ := timed.answer_of_getdata now peer hashes
  constructor
  · intro hempty
    obtain ⟨hash, hhash⟩ := List.exists_mem_of_ne_nil hashes hhashes
    exact HashSet.keys_eq_nil_iff.mp hempty hash ((HashSet.mem_collect hashes hash).mpr hhash)
  · rw [hbatch]
    exact hnodup
  · rw [hbatch]
    exact fun hash hhash => (HashSet.mem_collect hashes hash).mp hhash
  · intro _
    rw [TimedPeer.answer_peer, hprogress, hrequested, hbatch]
    exact Nat.add_le_add_left (Nat.mul_le_mul_right _ (keys_collect_length_le hashes)) _

variable {timed : TimedPeer} {next : BitcoinPeer} {now : Instant}
  {node_state after : NodeState C} {messages : List NetworkMessage} {event : NetworkMessage}

section

variable (hreceive : timed.peer.receive_and_process_message kernelInst (.ok event) now node_state =
    (some (next, messages), after))

include hreceive

/-- Progress is made now or not at all. -/
theorem last_progress_cases :
    next.last_progress = now ∨ next.last_progress = timed.peer.last_progress := by
  rw [(receive_and_process_message_eq_some hreceive).2]
  dsimp only
  split
  · exact .inl rfl
  · exact .inr rfl

/-- A peer that leaves the wait for announcements makes progress. -/
theorem last_progress_of_leaves_inv (hinv : timed.peer.state_machine.is_awaiting_inv)
    (hnext : ¬next.state_machine.is_awaiting_inv) : next.last_progress = now := by
  obtain ⟨hprocess, hsame⟩ := receive_and_process_message_eq_some hreceive
  have hstate : timed.peer.state_machine = .AwaitingInv := by
    cases hmachine : timed.peer.state_machine <;> rw [hmachine] at hinv <;> first | rfl | cases hinv
  rw [hstate] at hprocess
  obtain hkept | hrequest := process_message_leaves_inv hprocess
  · rw [hkept] at hnext
    exact absurd rfl hnext
  · rw [hsame]
    simp only [hrequest, Bool.or_true, if_true]

/-- What a message does to a peer that owes blocks, and to its progress. -/
theorem receive_receipt {state : AwaitingBlock}
    (hstate : timed.peer.state_machine = .AwaitingBlock state)
    (howed : state.peer_inventory.keys ≠ []) :
    Receipt state event next.state_machine messages ∧
      next.last_progress = if delivers_requested_block (.AwaitingBlock state) event then now
        else timed.peer.last_progress := by
  obtain ⟨hprocess, hsame⟩ := receive_and_process_message_eq_some hreceive
  rw [hstate] at hprocess hsame
  have hreceipt := process_message_receipt howed hprocess
  refine ⟨hreceipt, ?_⟩
  rw [hsame]
  dsimp only
  generalize next.state_machine = state_machine at hreceipt
  cases hreceipt with
  | ignore hevent hmessages => rw [hevent, hmessages]; rfl
  | more hblock hmore => rw [delivers_requested_block_of_mem hblock, Bool.true_or]
  | renew hblock hhashes hnodup => rw [delivers_requested_block_of_mem hblock, Bool.true_or]
  | finish hblock hnext => rw [delivers_requested_block_of_mem hblock, Bool.true_or]

/-- A peer that owes nothing owes a batch only if it is asked for it. -/
theorem TimedPeer.Owes.of_idle (hidle : ¬timed.peer.state_machine.is_awaiting_block)
    {owed : AwaitingBlock} (howed : next.state_machine = .AwaitingBlock owed) :
    (timed.answer now next messages).Owes owed := by
  obtain ⟨hprocess, hsame⟩ := receive_and_process_message_eq_some hreceive
  have hanswer := process_message_answer hprocess
  rw [howed] at hanswer
  generalize timed.peer.state_machine = state_machine at hanswer hidle hsame
  cases hanswer with
  | keep hblock hmessages => exact absurd rfl hidle
  | wait _ hnext hmessages => exact absurd rfl hnext
  | request _ hhashes hnodup =>
    refine .answer_getdata timed hhashes hnodup ?_
    rw [hsame]
    simp [create_getdata_message, is_request]
  | deliver hmore => exact absurd rfl hidle
  | renew hlast hhashes hnodup => exact absurd rfl hidle
  | finish hlast hnext hmessages => exact absurd rfl hnext

/-- A batch loses the blocks that come, and is replaced after the last one. -/
theorem TimedPeer.Owes.receive {state : AwaitingBlock} (howes : timed.Owes state)
    (hstate : timed.peer.state_machine = .AwaitingBlock state)
    {owed : AwaitingBlock} (howed : next.state_machine = .AwaitingBlock owed) :
    (timed.answer now next messages).Owes owed := by
  obtain ⟨hreceipt, hprogress⟩ := receive_receipt hreceive hstate howes.ne_nil
  rw [howed] at hreceipt
  cases hreceipt with
  | ignore hevent hmessages =>
    rw [hevent] at hprogress
    exact howes.answer_none hmessages now hprogress
  | more hblock hmore =>
    rw [if_pos (delivers_requested_block_of_mem hblock)] at hprogress
    exact howes.answer_block hstate hblock hmore hprogress
  | renew hblock hhashes hnodup =>
    rw [if_pos (delivers_requested_block_of_mem hblock)] at hprogress
    exact .answer_getdata timed hhashes hnodup hprogress
  | finish hblock hnext => exact absurd rfl hnext

theorem TimedPeer.Timely.receive (htimely : timed.Timely) (hnow : timed.now.nanos ≤ now.nanos) :
    (timed.answer now next messages).Timely := by
  have hprogress := htimely.progress
  have hcases := last_progress_cases hreceive
  constructor
  · rw [TimedPeer.answer_peer, TimedPeer.answer_now]
    rcases hcases with heq | heq
    · rw [heq]
    · rw [heq]
      omega
  · rw [TimedPeer.answer_peer, TimedPeer.answer_idle_until]
    intro hnext
    split
    · rename_i hinv
      rw [last_progress_of_leaves_inv hreceive hinv hnext]
    · rename_i hactive
      have hidle := htimely.idle hactive
      rcases hcases with heq | heq
      · rw [heq]
        omega
      · rw [heq]
        exact hidle
  · rw [TimedPeer.answer_peer]
    intro owed howed
    cases hstate : timed.peer.state_machine with
    | AwaitingBlock state => exact (htimely.owes state hstate).receive hreceive hstate howed
    | AwaitingHeaders => exact .of_idle hreceive (by rw [hstate]; decide) howed
    | AwaitingInv => exact .of_idle hreceive (by rw [hstate]; decide) howed

end

/-- Time passes, and nothing comes. -/
theorem TimedPeer.Timely.wait (htimely : timed.Timely) (hnow : timed.now.nanos ≤ now.nanos) :
    (timed.answer now timed.peer []).Timely := by
  constructor
  · exact htimely.progress.trans hnow
  · rw [TimedPeer.answer_peer, TimedPeer.answer_idle_until]
    intro hactive
    rw [if_neg hactive]
    exact htimely.idle hactive
  · exact fun state hstate => (htimely.owes state hstate).answer_none rfl now rfl

end

theorem reachable_timely {C : Type} {kernelInst : ChainstateManager C} {timed : TimedPeer}
    (hreach : (timed_system kernelInst).Reachable timed) : timed.Timely := by
  refine hreach.invariant ?_ ?_
  · rintro _ ⟨addr, start, rfl⟩
    exact ⟨Nat.le_refl _, fun _ => Nat.le_refl _, fun state hstate => by cases hstate⟩
  · rintro timed ⟨_ | event, now⟩ _ htimely ⟨hnow, node_state, after, peer, messages, hreceive, rfl⟩
    · obtain ⟨⟨rfl, rfl⟩, -⟩ := Prod.mk.inj hreceive
      exact htimely.wait hnow
    · exact htimely.receive hreceive hnow

/-- The stall timer. A peer that stops waiting for announcements has its time
    from then on. One that owes blocks gets more time for each of them that comes and
    for nothing else, so that it cannot take longer than the timeout for each block
    of the batch without being found stalled. -/
theorem stall_timer_fair {C : Type} (kernelInst : ChainstateManager C) {timed : TimedPeer}
    (hreach : (timed_system kernelInst).Reachable timed) :
    (∀ event now node_state after next messages,
      timed.peer.receive_and_process_message kernelInst (.ok event) now node_state =
        (some (next, messages), after) →
      (timed.peer.state_machine = .AwaitingInv → next.state_machine ≠ .AwaitingInv →
        next.last_progress = now) ∧
      ∀ state, timed.peer.state_machine = .AwaitingBlock state →
        (∃ block, event = .Block block ∧ block.block_hash ∈ state.peer_inventory ∧
          next.last_progress = now) ∨
        (∀ block, event = .Block block → block.block_hash ∉ state.peer_inventory) ∧
          next = timed.peer) ∧
    (∀ time, timed.peer.is_stalled time →
      timed.idle_until.nanos + PEER_STALL_TIMEOUT.as_nanos < time.nanos) ∧
    ∀ state, timed.peer.state_machine = .AwaitingBlock state →
      timed.batch.Nodup ∧ (∀ hash ∈ state.peer_inventory, hash ∈ timed.batch) ∧
      (timed.unstalled → ∀ time, timed.peer.is_stalled time = false →
        time.nanos ≤
          timed.requested_at.nanos + timed.batch.length * PEER_STALL_TIMEOUT.as_nanos) := by
  have htimely := reachable_timely hreach
  refine ⟨fun event now node_state after next messages hreceive => ⟨fun hinv hnext => ?_,
    fun state hstate => ?_⟩, fun time hstalled => ?_, fun state hstate => ?_⟩
  · refine last_progress_of_leaves_inv hreceive (by rw [hinv]; rfl) ?_
    cases hmachine : next.state_machine <;>
      first | exact Bool.false_ne_true | exact absurd hmachine hnext
  · obtain ⟨hreceipt, hprogress⟩ :=
      receive_receipt hreceive hstate (htimely.owes state hstate).ne_nil
    by_cases hdelivers : delivers_requested_block (.AwaitingBlock state) event
    · obtain ⟨block, hevent, hblock⟩ := delivers_requested_block_iff.mp hdelivers
      rw [if_pos hdelivers] at hprogress
      exact .inl ⟨block, hevent, hblock, hprogress⟩
    · rw [if_neg hdelivers] at hprogress
      refine .inr ⟨fun block hevent hblock => hdelivers (delivers_requested_block_iff.mpr
        ⟨block, hevent, hblock⟩), ?_⟩
      rw [(receive_and_process_message_eq_some hreceive).2] at hprogress ⊢
      dsimp only at hprogress
      rw [hprogress, hreceipt.kept hdelivers, ← hstate]
  · obtain ⟨hactive, hlate⟩ := (is_stalled_iff timed.peer time).mp hstalled
    have hidle := htimely.idle hactive
    omega
  · have howes := htimely.owes state hstate
    refine ⟨howes.nodup, howes.subset, fun hunstalled time hstalled => ?_⟩
    have hpending := howes.timely hunstalled
    have hpos := Nat.le_mul_of_pos_left PEER_STALL_TIMEOUT.as_nanos
      (List.length_pos_of_ne_nil howes.ne_nil)
    have hintime := in_time_of_not_stalled hstate hstalled
    omega

/-- A peer that was asked for two blocks after five seconds. -/
def regtest_asked_timed : TimedPeer where
  peer := ⟨regtest_source, regtest_asked_peer.state_machine, ⟨5000000000⟩⟩
  now := ⟨5000000000⟩
  idle_until := ⟨0⟩
  requested_at := ⟨5000000000⟩
  batch := [regtest.block_hash 1, regtest.block_hash 2]
  unstalled := true

/-- It has sent the first one twenty seconds later. -/
def regtest_timed : TimedPeer :=
  { regtest_asked_timed with
    peer := ⟨regtest_source, regtest_peer.state_machine, ⟨25000000000⟩⟩
    now := ⟨25000000000⟩ }

theorem regtest_timed_reachable : (timed_system regtest.kernel).Reachable regtest_timed := by
  have hfresh : (timed_system regtest.kernel).Reachable
      ⟨.new regtest_source ⟨0⟩, ⟨0⟩, ⟨0⟩, ⟨0⟩, [], true⟩ := .of_init ⟨regtest_source, ⟨0⟩, rfl⟩
  have hheaders : (timed_system regtest.kernel).step
      ⟨.new regtest_source ⟨0⟩, ⟨0⟩, ⟨0⟩, ⟨0⟩, [], true⟩
      (.ok (.Headers [regtest_header 1, regtest_header 2]), ⟨5000000000⟩) regtest_asked_timed :=
    ⟨by decide, regtest_fresh.node, _, _, _, rfl, rfl⟩
  have hblock : (timed_system regtest.kernel).step regtest_asked_timed
      (.ok (.Block (regtest_block (regtest_header 1))), ⟨25000000000⟩) regtest_timed :=
    ⟨by decide, regtest_fresh.node, _, _, _, rfl, rfl⟩
  exact (hfresh.step hheaders).step hblock

/-- It may keep the second one back until thirty seconds after the first. -/
theorem stall_timer_fair_second_block :
    regtest_timed.peer.is_stalled ⟨55000000000⟩ = false ∧
      regtest_timed.peer.is_stalled ⟨55000000001⟩ = true ∧
      (Instant.mk 55000000000).nanos ≤ regtest_timed.requested_at.nanos +
        regtest_timed.batch.length * PEER_STALL_TIMEOUT.as_nanos := by
  have hintime : regtest_timed.peer.is_stalled ⟨55000000000⟩ = false := by decide
  have hfair := (stall_timer_fair regtest.kernel regtest_timed_reachable).2.2 _ rfl
  exact ⟨hintime, by decide, hfair.2.2 rfl ⟨55000000000⟩ hintime⟩

end net
