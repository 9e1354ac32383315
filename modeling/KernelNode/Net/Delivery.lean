import KernelNode.Net.Peers

open bitcoin bitcoinkernel std.collections transition

namespace net

variable {C : Type} {kernelInst : ChainstateManager C}

/-- The hash is queued, in flight, buffered or handed to the block thread. -/
def NetState.Tracked (self : NetState C) (hash : BlockHash) : Prop :=
  hash ∈ self.node.download.queue ∨ hash ∈ self.node.download.in_flight ∨
    hash ∈ self.node.download.buffered_hashes ∨ hash ∈ self.handed.map bitcoinkernel.Block.hash

/-- An accepted block is decoded and finds no other block under its parent. -/
def Bufferable (kernelInst : ChainstateManager C) (state : NetState C) : NetAction → Prop
  | .receive peer _ event => ∀ state_machine, state.peers peer = some state_machine →
      ∀ block, accepted_block state_machine event state.node.download = some block →
      ∃ converted, block.convert kernelInst = some converted ∧
        ∀ other, state.node.download.buffer.lookup block.header.prev_blockhash = some other →
          other = converted
  | _ => True

theorem Bufferable.of_buffer_empty {state : NetState C} {peer : PeerId} {source : AddrV2}
    {event : NetworkMessage} (hempty : state.node.download.buffer = ∅)
    (hdecoded : ∀ block, event = .Block block → (block.convert kernelInst).isSome) :
    Bufferable kernelInst state (.receive peer source event) := by
  intro state_machine _ block haccepted
  obtain ⟨hdelivered, _⟩ := Option.filter_eq_some_iff.mp haccepted
  obtain ⟨converted, hconvert⟩ :=
    Option.isSome_iff_exists.mp (hdecoded block (event_of_delivered_block hdelivered))
  exact ⟨converted, hconvert, by simp [hempty]⟩

/-- A call changes the buffer only by the delivery of a block. -/
theorem Outcome.buffer {before after : NodeState C} {state_machine : PeerStateMachine}
    {event : NetworkMessage} {inventory : HashSet BlockHash} {requested : List BlockHash}
    (houtcome : Outcome kernelInst before state_machine event inventory requested after) :
    after.download.buffer = (accepted_block state_machine event before.download).elim
      before.download.buffer
      fun block => (block.convert kernelInst).elim before.download.buffer
        (before.download.buffer.insert block.header.prev_blockhash) := by
  cases houtcome with
  | quiet headers hchainman hdownload hdelivered => simp [accepted_block, hdelivered, hdownload]
  | sync hlength hchainman hbatch hafter =>
    have hbuffer := congrArg (fun result => result.2.buffer) hbatch
    simp only [DownloadState.pop_batch_buffer, populate_download_queue_buffer] at hbuffer
    simp [accepted_block, delivered_block, hafter, hbuffer]
  | announce hannounced hclaim hafter =>
    have hbuffer := congrArg (fun result => result.2.buffer) hclaim
    simp only [DownloadState.claim_buffer] at hbuffer
    simp [accepted_block, delivered_block, hafter, hbuffer]
  | @deliver_last state block download batch _ _ hlast hbatch hafter =>
    have hbuffer := congrArg (fun result => result.2.buffer) hbatch
    simp only [DownloadState.pop_batch_buffer, DownloadState.deliver_eq] at hbuffer
    simp only [hafter, accepted_block, delivered_block, Option.filter_some, decide_eq_true_eq,
      ← hbuffer]
    split <;> rfl
  | deliver _ hafter | refuse _ hafter =>
    simp only [hafter, DownloadState.deliver_eq, accepted_block, delivered_block,
      Option.filter_some, decide_eq_true_eq]
    split <;> rfl

/-- A call takes a hash off the queue only into flight, and out of flight only
    by an accepted delivery. -/
theorem Outcome.tracked {before after : NodeState C} {state_machine : PeerStateMachine}
    {event : NetworkMessage} {inventory : HashSet BlockHash} {requested : List BlockHash}
    (houtcome : Outcome kernelInst before state_machine event inventory requested after)
    (hash : BlockHash) :
    (hash ∈ before.download.queue → hash ∈ after.download.queue ∨ hash ∈ after.download.in_flight) ∧
    (hash ∈ before.download.in_flight → hash ∈ after.download.in_flight ∨
      ∃ block, accepted_block state_machine event before.download = some block ∧
        block.block_hash = hash) := by
  cases houtcome with
  | quiet headers hchainman hdownload hdelivered =>
    rw [hdownload]
    exact ⟨.inl, .inl⟩
  | @sync headers download chainman batch _ _ _ hbatch hafter =>
    have hclaims := (populate_download_queue kernelInst chainman before.download).pop_batch_claims
      DOWNLOAD_BATCH_SIZE
    have hqueue := (populate_download_queue kernelInst chainman before.download).pop_batch_queue
      DOWNLOAD_BATCH_SIZE hash
    rw [hbatch, populate_download_queue_in_flight] at hclaims
    rw [hbatch] at hqueue
    subst hafter
    refine ⟨fun hhash => hqueue.2.2 ?_, fun hhash => .inl ((hclaims.mem_iff hash).mpr (.inl hhash))⟩
    rcases populate_download_queue_cases kernelInst chainman before.download with
      hsame | ⟨hempty, _⟩
    · rwa [hsame]
    · simp [hempty] at hhash
  | @announce headers download chainman announced claimed _ _ hclaim hafter =>
    have hclaims := before.download.claim_claims announced
    have hqueue := before.download.claim_queue announced
    rw [hclaim] at hclaims hqueue
    subst hafter
    exact ⟨fun hhash => .inl (hqueue ▸ hhash), fun hhash =>
      .inl ((hclaims.mem_iff hash).mpr (.inl hhash))⟩
  | @deliver state block _ _ hafter | @refuse state block _ _ hafter =>
    subst hafter
    simp only [DownloadState.deliver_eq]
    refine ⟨.inl, fun hhash => ?_⟩
    by_cases hsame : hash = block.block_hash
    · subst hsame
      exact .inr ⟨block, by simp [accepted_block, delivered_block, hhash], rfl⟩
    · exact .inl (AList.mem_erase.mpr ⟨hsame, hhash⟩)
  | @deliver_last state block download batch _ _ hlast hbatch hafter =>
    have hclaims := (before.download.deliver kernelInst block).2.pop_batch_claims
      DOWNLOAD_BATCH_SIZE
    have hqueue := (before.download.deliver kernelInst block).2.pop_batch_queue
      DOWNLOAD_BATCH_SIZE hash
    rw [hbatch, DownloadState.deliver_eq] at hclaims hqueue
    subst hafter
    refine ⟨hqueue.2.2, fun hhash => ?_⟩
    by_cases hsame : hash = block.block_hash
    · subst hsame
      exact .inr ⟨block, by simp [accepted_block, delivered_block, hhash], rfl⟩
    · exact .inl ((hclaims.mem_iff hash).mpr (.inl (AList.mem_erase.mpr ⟨hsame, hhash⟩)))

/-- Where an accepted block is decoded and finds no other block under its parent, a
    call keeps every buffered block and adds the accepted one. -/
theorem Outcome.buffer_lookup {before after : NodeState C} {state_machine : PeerStateMachine}
    {event : NetworkMessage} {inventory : HashSet BlockHash} {requested : List BlockHash}
    (houtcome : Outcome kernelInst before state_machine event inventory requested after)
    (hfree : ∀ block, accepted_block state_machine event before.download = some block →
      ∃ converted, block.convert kernelInst = some converted ∧
        ∀ other, before.download.buffer.lookup block.header.prev_blockhash = some other →
          other = converted) :
    (∀ prev block, before.download.buffer.lookup prev = some block →
      after.download.buffer.lookup prev = some block) ∧
    (∀ block, accepted_block state_machine event before.download = some block →
      ∃ held ∈ block.convert kernelInst,
        after.download.buffer.lookup block.header.prev_blockhash = some held) := by
  rw [houtcome.buffer]
  cases haccepted : accepted_block state_machine event before.download with
  | none => simp
  | some block =>
    obtain ⟨converted, hconvert, hsame⟩ := hfree block haccepted
    simp only [Option.elim_some, hconvert]
    refine ⟨fun prev other hother => ?_, ?_⟩
    · by_cases hprev : prev = block.header.prev_blockhash
      · subst hprev
        rw [AList.lookup_insert, hsame other hother]
      · rwa [AList.lookup_insert_ne hprev]
    · rintro _ ⟨rfl⟩
      exact ⟨converted, hconvert, AList.lookup_insert _⟩

/-- The accepted blocks that have not been handed out are in the buffer under
    their parents. -/
def NetState.Buffered (kernelInst : ChainstateManager C) (self : NetState C) : Prop :=
  ∀ block ∈ self.accepted, ∃ held ∈ block.convert kernelInst,
    self.node.download.buffer.lookup block.header.prev_blockhash = some held

theorem NetStep.buffered {state after : NetState C} {action : NetAction}
    (hstep : NetStep kernelInst state action after) (hfree : Bufferable kernelInst state action)
    (hbuffered : state.Buffered kernelInst) : after.Buffered kernelInst := by
  cases hstep with
  | connect peer hnone hnew => exact hbuffered
  | @receive peer state_machine source event hpeer =>
    obtain ⟨hkept, hadded⟩ :=
      (process_message_outcome kernelInst state_machine event source state.node).buffer_lookup
      (hfree state_machine hpeer)
    intro block hblock
    rcases List.mem_append.mp hblock with hold | hnew
    · obtain ⟨held, hheld, hlookup⟩ := hbuffered block hold
      exact ⟨held, hheld, hkept _ held hlookup⟩
    · exact hadded block (Option.mem_toList.mp hnew)
  | @disconnect peer state_machine order hpeer =>
    intro block hblock
    simpa using hbuffered block hblock
  | @take_connectable order block download hidle htake =>
    obtain ⟨prev, hprev, rfl, _⟩ := DownloadState.take_connectable_eq_some _ htake
    intro other hother
    obtain ⟨hmem, hother⟩ := List.mem_filter.mp hother
    obtain ⟨held, hheld, hlookup⟩ := hbuffered other hmem
    have hne : held ≠ block := by
      rintro rfl
      simp [Option.mem_def.mp hheld] at hother
    have hkey : other.header.prev_blockhash ≠ prev := by
      rintro rfl
      exact hne (Option.some.inj (hlookup.symm.trans hprev))
    exact ⟨held, hheld, (AList.lookup_erase_ne hkey).trans hlookup⟩
  | take_nothing order hidle htake =>
    obtain rfl := DownloadState.take_connectable_eq_none _ htake
    exact hbuffered
  | process_block hbusy => exact hbuffered

/-- No step loses a hash. -/
theorem NetStep.tracked {state after : NetState C} {action : NetAction}
    (hstep : NetStep kernelInst state action after) (hfree : Bufferable kernelInst state action)
    {hash : BlockHash} (htracked : state.Tracked hash) : after.Tracked hash := by
  cases hstep with
  | connect peer hnone hnew => exact htracked
  | @receive peer state_machine source event hpeer =>
    have houtcome := process_message_outcome kernelInst state_machine event source state.node
    obtain ⟨hkept, hadded⟩ := houtcome.buffer_lookup (hfree state_machine hpeer)
    obtain ⟨hqueue, hflight⟩ := houtcome.tracked hash
    rcases htracked with hhash | hhash | hhash | hhash
    · exact (hqueue hhash).imp id .inl
    · rcases hflight hhash with hhash | ⟨block, haccepted, rfl⟩
      · exact .inr (.inl hhash)
      · obtain ⟨held, hheld, hlookup⟩ := hadded block haccepted
        exact .inr (.inr
          (.inl ((DownloadState.mem_buffered_hashes _ _).mpr
            ⟨_, held, hlookup, Block.convert_hash hheld⟩)))
    · obtain ⟨prev, block, hlookup, rfl⟩ := (DownloadState.mem_buffered_hashes _ _).mp hhash
      exact .inr (.inr
        (.inl ((DownloadState.mem_buffered_hashes _ _).mpr
          ⟨prev, block, hkept prev block hlookup, rfl⟩)))
    · exact .inr (.inr (.inr hhash))
  | @disconnect peer state_machine order hpeer =>
    have hqueue := state_machine.release_in_flight_queue order state.node.download
    rcases htracked with hhash | hhash | hhash | hhash
    · exact .inl (hqueue.mem_iff.mpr (List.mem_append_right _ hhash))
    · by_cases howed : hash ∈ state_machine.inventory
      · exact .inl (hqueue.mem_iff.mpr (List.mem_append_left _ howed))
      · exact .inr (.inl ((state_machine.mem_release_in_flight order state.node.download hash).mpr
          ⟨howed, hhash⟩))
    · refine .inr (.inr (.inl ?_))
      simpa only [DownloadState.buffered_hashes,
        PeerStateMachine.release_in_flight_buffer] using hhash
    · exact .inr (.inr (.inr hhash))
  | @take_connectable order block download hidle htake =>
    obtain ⟨prev, hprev, rfl, _⟩ := DownloadState.take_connectable_eq_some _ htake
    rcases htracked with hhash | hhash | hhash | hhash
    · exact .inl hhash
    · exact .inr (.inl hhash)
    · rcases DownloadState.mem_buffered_hashes_erase _ hprev hhash with rfl | hhash
      · exact .inr (.inr (.inr (by simp)))
      · exact .inr (.inr (.inl hhash))
    · refine .inr (.inr (.inr ?_))
      rw [List.map_append]
      exact List.mem_append_left _ hhash
  | take_nothing order hidle htake =>
    obtain rfl := DownloadState.take_connectable_eq_none _ htake
    exact htracked
  | process_block hbusy => exact htracked

/-- In every run in which each accepted block is decoded and finds no other block
    under its parent: an accepted block is in the buffer until it is handed out, and
    a hash that was queued or in flight stays queued, in flight, buffered or handed
    out. -/
theorem no_block_lost (kernelInst : ChainstateManager C) {state : NetState C}
    (hreach : ((net_system kernelInst).restrict (Bufferable kernelInst)).Reachable state) :
    state.Buffered kernelInst ∧
    ∀ later labels, ((net_system kernelInst).restrict (Bufferable kernelInst)).Run state labels
      later → ∀ hash, hash ∈ state.node.download.queue ∨ hash ∈ state.node.download.in_flight →
        later.Tracked hash := by
  constructor
  · refine hreach.invariant (P := NetState.Buffered kernelInst) ?_ ?_
    · intro first hfresh block hblock
      simp [hfresh.accepted] at hblock
    · rintro before action after hbuffered ⟨hfree, hstep⟩
      exact hstep.buffered hfree hbuffered
  · intro later labels hrun hash hhash
    refine hrun.preserves (P := fun state => state.Tracked hash) ?_ (hhash.imp id .inl)
    rintro before action after htracked ⟨hfree, hstep⟩
    exact hstep.tracked hfree htracked

instance (state : NetState C) (hash : BlockHash) : Decidable (state.Tracked hash) :=
  inferInstanceAs (Decidable (_ ∨ _))

instance (state : NetState C) : Decidable (state.Buffered kernelInst) :=
  inferInstanceAs (Decidable (∀ block ∈ state.accepted, _))

/-- The peer delivers the block, which is in the buffer. -/
theorem no_block_lost_delivered :
    ∃ later labels, ((net_system regtest.kernel).restrict (Bufferable regtest.kernel)).Run
      regtest_requested labels later ∧
      later.accepted = [regtest_block (regtest_header 1)] ∧
        later.Tracked (regtest.block_hash 1) := by
  let delivery : NetworkMessage := .Block (regtest_block (regtest_header 1))
  have hrequested : ((net_system regtest.kernel).restrict (Bufferable regtest.kernel)).Reachable
      regtest_requested :=
    regtest_requested_reachable trivial (.of_buffer_empty rfl (by simp))
  have hdecoded : ∀ block, delivery = .Block block → (block.convert regtest.kernel).isSome := by
    intro block hblock
    obtain rfl := NetworkMessage.Block.inj hblock
    decide
  have hrun : ((net_system regtest.kernel).restrict (Bufferable regtest.kernel)).Run
      regtest_requested [.receive 0 regtest_source delivery]
      (regtest_requested.receive regtest.kernel 0 (regtest_owes 1) regtest_source delivery) :=
    .snoc (.nil _) ⟨.of_buffer_empty rfl hdecoded, NetStep.receive 0 regtest_source delivery rfl⟩
  exact ⟨_, _, hrun, rfl, (no_block_lost regtest.kernel hrequested).2 _ _ hrun _ (by decide)⟩

/-- A block that competes with the first one: another hash on the same parent. -/
def regtest_sibling : bitcoin.Block := regtest_block ⟨regtest.block_hash 0x11, regtest.block_hash 0⟩

/-- A second peer announces the competing block and is asked for it. -/
def regtest_competing : NetState regtest.Chainstate :=
  (((regtest_requested.join 1 .AwaitingHeaders).receive regtest.kernel 1 .AwaitingHeaders
    regtest_source
    (.Headers [regtest_header 1])).receive regtest.kernel 1 .AwaitingInv regtest_source
    (.Headers [regtest_sibling.header]))

/-- Both peers deliver the block they owe: the second one replaces the first in the
    buffer, and the first is in none of the places. So is a block that the kernel
    does not decode, whose peer has panicked. -/
theorem accepted_block_lost :
    (∃ labels later, (net_system regtest.kernel).Reachable regtest_competing ∧
      regtest.block_hash 1 ∈ regtest_competing.node.download.in_flight ∧
      (net_system regtest.kernel).Run regtest_competing labels later ∧
      ¬ later.Buffered regtest.kernel ∧ ¬ later.Tracked (regtest.block_hash 1)) ∧
    ∃ labels later, (net_system regtest.kernel).Reachable regtest_requested ∧
      regtest.block_hash 1 ∈ regtest_requested.node.download.in_flight ∧
      (net_system regtest.kernel).Run regtest_requested labels later ∧
      ¬ later.Buffered regtest.kernel ∧ ¬ later.Tracked (regtest.block_hash 1) := by
  let delivery : NetworkMessage := .Block (regtest_block (regtest_header 1))
  let refused : NetworkMessage := .Block (regtest_refused (regtest_header 1))
  have hallowed : ((net_system regtest.kernel).restrict fun _ _ => True).Reachable
      regtest_requested := regtest_requested_reachable trivial trivial
  have hrequested := hallowed.of_restrict
  have hcompeting : (net_system regtest.kernel).Reachable regtest_competing :=
    ((hrequested.step (NetStep.connect 1 rfl rfl)).step
      (NetStep.receive 1 regtest_source (.Headers [regtest_header 1]) rfl)).step
      (NetStep.receive 1 regtest_source (.Headers [regtest_sibling.header]) rfl)
  have hreplaced : (net_system regtest.kernel).Run regtest_competing
      [.receive 0 regtest_source delivery, .receive 1 regtest_source (.Block regtest_sibling)]
      ((regtest_competing.receive regtest.kernel 0 (regtest_owes 1) regtest_source delivery).receive
        regtest.kernel 1 (regtest_owes 0x11) regtest_source (.Block regtest_sibling)) :=
    .snoc (.snoc (.nil _) (NetStep.receive 0 regtest_source delivery rfl))
      (NetStep.receive 1 regtest_source (.Block regtest_sibling) rfl)
  have hrefused : (net_system regtest.kernel).Run regtest_requested
      [.receive 0 regtest_source refused]
      (regtest_requested.receive regtest.kernel 0 (regtest_owes 1) regtest_source refused) :=
    .snoc (.nil _) (NetStep.receive 0 regtest_source refused rfl)
  exact ⟨⟨_, _, hcompeting, by decide, hreplaced, by decide, by decide⟩,
    ⟨_, _, hrequested, by decide, hrefused, by decide, by decide⟩⟩

end net
