import KernelNode.Net.Peers

open bitcoin bitcoinkernel std.collections transition

namespace bitcoinkernel

/-- The active chain contains every block that has been processed, from then on. -/
structure ChainstateManager.Keeps {C : Type} (kernelInst : ChainstateManager C) : Prop where
  processed : ∀ chainman block, kernelInst.active_contains (kernelInst.process_block chainman block)
    block.hash = true
  process_block_active : ∀ chainman block hash, kernelInst.active_contains chainman hash = true →
    kernelInst.active_contains (kernelInst.process_block chainman block) hash = true
  process_block_header_active : ∀ chainman header hash, kernelInst.active_contains chainman hash =
    true →
    kernelInst.active_contains (kernelInst.process_block_header chainman header).2 hash = true

end bitcoinkernel

namespace net

variable {C : Type} {kernelInst : ChainstateManager C}

/-- The block is in flight, buffered, being validated or on the active chain. -/
def Settled (kernelInst : ChainstateManager C) (node : NodeState C)
    (validating : Option bitcoinkernel.Block) (hash : BlockHash) : Prop :=
  hash ∈ node.download.in_flight ∨ hash ∈ node.download.buffered_hashes ∨
    (∃ block, validating = some block ∧ block.hash = hash) ∨
    kernelInst.active_contains node.chainman hash = true

/-- The block being validated is not a block of the best header chain that would
    be downloaded. -/
def NotMissing (kernelInst : ChainstateManager C) (chainman : C) (download : DownloadState)
    (validating : Option bitcoinkernel.Block) : Prop :=
  ∀ block best, validating = some block → kernelInst.best_entry chainman = some best →
    block.hash ∈ best.hashes →
    block.hash ∈ download.buffered_hashes ∨ block.hash ∈ download.in_flight ∨
      kernelInst.active_contains chainman block.hash = true

/-- What a call may meet: an empty queue is filled only where the block being
    validated is not missing, an announced block is in flight or new, and an
    accepted block is decoded and does not replace another one. -/
def FreshCall (kernelInst : ChainstateManager C) (node : NodeState C)
    (validating : Option bitcoinkernel.Block) :
    PeerStateMachine → NetworkMessage → Prop
  | .AwaitingHeaders, .Headers headers => headers.length ≠ 2000 → node.download.queue = [] →
      NotMissing kernelInst (accept_headers kernelInst node.chainman headers).2
        node.download validating
  | .AwaitingInv, .Headers headers => ∀ hash ∈ (accept_headers kernelInst node.chainman headers).1,
      hash ∈ node.download.in_flight ∨
        hash ∉ node.download.queue ∧ ¬ Settled kernelInst node validating hash
  | .AwaitingBlock _, .Block block => ¬ node.download.Refused kernelInst block ∧
      (block.block_hash ∈ node.download.in_flight →
        ∀ other, node.download.buffer.lookup block.header.prev_blockhash = some other →
          other.hash = block.block_hash)
  | _, _ => True

/-- Peers stay connected and every call is fresh. -/
def FetchesFresh (kernelInst : ChainstateManager C) (state : NetState C) : NetAction → Prop
  | .receive peer _ event => ∀ state_machine, state.peers peer = some state_machine →
      FreshCall kernelInst state.node state.validating state_machine event
  | .disconnect _ _ => False
  | _ => True

/-- Building the queue is fresh while no block is being validated. -/
theorem FetchesFresh.of_idle {state : NetState C} {peer : PeerId} {source : AddrV2}
    {headers : List Header} (hpeer : state.peers peer = some .AwaitingHeaders)
    (hidle : state.validating = none) :
    FetchesFresh kernelInst state (.receive peer source (.Headers headers)) := by
  intro state_machine hmachine
  obtain rfl := Option.some.inj (hmachine.symm.trans hpeer)
  simp [FreshCall, NotMissing, hidle]

/-- Peers stay connected and send only blocks they owe, which the kernel decodes. -/
def Polite (kernelInst : ChainstateManager C) (state : NetState C) : NetAction → Prop
  | .disconnect _ _ => False
  | .receive peer _ (.Block block) => block.block_hash ∈ state.inventory peer ∧
      ¬ state.node.download.Refused kernelInst block
  | _ => True

/-- Every requested block is settled, and what is queued is yet to be requested. -/
structure FetchInvariant (kernelInst : ChainstateManager C) (node : NodeState C)
    (validating : Option bitcoinkernel.Block) (requested : List BlockHash) : Prop where
  nodup : requested.Nodup
  settled : ∀ hash ∈ requested, Settled kernelInst node validating hash
  queue_nodup : node.download.queue.Nodup
  queue_new : ∀ hash ∈ node.download.queue, hash ∉ requested

theorem accept_headers_active (hkeeps : kernelInst.Keeps) {chainman : C} {hash : BlockHash}
    (hactive : kernelInst.active_contains chainman hash = true) (headers : List Header) :
    kernelInst.active_contains (accept_headers kernelInst chainman headers).2 hash = true := by
  induction headers generalizing chainman with
  | nil => exact hactive
  | cons header headers ih =>
    have hnext := hkeeps.process_block_header_active chainman header hash hactive
    simp only [accept_headers]
    split
    · rename_i chainman' hvalid
      rw [hvalid] at hnext
      exact ih hnext
    · rename_i chainman' _ hrefused
      rwa [hrefused] at hnext

/-- A batch from a queue of new hashes is new, and what remains queued is new. -/
theorem DownloadState.pop_batch_new (self : DownloadState) (batch_size : Nat)
    {requested : List BlockHash} (hnodup : requested.Nodup) (hqueue : self.queue.Nodup)
    (hnew : ∀ hash ∈ self.queue, hash ∉ requested) :
    (requested ++ (self.pop_batch batch_size).1).Nodup ∧ (self.pop_batch batch_size).2.queue.Nodup ∧
      ∀ hash ∈ (self.pop_batch batch_size).2.queue, hash ∉ requested ++
        (self.pop_batch batch_size).1 := by
  have hbatch := (self.pop_batch_claims batch_size).nodup
  obtain ⟨popped, rest, hsplit, hpop⟩ := self.pop_batch_eq batch_size
  have hsubset : ∀ hash ∈ (self.pop_batch batch_size).1, hash ∈ popped := by
    rw [hpop]
    exact fun hash => (insert_new_mem popped self.in_flight hash).2
  have hrest : (self.pop_batch batch_size).2.queue = rest := by rw [hpop]
  rw [hsplit] at hqueue hnew
  obtain ⟨_, hrest_nodup, hdisjoint⟩ := List.nodup_append'.mp hqueue
  rw [hrest]
  refine ⟨List.nodup_append'.mpr ⟨hnodup, hbatch, ?_⟩, hrest_nodup, ?_⟩
  · intro hash hold hhash
    exact hnew hash (List.mem_append_left _ (hsubset hash hhash)) hold
  · intro hash hhash hmem
    rcases List.mem_append.mp hmem with hold | hbatched
    · exact hnew hash (List.mem_append_right _ hhash) hold
    · exact hdisjoint (hsubset hash hbatched) hhash

/-- What is taken out of flight by a delivery is in the buffer, unless it is not
    decoded or another block is replaced there. -/
theorem Settled.deliver {before : NodeState C} {validating : Option bitcoinkernel.Block}
    {block : bitcoin.Block} {hash : BlockHash}
    (hsettled : Settled kernelInst before validating hash)
    (hdecoded : ¬ before.download.Refused kernelInst block)
    (hfree : block.block_hash ∈ before.download.in_flight →
      ∀ other, before.download.buffer.lookup block.header.prev_blockhash = some other →
        other.hash = block.block_hash) :
    Settled kernelInst { before with download := (before.download.deliver kernelInst block).2 }
      validating hash := by
  rw [DownloadState.deliver_eq]
  by_cases hflight : block.block_hash ∈ before.download.in_flight
  · obtain ⟨converted, hconvert⟩ : ∃ converted, block.convert kernelInst = some converted :=
      Option.ne_none_iff_exists'.mp fun hnone => hdecoded ⟨hflight, hnone⟩
    simp only [hflight, if_true, hconvert, Option.elim_some]
    have hnew : ∀ download : DownloadState, download.buffer = before.download.buffer.insert
        block.header.prev_blockhash converted →
        block.block_hash ∈ download.buffered_hashes := by
      intro download hbuffer
      exact (DownloadState.mem_buffered_hashes _ _).mpr
        ⟨block.header.prev_blockhash, converted, by rw [hbuffer, AList.lookup_insert],
          Block.convert_hash hconvert⟩
    rcases hsettled with hhash | hhash | hhash | hhash
    · by_cases hsame : hash = block.block_hash
      · subst hsame
        exact .inr (.inl (hnew _ rfl))
      · exact .inl (AList.mem_erase.mpr ⟨hsame, hhash⟩)
    · obtain ⟨prev, other, hlookup, rfl⟩ := (DownloadState.mem_buffered_hashes _ _).mp hhash
      by_cases hprev : prev = block.header.prev_blockhash
      · subst hprev
        rw [hfree hflight other hlookup]
        exact .inr (.inl (hnew _ rfl))
      · exact .inr (.inl ((DownloadState.mem_buffered_hashes _ _).mpr
          ⟨prev, other, by rwa [AList.lookup_insert_ne hprev], rfl⟩))
    · exact .inr (.inr (.inl hhash))
    · exact .inr (.inr (.inr hhash))
  · simp only [hflight, if_false]
    refine hsettled.imp ?_ id
    intro hhash
    exact AList.mem_erase.mpr ⟨fun hsame => hflight (hsame ▸ hhash), hhash⟩

/-- What is settled stays settled while hashes are claimed and headers are
    processed. -/
theorem Settled.mono (hkeeps : kernelInst.Keeps) {before after : NodeState C}
    {validating : Option bitcoinkernel.Block} {hash : BlockHash}
    (hsettled : Settled kernelInst before validating hash)
    (hflight : ∀ hash ∈ before.download.in_flight, hash ∈ after.download.in_flight)
    (hbuffer : after.download.buffer = before.download.buffer) {headers : List Header}
    (hchainman : after.chainman = (accept_headers kernelInst before.chainman headers).2) :
    Settled kernelInst after validating hash := by
  rcases hsettled with hhash | hhash | hhash | hhash
  · exact .inl (hflight hash hhash)
  · refine .inr (.inl ?_)
    rwa [DownloadState.buffered_hashes, hbuffer]
  · exact .inr (.inr (.inl hhash))
  · refine .inr (.inr (.inr ?_))
    rw [hchainman]
    exact accept_headers_active hkeeps hhash headers

/-- A batch taken from a queue of new hashes keeps the invariant. -/
theorem FetchInvariant.pop_batch {node : NodeState C} {validating : Option bitcoinkernel.Block}
    {requested : List BlockHash} (hinv : FetchInvariant kernelInst node validating requested)
    (batch_size : Nat) :
    FetchInvariant kernelInst { node with download := (node.download.pop_batch batch_size).2 }
      validating (requested ++ (node.download.pop_batch batch_size).1) := by
  obtain ⟨hnodup, hqueue, hnew⟩ := node.download.pop_batch_new batch_size hinv.nodup
    hinv.queue_nodup hinv.queue_new
  have hclaims := node.download.pop_batch_claims batch_size
  refine ⟨hnodup, fun hash hhash => ?_, hqueue, hnew⟩
  rcases List.mem_append.mp hhash with hold | hbatch
  · exact (hinv.settled hash hold).imp (fun hflight => (hclaims.mem_iff hash).mpr (.inl hflight)) id
  · exact .inl ((hclaims.mem_iff hash).mpr (.inr hbatch))

/-- A built queue is new where the block being validated is not missing. -/
theorem FetchInvariant.populate (hkeeps : kernelInst.Keeps) {node : NodeState C}
    {validating : Option bitcoinkernel.Block} {requested : List BlockHash} {headers : List Header}
    {chainman : C} (hinv : FetchInvariant kernelInst node validating requested)
    (hchainman : (accept_headers kernelInst node.chainman headers).2 = chainman)
    (hfresh : node.download.queue = [] → NotMissing kernelInst chainman node.download validating) :
    FetchInvariant kernelInst
      { node with chainman, download := populate_download_queue kernelInst chainman node.download }
      validating requested := by
  have hsettled : ∀ hash ∈ requested, Settled kernelInst
      { node with chainman, download := populate_download_queue kernelInst chainman node.download }
      validating hash := by
    intro hash hhash
    refine (hinv.settled hash hhash).mono hkeeps ?_ (populate_download_queue_buffer _ _ _)
      hchainman.symm
    rw [populate_download_queue_in_flight]
    exact fun _ => id
  rcases populate_download_queue_queue kernelInst chainman node.download with
    hsame | ⟨hempty, hnodup, hnew⟩
  · refine ⟨hinv.nodup, hsettled, ?_, ?_⟩
    · rw [hsame]
      exact hinv.queue_nodup
    · rw [hsame]
      exact hinv.queue_new
  · refine ⟨hinv.nodup, hsettled, hnodup, fun hash hqueue hrequested => ?_⟩
    obtain ⟨⟨best, hbest, hmem⟩, hbuffered, hflight, hinactive⟩ := hnew hash hqueue
    rcases hsettled hash hrequested with hhash | hhash | ⟨block, hvalidating, rfl⟩ | hhash
    · rw [populate_download_queue_in_flight] at hhash
      exact hflight hhash
    · rw [DownloadState.buffered_hashes, populate_download_queue_buffer] at hhash
      exact hbuffered hhash
    · rcases hfresh hempty block best hvalidating hbest hmem with hhash | hhash | hhash
      · exact hbuffered hhash
      · exact hflight hhash
      · rw [hinactive] at hhash
        cases hhash
    · rw [hinactive] at hhash
      cases hhash

/-- A delivery that is decoded and replaces no other block keeps the invariant. -/
theorem FetchInvariant.deliver {node : NodeState C} {validating : Option bitcoinkernel.Block}
    {requested : List BlockHash} {block : bitcoin.Block}
    (hinv : FetchInvariant kernelInst node validating requested)
    (hdecoded : ¬ node.download.Refused kernelInst block)
    (hfree : block.block_hash ∈ node.download.in_flight →
      ∀ other, node.download.buffer.lookup block.header.prev_blockhash = some other →
        other.hash = block.block_hash) :
    FetchInvariant kernelInst
      { node with download := (node.download.deliver kernelInst block).2 } validating
      requested := by
  refine ⟨hinv.nodup, fun hash hhash => (hinv.settled hash hhash).deliver hdecoded hfree, ?_, ?_⟩
  · simpa [DownloadState.deliver_eq] using hinv.queue_nodup
  · simpa [DownloadState.deliver_eq] using hinv.queue_new

/-- Announced hashes that are in flight or new keep the invariant: what is
    claimed was not in flight. -/
theorem FetchInvariant.claim (hkeeps : kernelInst.Keeps) {node : NodeState C}
    {validating : Option bitcoinkernel.Block} {requested : List BlockHash} {headers : List Header}
    {announced claimed : List BlockHash} {download : DownloadState} {chainman : C}
    (hinv : FetchInvariant kernelInst node validating requested)
    (hannounced : accept_headers kernelInst node.chainman headers = (announced, chainman))
    (hclaim : node.download.claim announced = (claimed, download))
    (hfresh : ∀ hash ∈ announced, hash ∈ node.download.in_flight ∨
      hash ∉ node.download.queue ∧ ¬ Settled kernelInst node validating hash) :
    FetchInvariant kernelInst { node with chainman, download } validating
      (requested ++ claimed) := by
  have hclaims := node.download.claim_claims announced
  have hsubset := node.download.claim_subset announced
  have hqueue := node.download.claim_queue announced
  have hbuffer := node.download.claim_buffer announced
  rw [hclaim] at hclaims hsubset hqueue hbuffer
  have hnew : ∀ hash ∈ claimed, hash ∉ node.download.queue ∧
    ¬ Settled kernelInst node validating hash :=
    fun hash hhash => (hfresh hash (hsubset hhash)).resolve_left (hclaims.free hash hhash)
  refine ⟨List.nodup_append'.mpr ⟨hinv.nodup, hclaims.nodup, ?_⟩, ?_, ?_, ?_⟩
  · intro hash hold hhash
    exact (hnew hash hhash).2 (hinv.settled hash hold)
  · intro hash hhash
    rcases List.mem_append.mp hhash with hold | hhash
    · exact (hinv.settled hash hold).mono hkeeps
        (fun hash hflight => (hclaims.mem_iff hash).mpr (.inl hflight)) hbuffer
        (congrArg Prod.snd hannounced).symm
    · exact .inl ((hclaims.mem_iff hash).mpr (.inr hhash))
  · rw [hqueue]
    exact hinv.queue_nodup
  · rw [hqueue]
    intro hash hhash hmem
    rcases List.mem_append.mp hmem with hold | hclaimed
    · exact hinv.queue_new hash hhash hold
    · exact (hnew hash hclaimed).1 hhash

theorem FetchInvariant.outcome (hkeeps : kernelInst.Keeps) {before after : NodeState C}
    {validating : Option bitcoinkernel.Block} {requested new : List BlockHash}
    {state_machine : PeerStateMachine} {event : NetworkMessage} {inventory : HashSet BlockHash}
    (hinv : FetchInvariant kernelInst before validating requested)
    (houtcome : Outcome kernelInst before state_machine event inventory new after)
    (hfresh : FreshCall kernelInst before validating state_machine event) :
    FetchInvariant kernelInst after validating (requested ++ new) := by
  cases houtcome with
  | quiet headers hchainman hdownload hdelivered =>
    rw [List.append_nil]
    refine ⟨hinv.nodup, fun hash hhash => ?_, ?_, ?_⟩
    · exact (hinv.settled hash hhash).mono hkeeps (by simp [hdownload])
        (by rw [hdownload]) hchainman
    · rw [hdownload]
      exact hinv.queue_nodup
    · rw [hdownload]
      exact hinv.queue_new
  | @sync headers download chainman _ _ hlength hchainman hbatch hafter =>
    have hpopulated := hinv.populate hkeeps hchainman (by
      rw [← hchainman]
      exact hfresh hlength)
    have hpopped := hpopulated.pop_batch DOWNLOAD_BATCH_SIZE
    rw [hbatch] at hpopped
    rwa [hafter]
  | @announce headers download chainman announced _ _ hannounced hclaim hafter =>
    simp only [FreshCall, hannounced] at hfresh
    subst hafter
    exact hinv.claim hkeeps hannounced hclaim hfresh
  | deliver hdecoded hafter =>
    rw [hafter, List.append_nil]
    exact hinv.deliver hdecoded hfresh.2
  | deliver_last hdecoded hlast hbatch hafter =>
    have hpopped := (hinv.deliver hdecoded hfresh.2).pop_batch DOWNLOAD_BATCH_SIZE
    rw [hbatch] at hpopped
    rwa [hafter]
  | refuse hrefused hafter => exact absurd hrefused hfresh.1

theorem FetchInvariant.step (hkeeps : kernelInst.Keeps) {state after : NetState C}
    {action : NetAction}
    (hinv : FetchInvariant kernelInst state.node state.validating state.requested)
    (hallowed : FetchesFresh kernelInst state action)
    (hstep : NetStep kernelInst state action after) :
    FetchInvariant kernelInst after.node after.validating after.requested := by
  cases hstep with
  | connect peer hnone hnew => exact hinv
  | @receive peer state_machine source event hpeer =>
    exact hinv.outcome hkeeps (process_message_outcome kernelInst state_machine event
      source state.node)
      (hallowed state_machine hpeer)
  | disconnect peer order hpeer => exact hallowed.elim
  | @take_connectable order block download hidle htake =>
    obtain ⟨prev, hprev, rfl, _⟩ := DownloadState.take_connectable_eq_some _ htake
    refine ⟨hinv.nodup, fun hash hhash => ?_, hinv.queue_nodup, hinv.queue_new⟩
    rcases hinv.settled hash hhash with hhash | hhash | ⟨other, hbusy, _⟩ | hhash
    · exact .inl hhash
    · rcases DownloadState.mem_buffered_hashes_erase _ hprev hhash with rfl | hhash
      · exact .inr (.inr (.inl ⟨block, rfl, rfl⟩))
      · exact .inr (.inl hhash)
    · rw [hidle] at hbusy
      cases hbusy
    · exact .inr (.inr (.inr hhash))
  | take_nothing order hidle htake =>
    obtain rfl := DownloadState.take_connectable_eq_none _ htake
    exact hinv
  | @process_block block hbusy =>
    refine ⟨hinv.nodup, fun hash hhash => ?_, hinv.queue_nodup, hinv.queue_new⟩
    rcases hinv.settled hash hhash with hhash | hhash | ⟨other, hvalidating, rfl⟩ | hhash
    · exact .inl hhash
    · exact .inr (.inl hhash)
    · obtain rfl : block = other := Option.some.inj (hbusy.symm.trans hvalidating)
      exact .inr (.inr (.inr (hkeeps.processed _ block)))
    · exact .inr (.inr (.inr (hkeeps.process_block_active _ block hash hhash)))

/-- In every run in which peers stay connected and every call is fresh, no block
    is requested twice, by whatever peer. -/
theorem requested_once (kernelInst : ChainstateManager C) (hkeeps : kernelInst.Keeps)
    {state : NetState C}
    (hreach : ((net_system kernelInst).restrict (FetchesFresh kernelInst)).Reachable state) :
    state.requested.Nodup := by
  have hinv : FetchInvariant kernelInst state.node state.validating state.requested := by
    refine hreach.invariant (P := fun state => FetchInvariant kernelInst state.node state.validating
      state.requested) ?_ ?_
    · intro first hfresh
      refine ⟨?_, ?_, ?_, ?_⟩ <;> simp [hfresh.requested, hfresh.download, DownloadState.default]
    · rintro before action after hinv ⟨hallowed, hstep⟩
      exact hinv.step hkeeps hallowed hstep
  exact hinv.nodup

theorem regtest_kernel_keeps : regtest.kernel.Keeps where
  processed chainman block := by simp [regtest.kernel]
  process_block_active chainman block hash hactive := by
    simp only [regtest.kernel, decide_eq_true_eq] at hactive ⊢
    exact List.mem_cons_of_mem _ hactive
  process_block_header_active chainman header hash hactive := by
    simp only [regtest.kernel]
    split
    · exact hactive
    · split <;> exact hactive

/-- Two peers are asked for one block each. -/
theorem requested_once_two_peers :
    ∃ state, ((net_system regtest.kernel).restrict (FetchesFresh regtest.kernel)).Reachable state ∧
      state.requested = [regtest.block_hash 1, regtest.block_hash 2] ∧ state.requested.Nodup := by
  have hreach : ((net_system regtest.kernel).restrict (FetchesFresh regtest.kernel)).Reachable
    regtest_two_peers :=
    regtest_two_peers_reachable (regtest_requested_reachable trivial (.of_idle rfl rfl)) trivial
      (.of_idle rfl rfl)
  exact ⟨_, hreach, rfl, requested_once regtest.kernel regtest_kernel_keeps hreach⟩

/-- A block is requested, delivered, connected and announced again by the same
    peer: it is requested a second time. -/
theorem announced_again_requested_again :
    ∃ state, ((net_system regtest.kernel).restrict (Polite regtest.kernel)).Reachable state ∧
      state.requested = [regtest.block_hash 1, regtest.block_hash 1] := by
  have hrequested : ((net_system regtest.kernel).restrict (Polite regtest.kernel)).Reachable
      regtest_requested :=
    regtest_requested_reachable trivial trivial
  have howed : regtest.block_hash 1 ∈ regtest_requested.inventory 0 ∧
    ¬ regtest_requested.node.download.Refused regtest.kernel
      (regtest_block (regtest_header 1)) := by decide
  have hdelivered := hrequested.step_restrict
    (NetStep.receive 0 regtest_source (.Block (regtest_block (regtest_header 1))) rfl) howed
  have hconnected :=
    (hdelivered.step_restrict (NetStep.take_connectable .id rfl rfl) trivial).step_restrict
    (NetStep.process_block rfl) trivial
  have hagain := hconnected.step_restrict
    (NetStep.receive 0 regtest_source (.Headers [regtest_header 1]) rfl) trivial
  exact ⟨_, hagain, rfl⟩

end net
