import KernelNode.Net.Peers
import KernelNode.Net.Sync

open bitcoin bitcoinkernel std.collections transition

namespace net

variable {C : Type}

section

variable {kernelInst : ChainstateManager C} {chain : RemoteChain} {tracks : C → Nat → Nat → Prop}
  {source : AddrV2} {known active : Nat} {state next : SyncState C}

namespace SyncState.Syncs

/-- A block that the block thread takes is on top of the active chain. -/
theorem taken_on_active (hfollows : Follows kernelInst chain tracks)
    (hsyncs : state.Syncs kernelInst chain tracks known active) (hidle : state.validating = none)
    {order : Reorder BlockHash} {held : bitcoinkernel.Block} {download : DownloadState}
    (htake : state.node.take_connectable kernelInst order = (some held, download)) :
    ∃ (i : Nat) (block : bitcoin.Block), chain.blocks[i]? = some block ∧ i < known ∧ i ≤ active ∧
      block.convert kernelInst = some held ∧ download = { state.node.download with
        buffer := state.node.download.buffer.erase block.header.prev_blockhash } := by
  obtain ⟨prev, hlookup, hdownload, hwhy⟩ := DownloadState.take_connectable_eq_some _ htake
  obtain ⟨i, block, hblock, hknown, rfl, hconvert⟩ := hsyncs.buffered prev held hlookup
  refine ⟨i, block, hblock, hknown, ?_, hconvert, hdownload⟩
  rcases hwhy with hconnected | ⟨hqueue, hflight, hroot⟩
  · exact (hfollows.is_on_active_chain_iff hsyncs.tracks (RemoteChain.hash_below hblock)
      (Nat.le_of_lt hknown)).mp hconnected
  · -- the parent of a block higher up would be in the buffer
    by_contra hhigh
    obtain ⟨j, rfl⟩ : ∃ j, i = j + 1 := ⟨i - 1, by omega⟩
    have hindex := (List.getElem?_eq_some_iff.mp hblock).1
    have hparent : chain.blocks[j]? = some chain.blocks[j] :=
      List.getElem?_eq_getElem (Nat.lt_of_succ_lt hindex)
    have hhash : chain.blocks[j].block_hash = block.header.prev_blockhash :=
      Option.some.inj ((RemoteChain.hash_above hparent).symm.trans (RemoteChain.hash_below hblock))
    have hcovered : state.Covered kernelInst chain active := by
      rcases hsyncs.stage with hstarting | hcovered
      · rw [hstarting.1] at hlookup
        cases hlookup
      · exact hcovered.2
    obtain ⟨parent, hparent_convert, hheld | hvalidating⟩ :=
      hcovered.received hqueue (HashSet.keys_eq_nil_iff.mp hflight) j _ hparent (by omega)
    · exact hroot ((DownloadState.mem_buffered_hashes _ _).mpr
        ⟨_, _, hheld, (Block.convert_hash hparent_convert).trans hhash⟩)
    · rw [hidle] at hvalidating
      cases hvalidating

/-- The block goes from the buffer to the block thread. -/
theorem take (hfollows : Follows kernelInst chain tracks)
    (hsyncs : state.Syncs kernelInst chain tracks known active) (hidle : state.validating = none)
    {order : Reorder BlockHash} {held : bitcoinkernel.Block} {download : DownloadState}
    (htake : state.node.take_connectable kernelInst order = (some held, download))
    (hnext : next = { state with
      node := { state.node with download }, validating := some held }) :
    next.Syncs kernelInst chain tracks known active ∧
      (∀ block ∈ chain.blocks, state.Holds kernelInst block → next.Holds kernelInst block) ∧
      next.remaining chain known = state.remaining chain known := by
  obtain ⟨i, block, hblock, hknown, hactive, hconvert, rfl⟩ :=
    hsyncs.taken_on_active hfollows hidle htake
  have hholds : ∀ other ∈ chain.blocks, state.Holds kernelInst other →
      next.Holds kernelInst other := by
    rintro other hother ⟨stored, hstored, hheld | hvalidating⟩
    · by_cases hprev : other.header.prev_blockhash = block.header.prev_blockhash
      · obtain ⟨j, hother⟩ := List.mem_iff_getElem?.mp hother
        obtain rfl := RemoteChain.height_unique (RemoteChain.hash_below hother)
          (hprev ▸ RemoteChain.hash_below hblock)
        obtain rfl := Option.some.inj (hother.symm.trans hblock)
        rw [hnext]
        exact ⟨held, hconvert, .inr rfl⟩
      · rw [hnext]
        exact ⟨stored, hstored, .inl ((AList.lookup_erase_ne hprev).trans hheld)⟩
    · rw [hidle] at hvalidating
      cases hvalidating
  have hstage : next.Starting ∨
      known = chain.blocks.length ∧ next.Covered kernelInst chain active := by
    rcases hsyncs.stage with hstarting | ⟨hall, hcovered⟩
    · obtain ⟨prev, hlookup, _⟩ := DownloadState.take_connectable_eq_some _ htake
      rw [hstarting.1] at hlookup
      cases hlookup
    · refine .inr ⟨hall, fun j other hother hle => ?_⟩
      rcases hcovered j other hother hle with hqueued | hflying | hheld
      · exact .inl (hnext ▸ hqueued)
      · exact .inr (.inl (hnext ▸ hflying))
      · exact .inr (.inr (hholds other (List.mem_of_getElem? hother) hheld))
  refine ⟨?_, hholds, by rw [hnext]; rfl⟩
  subst hnext
  refine { hsyncs with buffered := ?_, validating := ?_, stage := hstage }
  · intro prev other hother
    refine hsyncs.buffered prev other ?_
    by_cases hprev : prev = block.header.prev_blockhash
    · rw [hprev] at hother
      simp at hother
    · exact (AList.lookup_erase_ne hprev).symm.trans hother
  · intro other hother
    cases hother
    exact ⟨i, block, hblock, hknown, hactive, hconvert⟩

/-- The block thread connects its block. -/
theorem process (hfollows : Follows kernelInst chain tracks)
    (hsyncs : state.Syncs kernelInst chain tracks known active) {held : bitcoinkernel.Block}
    (hbusy : state.validating = some held)
    (hnext : next = { state with
      node := { state.node with chainman := kernelInst.process_block state.node.chainman held }
      validating := none }) :
    ∃ connected, next.Syncs kernelInst chain tracks known connected ∧
      (state.Received kernelInst chain active → next.Received kernelInst chain connected) ∧
      next.remaining chain known = state.remaining chain known := by
  obtain ⟨i, block, hblock, hknown, hactive, hconvert⟩ := hsyncs.validating held hbusy
  have hholds (j : Nat) (other : bitcoin.Block) (hother : chain.blocks[j]? = some other)
      (hle : max active (i + 1) ≤ j) (hheld : state.Holds kernelInst other) :
      next.Holds kernelInst other := by
    obtain ⟨stored, hstored, hheld | hvalidating⟩ := hheld
    · rw [hnext]
      exact ⟨stored, hstored, .inl hheld⟩
    · -- the block of the block thread is below the new tip
      obtain rfl : held = stored := Option.some.inj (hbusy.symm.trans hvalidating)
      have hindex := RemoteChain.index_of_block_hash hblock hother
        ((Block.convert_hash hconvert).symm.trans (Block.convert_hash hstored))
      omega
  refine ⟨max active (i + 1), ?_, ?_, by rw [hnext]; rfl⟩
  · have hstage : next.Starting ∨
        known = chain.blocks.length ∧ next.Covered kernelInst chain (max active (i + 1)) := by
      rcases hsyncs.stage with hstarting | ⟨hall, hcovered⟩
      · rw [hstarting.2.1] at hbusy
        cases hbusy
      · refine .inr ⟨hall, fun j other hother hle => ?_⟩
        rcases hcovered j other hother (by omega) with hqueued | hflying | hheld
        · exact .inl (hnext ▸ hqueued)
        · exact .inr (.inl (hnext ▸ hflying))
        · exact .inr (.inr (hholds j other hother hle hheld))
    subst hnext
    refine { hsyncs with
      tracks := hfollows.process_block hsyncs.tracks hblock hconvert hknown hactive
      validating := ?_
      stage := hstage }
    intro other hother
    cases hother
  · intro hreceived j other hother hle
    exact hholds j other hother hle (hreceived j other hother (by omega))

end SyncState.Syncs

theorem SyncState.Received.of_holds (hreceived : state.Received kernelInst chain active)
    (hholds : ∀ block ∈ chain.blocks, state.Holds kernelInst block → next.Holds kernelInst block) :
    next.Received kernelInst chain active := by
  intro i block hblock hle
  exact hholds block (List.mem_of_getElem? hblock) (hreceived i block hblock hle)

/-- A step of a synchronization: nothing that is received is lost, and a message
    brings the end closer until everything is received. -/
theorem SyncStep.syncs (hfollows : Follows kernelInst chain tracks) {action : SyncAction}
    (hsyncs : state.Syncs kernelInst chain tracks known active)
    (hstep : SyncStep kernelInst chain source state action next) :
    ∃ learned connected, next.Syncs kernelInst chain tracks learned connected ∧
      (state.Received kernelInst chain active → next.Received kernelInst chain connected) ∧
      (next.Received kernelInst chain connected ∨
        next.remaining chain learned + [action].countP SyncAction.is_message ≤
          state.remaining chain known) := by
  cases hstep with
  | answer hsent =>
    obtain ⟨hnext, hcost⟩ := hsyncs.answer hfollows hsent rfl
    exact ⟨known, active, hnext, fun hreceived => hreceived, hcost⟩
  | receive hsent hprocess =>
    obtain ⟨hto, peer, messages, node, learned, hhandled, hnext, hholds, hcost⟩ :=
      hsyncs.handles hfollows source hsent
    cases hprocess.symm.trans hhandled
    rw [hto]
    exact ⟨learned, active, hnext, fun hreceived => hreceived.of_holds hholds, hcost⟩
  | take_connectable order hidle htake =>
    obtain ⟨hnext, hholds, hcost⟩ := hsyncs.take hfollows hidle htake rfl
    exact ⟨known, active, hnext, fun hreceived => hreceived.of_holds hholds,
      .inr (Nat.le_of_eq hcost)⟩
  | process_block hbusy =>
    obtain ⟨connected, hnext, hreceived, hcost⟩ := hsyncs.process hfollows hbusy rfl
    exact ⟨known, connected, hnext, hreceived, .inr (Nat.le_of_eq hcost)⟩

theorem SyncState.Connected.syncs (hfollows : Follows kernelInst chain tracks)
    (hconnected : state.Connected kernelInst tracks known active) :
    state.Syncs kernelInst chain tracks known active := by
  obtain ⟨locators, hrequest, hhead⟩ := hfollows.request_headers hconnected.tracks
  obtain ⟨hpeer, hto⟩ := Prod.mk.inj (Option.some.inj (hconnected.asked.symm.trans hrequest))
  have hdownload := hconnected.download
  refine ⟨hconnected.tracks, ?_, ?_, ?_, ?_, ?_, ?_,
    .inl ⟨hdownload, hconnected.validating, hpeer⟩⟩
  · rw [hpeer, hto, hconnected.from_peer]
    exact .ask_headers hhead
  · intro hash
    rw [hdownload, hpeer]
    rfl
  · rw [hdownload]
    exact fun hash hhash => absurd hhash List.not_mem_nil
  · rw [hdownload]
    exact fun _ => rfl
  · intro prev held hheld
    rw [hdownload] at hheld
    cases hheld
  · intro held hheld
    rw [hconnected.validating] at hheld
    cases hheld

/-- Until everything is received there is a message to answer or to process. -/
theorem SyncState.Syncs.message_step (hfollows : Follows kernelInst chain tracks)
    (hsyncs : state.Syncs kernelInst chain tracks known active) (source : AddrV2) :
    state.Received kernelInst chain active ∨ ∃ action next, action.is_message = true ∧
      SyncStep kernelInst chain source state action next := by
  cases hto : state.to_peer with
  | cons message rest => exact .inr ⟨.answer, _, rfl, .answer hto⟩
  | nil =>
    cases hfrom : state.from_peer with
    | cons message rest =>
      obtain ⟨_, peer, messages, node, _, hprocess, _⟩ := hsyncs.handles hfollows source hfrom
      exact .inr ⟨.receive, _, rfl, .receive hfrom hprocess⟩
    | nil =>
      have htalk := hsyncs.talk
      rw [hto] at htalk
      generalize hpeer : state.peer = peer at htalk
      generalize hsent : state.from_peer = messages at htalk
      rw [hfrom] at hsent
      cases htalk with
      | blocks hne => exact absurd (List.map_eq_nil_iff.mp hsent.symm) hne
      | silence =>
        exact .inl (hsyncs.received (hsyncs.covered (by simp [hpeer])).2 (by rw [hpeer]; rfl))
      | _ => cases hsent

/-- Once everything is received and nothing can be taken, the active chain is the
    chain of the peer. -/
theorem SyncState.Syncs.connected_all (hfollows : Follows kernelInst chain tracks)
    (hsyncs : state.Syncs kernelInst chain tracks known active)
    (hreceived : state.Received kernelInst chain active) (hidle : state.validating = none)
    {order : Reorder BlockHash} (htake : (state.node.take_connectable kernelInst order).1 = none) :
    active = chain.blocks.length := by
  have hbounds := hfollows.bounds hsyncs.tracks
  by_contra hbelow
  have hindex : active < chain.blocks.length := by omega
  have hblock := List.getElem?_eq_getElem hindex
  have hhash := RemoteChain.hash_below hblock
  obtain ⟨held, _, hheld | hvalidating⟩ := hreceived active _ hblock (Nat.le_refl active)
  · have hfree := ((DownloadState.take_connectable_fst_eq_none_iff _ order _).mp htake).1 _
      (AList.lookup_isSome.mp (by rw [hheld]; rfl))
    have hconnected := (hfollows.is_on_active_chain_iff hsyncs.tracks hhash hbounds.1).mpr
      (Nat.le_refl active)
    rw [hfree] at hconnected
    cases hconnected
  · rw [hidle] at hvalidating
    cases hvalidating

/-- What a run of a synchronization keeps. -/
theorem sync_run (hfollows : Follows kernelInst chain tracks) {first last : SyncState C}
    (hfirst : first.Connected kernelInst tracks known active) {labels : List SyncAction}
    (hrun : (sync_system kernelInst chain tracks source).Run first labels last) :
    ∃ learned connected, last.Syncs kernelInst chain tracks learned connected ∧
      (last.Received kernelInst chain connected ∨
        last.remaining chain learned + labels.countP SyncAction.is_message ≤
          first.remaining chain known) := by
  induction hrun with
  | nil => exact ⟨known, active, hfirst.syncs hfollows, .inr (Nat.le_refl _)⟩
  | snoc _ hstep ih =>
    obtain ⟨learned, connected, hsyncs, hcost⟩ := ih
    obtain ⟨learned', connected', hnext, hreceived, hstep_cost⟩ := hstep.syncs hfollows hsyncs
    refine ⟨learned', connected', hnext, ?_⟩
    rcases hcost with hdone | hcost
    · exact .inl (hreceived hdone)
    · refine hstep_cost.imp_right fun hstep_cost => ?_
      rw [List.countP_append]
      omega

end

/-- More messages than this are never needed. -/
def sync_messages (chain : RemoteChain) (known : Nat) : Nat :=
  2 * ((chain.blocks.length - known) / 2000) + 2 * chain.blocks.length + 5

/-- A node that is connected to a peer with a longer chain gets all of it, however
    the steps of the peer, of the peer's thread and of the block thread are
    interleaved: until every block is received the conversation goes on, and it
    takes no more than the given number of messages. A block thread that then
    finds nothing to take has connected the whole chain. -/
theorem sync_completes (kernelInst : ChainstateManager C) (chain : RemoteChain)
    {tracks : C → Nat → Nat → Prop} (hfollows : Follows kernelInst chain tracks)
    (source : AddrV2) {first last : SyncState C} {known active : Nat}
    (hfirst : first.Connected kernelInst tracks known active) {labels : List SyncAction}
    (hrun : (sync_system kernelInst chain tracks source).Run first labels last) :
    ∃ learned connected, tracks last.node.chainman learned connected ∧
      (last.Received kernelInst chain connected ∨
        labels.countP SyncAction.is_message < sync_messages chain known ∧
          ∃ action next, action.is_message = true ∧
            SyncStep kernelInst chain source last action next) ∧
      (last.Received kernelInst chain connected → last.validating = none →
        ∀ order, (last.node.take_connectable kernelInst order).1 = none →
          connected = chain.blocks.length) := by
  obtain ⟨learned, connected, hsyncs, hcost⟩ := sync_run hfollows hfirst hrun
  refine ⟨learned, connected, hsyncs.tracks, ?_, fun hreceived hidle order htake =>
    hsyncs.connected_all hfollows hreceived hidle htake⟩
  rcases hcost with hreceived | hcost
  · exact .inl hreceived
  · refine (hsyncs.message_step hfollows source).imp_right fun hstep => ⟨?_, hstep⟩
    obtain ⟨locators, hrequest, _⟩ := hfollows.request_headers hfirst.tracks
    obtain ⟨hpeer, hto⟩ := Prod.mk.inj (Option.some.inj (hfirst.asked.symm.trans hrequest))
    simp only [SyncState.remaining, hpeer, hto, List.length_singleton] at hcost
    simp only [sync_messages]
    omega

/-- One block on the regtest genesis block. -/
def regtest_chain : RemoteChain where
  genesis := regtest.block_hash 0
  blocks := [regtest_block (regtest_header 1)]
  linked {i block} hblock := by
    cases i with
    | zero =>
      cases hblock
      rfl
    | succ i => cases hblock
  nodup := by decide
  length_lt := by decide

theorem regtest_chain_follows :
    Follows regtest.kernel regtest_chain (RegtestTracks regtest_chain) := by
  refine regtest_follows regtest_chain fun block hblock => ?_
  obtain rfl := List.mem_singleton.mp hblock
  exact ⟨_, rfl⟩

/-- A node with the genesis block that has connected to the peer. -/
def regtest_connected : SyncState regtest.Chainstate where
  node := ⟨[], regtest.chainstate, .default⟩
  peer := .AwaitingHeaders
  to_peer := [create_getheaders_message [regtest.block_hash 0]]
  from_peer := []
  validating := none

theorem regtest_connected_init :
    regtest_connected.Connected regtest.kernel (RegtestTracks regtest_chain) 0 0 where
  tracks := ⟨⟨Nat.le_refl 0, Nat.zero_le _⟩, rfl, fun _ => Iff.rfl⟩
  download := rfl
  asked := rfl
  from_peer := rfl
  validating := rfl

/-- Header, block and inventory are exchanged while the block thread is idle: the
    block is received. -/
theorem sync_completes_regtest : ∃ last : SyncState regtest.Chainstate, ∃ connected,
    (sync_system regtest.kernel regtest_chain (RegtestTracks regtest_chain) regtest_source).Run
      regtest_connected [.answer, .receive, .answer, .receive, .answer, .receive, .answer] last ∧
    last.Received regtest.kernel regtest_chain connected := by
  have hrun : (sync_system regtest.kernel regtest_chain (RegtestTracks regtest_chain)
    regtest_source).Run regtest_connected [] regtest_connected := .nil _
  have hrun := hrun.snoc (SyncStep.answer rfl)
  have hrun := hrun.snoc (SyncStep.receive rfl rfl)
  have hrun := hrun.snoc (SyncStep.answer rfl)
  have hrun := hrun.snoc (SyncStep.receive rfl rfl)
  have hrun := hrun.snoc (SyncStep.answer rfl)
  have hrun := hrun.snoc (SyncStep.receive rfl rfl)
  have hrun := hrun.snoc (SyncStep.answer rfl)
  obtain ⟨_, connected, _, hreceived | ⟨hfew, _⟩, _⟩ := sync_completes regtest.kernel
    regtest_chain regtest_chain_follows regtest_source regtest_connected_init hrun
  · exact ⟨_, connected, hrun, hreceived⟩
  · exact absurd hfew (by decide)

/-- A synchronization comes to rest only when the active chain of the node is the
    whole chain of the peer. -/
theorem sync_rests_synced (kernelInst : ChainstateManager C) (chain : RemoteChain)
    {tracks : C → Nat → Nat → Prop} (hfollows : Follows kernelInst chain tracks)
    (source : AddrV2) {state : SyncState C}
    (hreach : (sync_system kernelInst chain tracks source).Reachable state)
    (hrest : ∀ action next, ¬ SyncStep kernelInst chain source state action next) :
    tracks state.node.chainman chain.blocks.length chain.blocks.length := by
  obtain ⟨first, labels, ⟨known, active, hfirst⟩, hrun⟩ := hreach
  obtain ⟨learned, connected, hsyncs, _⟩ := sync_run hfollows hfirst hrun
  have hreceived : state.Received kernelInst chain connected := by
    rcases hsyncs.message_step hfollows source with hreceived | ⟨action, next, _, hstep⟩
    · exact hreceived
    · exact absurd hstep (hrest action next)
  have hidle : state.validating = none := by
    cases hbusy : state.validating with
    | none => rfl
    | some block => exact absurd (.process_block hbusy) (hrest .process_block _)
  have htake : (state.node.take_connectable kernelInst .id).1 = none := by
    rcases htake : state.node.take_connectable kernelInst .id with ⟨_ | block, download⟩
    · rfl
    · exact absurd (.take_connectable .id hidle htake) (hrest (.take_connectable .id) _)
  have hall := hsyncs.connected_all hfollows hreceived hidle htake
  have hbounds := hfollows.bounds hsyncs.tracks
  obtain rfl : learned = chain.blocks.length := by omega
  exact hall ▸ hsyncs.tracks

/-- No messages, no block to validate and an empty buffer: nothing is left to do. -/
theorem SyncState.at_rest (kernelInst : ChainstateManager C) (chain : RemoteChain)
    (source : AddrV2) {state : SyncState C} (hto : state.to_peer = [])
    (hfrom : state.from_peer = []) (hidle : state.validating = none)
    (hbuffer : state.node.download.buffer = ∅) (action : SyncAction) (next : SyncState C) :
    ¬ SyncStep kernelInst chain source state action next := by
  intro hstep
  cases hstep with
  | answer hsent =>
    rw [hto] at hsent
    cases hsent
  | receive hsent =>
    rw [hfrom] at hsent
    cases hsent
  | take_connectable order _ htake =>
    obtain ⟨prev, hlookup, _⟩ := DownloadState.take_connectable_eq_some _ htake
    rw [hbuffer] at hlookup
    cases hlookup
  | process_block hbusy =>
    rw [hidle] at hbusy
    cases hbusy

/-- The node gets the block, connects it, asks once more and finds the peer silent. -/
theorem sync_rests_synced_regtest : ∃ state : SyncState regtest.Chainstate,
    (sync_system regtest.kernel regtest_chain (RegtestTracks regtest_chain)
      regtest_source).Reachable state ∧
    (∀ action next, ¬ SyncStep regtest.kernel regtest_chain regtest_source state action next) ∧
    RegtestTracks regtest_chain state.node.chainman 1 1 := by
  have hrun : (sync_system regtest.kernel regtest_chain (RegtestTracks regtest_chain)
    regtest_source).Run regtest_connected [] regtest_connected := .nil _
  have hrun := hrun.snoc (SyncStep.answer rfl)
  have hrun := hrun.snoc (SyncStep.receive rfl rfl)
  have hrun := hrun.snoc (SyncStep.answer rfl)
  have hrun := hrun.snoc (SyncStep.receive rfl rfl)
  have hrun := hrun.snoc (SyncStep.take_connectable .id rfl rfl)
  have hrun := hrun.snoc (SyncStep.process_block rfl)
  have hrun := hrun.snoc (SyncStep.answer rfl)
  have hrun := hrun.snoc (SyncStep.receive rfl rfl)
  have hrun := hrun.snoc (SyncStep.answer rfl)
  have hrun := hrun.snoc (SyncStep.receive rfl rfl)
  have hrun := hrun.snoc (SyncStep.answer rfl)
  have hreach : (sync_system regtest.kernel regtest_chain (RegtestTracks regtest_chain)
    regtest_source).Reachable _ := ⟨_, _, ⟨0, 0, regtest_connected_init⟩, hrun⟩
  exact ⟨_, hreach, SyncState.at_rest regtest.kernel regtest_chain regtest_source rfl rfl rfl rfl,
    sync_rests_synced regtest.kernel regtest_chain regtest_chain_follows regtest_source
      hreach (SyncState.at_rest regtest.kernel regtest_chain regtest_source rfl rfl rfl rfl)⟩

end net
