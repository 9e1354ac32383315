import KernelNode.Net.Locators

open bitcoin bitcoinkernel std.collections

namespace net

/-- The chain that a peer serves: the hash at its bottom and the blocks above it,
    each on top of the one before. -/
structure RemoteChain where
  genesis : BlockHash
  blocks : List bitcoin.Block
  linked : ∀ {i : Nat} {block : bitcoin.Block}, blocks[i]? = some block →
    (genesis :: blocks.map bitcoin.Block.block_hash)[i]? = some block.header.prev_blockhash
  nodup : (genesis :: blocks.map bitcoin.Block.block_hash).Nodup
  length_lt : blocks.length < 2 ^ 31

namespace RemoteChain

/-- The hashes by their heights. -/
def hashes (self : RemoteChain) : List BlockHash :=
  self.genesis :: self.blocks.map bitcoin.Block.block_hash

/-- The height of the first locator on the chain. A peer that knows none of them
    starts at the bottom. -/
def fork_height (self : RemoteChain) (locator_hashes : List BlockHash) : Nat :=
  ((locator_hashes.find? fun hash => hash ∈ self.hashes).map fun hash =>
    self.hashes.idxOf hash).getD 0

/-- As many headers as one message may hold. -/
def headers_after (self : RemoteChain) (height : Nat) : List Header :=
  ((self.blocks.drop height).take 2000).map bitcoin.Block.header

def inventory_after (self : RemoteChain) (height : Nat) : List Inventory :=
  ((self.blocks.drop height).take 500).map fun block => .Block block.block_hash

/-- What a peer that serves the chain sends back. It has no inventory to send
    where the locators are up to date. -/
def answer (self : RemoteChain) : NetworkMessage → List NetworkMessage
  | .GetHeaders message => [.Headers (self.headers_after (self.fork_height message.locator_hashes))]
  | .GetBlocks message =>
    let inventory := self.inventory_after (self.fork_height message.locator_hashes)
    if inventory.isEmpty then [] else [.Inv inventory]
  | .GetData inventory =>
    (NetworkMessage.GetData inventory).requested.filterMap fun hash =>
      (self.blocks.find? fun block => block.block_hash = hash).map .Block
  | _ => []

variable {self : RemoteChain} {i j : Nat} {block other : bitcoin.Block} {hash : BlockHash}

theorem length_hashes : self.hashes.length = self.blocks.length + 1 := by
  simp [hashes]

theorem hash_above (hblock : self.blocks[i]? = some block) :
    self.hashes[i + 1]? = some block.block_hash := by
  simp [hashes, hblock]

theorem hash_below (hblock : self.blocks[i]? = some block) :
    self.hashes[i]? = some block.header.prev_blockhash :=
  self.linked hblock

/-- Every hash has one height. -/
theorem height_unique (hi : self.hashes[i]? = some hash) (hj : self.hashes[j]? = some hash) :
    i = j :=
  (List.getElem?_inj (List.getElem?_eq_some_iff.mp hi).1 self.nodup).mp (hi.trans hj.symm)

theorem index_of_block_hash (hi : self.blocks[i]? = some block)
    (hj : self.blocks[j]? = some other) (hhash : block.block_hash = other.block_hash) : i = j :=
  Nat.succ.inj (height_unique (hash_above hi) (hhash ▸ hash_above hj))

theorem mem_take_hashes {height : Nat} :
    hash ∈ self.hashes.take (height + 1) ↔ ∃ i ≤ height, self.hashes[i]? = some hash := by
  rw [List.mem_iff_getElem?]
  constructor
  · rintro ⟨i, hi⟩
    rw [List.getElem?_take, Option.ite_none_right_eq_some] at hi
    exact ⟨i, by omega, hi.2⟩
  · rintro ⟨i, hle, hi⟩
    exact ⟨i, by rwa [List.getElem?_take, if_pos (by omega)]⟩

theorem mem_block_hashes :
    hash ∈ self.blocks.map bitcoin.Block.block_hash ↔
      ∃ (i : Nat) (block : bitcoin.Block), self.blocks[i]? = some block ∧
        block.block_hash = hash := by
  rw [List.mem_map]
  constructor
  · rintro ⟨block, hblock, rfl⟩
    obtain ⟨i, hblock⟩ := List.mem_iff_getElem?.mp hblock
    exact ⟨i, block, hblock, rfl⟩
  · rintro ⟨i, block, hblock, rfl⟩
    exact ⟨block, List.mem_of_getElem? hblock, rfl⟩

theorem mem_block_hashes_of_height {height : Nat} (hpos : 0 < height)
    (hhash : self.hashes[height]? = some hash) :
    hash ∈ self.blocks.map bitcoin.Block.block_hash := by
  obtain ⟨i, rfl⟩ := Nat.exists_eq_add_of_lt hpos
  rw [Nat.zero_add, hashes, List.getElem?_cons_succ] at hhash
  exact List.mem_of_getElem? hhash

theorem find_block (hblock : self.blocks[i]? = some block) :
    (self.blocks.find? fun other => other.block_hash = block.block_hash) = some block := by
  cases hfind : self.blocks.find? fun other => other.block_hash = block.block_hash with
  | none =>
    have hnone := List.find?_eq_none.mp hfind block (List.mem_of_getElem? hblock)
    simp at hnone
  | some found =>
    obtain ⟨j, hfound⟩ := List.mem_iff_getElem?.mp (List.mem_of_find?_eq_some hfind)
    have hhash : found.block_hash = block.block_hash := by simpa using List.find?_some hfind
    obtain rfl := index_of_block_hash hfound hblock hhash
    rw [← hfound, hblock]

/-- The answer starts at the height of the first locator. -/
theorem fork_height_of_head {height : Nat} {locators : List BlockHash}
    (hheight : height ≤ self.blocks.length)
    (hhead : locators.head? = self.hashes[height]?) : self.fork_height locators = height := by
  have hindex : height < self.hashes.length := by
    rw [length_hashes]
    omega
  rw [List.getElem?_eq_getElem hindex] at hhead
  cases locators with
  | nil => cases hhead
  | cons first locators =>
    obtain rfl := Option.some.inj hhead
    have hmem : self.hashes[height] ∈ self.hashes := List.getElem_mem hindex
    simp only [fork_height, hmem, decide_true, List.find?_cons_of_pos, Option.map_some,
      Option.getD_some]
    exact List.Nodup.idxOf_getElem self.nodup height hindex

theorem inventory_after_hashes (height : Nat) :
    (self.inventory_after height).filterMap Inventory.block_hash =
      ((self.blocks.drop height).take 500).map bitcoin.Block.block_hash := by
  rw [inventory_after, List.filterMap_map]
  exact congrFun (List.filterMap_eq_map (f := bitcoin.Block.block_hash)) _

theorem length_headers_after (height : Nat) :
    (self.headers_after height).length = min 2000 (self.blocks.length - height) := by
  simp [headers_after]

end RemoteChain

/-- What a kernel does that knows the blocks of one chain only and decodes them.
    `tracks` says of its state that it has the headers up to one height and the
    blocks of the active chain up to another. -/
structure Follows {C : Type} (kernelInst : ChainstateManager C) (chain : RemoteChain)
    (tracks : C → Nat → Nat → Prop) : Prop where
  decodes : ∀ block ∈ chain.blocks, ∃ held, block.convert kernelInst = some held
  bounds : ∀ {chainman known active}, tracks chainman known active →
    active ≤ known ∧ known ≤ chain.blocks.length
  best_entry : ∀ {chainman known active}, tracks chainman known active →
    ∃ best, kernelInst.best_entry chainman = some best ∧
      best.hashes = (chain.hashes.take (known + 1)).reverse
  active_contains : ∀ {chainman known active}, tracks chainman known active → ∀ hash,
    kernelInst.active_contains chainman hash = true ↔ hash ∈ chain.hashes.take (active + 1)
  get_block_tree_entry : ∀ {chainman known active}, tracks chainman known active → ∀ {hash},
    hash ∈ chain.hashes.take (known + 1) →
      ∃ entry, kernelInst.get_block_tree_entry chainman hash = some entry ∧
        entry.block_hash = hash
  process_block_header : ∀ {chainman known active}, tracks chainman known active →
    ∀ {i block}, chain.blocks[i]? = some block → i ≤ known →
      ∃ after, kernelInst.process_block_header chainman block.header = (some .Valid, after) ∧
        tracks after (max known (i + 1)) active
  process_block : ∀ {chainman known active}, tracks chainman known active →
    ∀ {i block held}, chain.blocks[i]? = some block → block.convert kernelInst = some held →
      i < known → i ≤ active →
      tracks (kernelInst.process_block chainman held) known (max active (i + 1))

theorem ancestor_tip (tip : BlockTreeEntry) : tip.ancestor tip.height = some tip.block_hash := by
  have hheight := tip_height_toInt tip
  have hlength := List.length_pos_of_ne_nil tip.ne_nil
  have hnonneg : ¬ tip.height < 0 := by
    rw [Int32.lt_iff_toInt_lt, hheight, show (0 : Int32).toInt = 0 from rfl]
    omega
  have hindex : tip.height.toNatClampNeg = tip.hashes.length - 1 := by
    change tip.height.toInt.toNat = _
    omega
  rw [BlockTreeEntry.ancestor, if_neg hnonneg, hindex, List.getElem?_reverse (by omega),
    Nat.sub_self, ← List.head?_eq_getElem?]
  exact List.head?_eq_some_head tip.ne_nil

/-- The first locator is the tip itself. -/
theorem build_block_locators_head (tip : BlockTreeEntry) :
    ∃ locators, build_block_locators tip = some locators ∧
      locators.head? = some tip.block_hash := by
  have hheight : tip.hashes.length - 1 < 2 ^ 31 := by
    have hlength := tip.length_le
    omega
  have hrounds := locator_rounds_at wrapping_doubles hheight MAX_LOCATOR_HASHES (first_round_at tip)
  obtain ⟨locators, hlocators⟩ : ∃ locators, ((locator_rounds (fun step => step * 2)
      MAX_LOCATOR_HASHES ⟨tip.height, 1, 1⟩).map LocatorRound.current_height).mapM tip.ancestor =
        some locators := by
    refine std.option.exists_mapM_eq_some fun height hheight => ?_
    obtain ⟨round, hround, rfl⟩ := List.mem_map.mp hheight
    obtain ⟨number, _, hat⟩ := hrounds round hround
    have hzero : (0 : Int32).toInt = 0 := rfl
    refine ancestor_of_range ?_ ?_ <;>
      rw [Int32.le_iff_toInt_le, hat.current_height]
    · rw [hzero]
      omega
    · rw [tip_height_toInt]
      omega
  have hlookups := std.option.forall₂_of_mapM hlocators
  refine ⟨locators, ?_, ?_⟩
  · rw [build_block_locators, build_block_locators_loop_eq, List.length_nil, hlocators]
    rfl
  · -- the first round looks up the height of the tip
    obtain ⟨first, rest, hfirst, -, rfl⟩ := List.forall₂_cons_left_iff.mp hlookups
    rw [List.head?_cons, ← hfirst]
    exact ancestor_tip tip

namespace Follows

variable {C : Type} {kernelInst : ChainstateManager C} {chain : RemoteChain}
  {tracks : C → Nat → Nat → Prop} {chainman : C} {known active : Nat}

theorem best_block_hash (hfollows : Follows kernelInst chain tracks)
    (htracks : tracks chainman known active) :
    ∃ best, kernelInst.best_entry chainman = some best ∧
      some best.block_hash = chain.hashes[known]? := by
  obtain ⟨best, hbest, hhashes⟩ := hfollows.best_entry htracks
  have hknown := (hfollows.bounds htracks).2
  have hlength := chain.length_hashes
  refine ⟨best, hbest, ?_⟩
  rw [BlockTreeEntry.block_hash, ← List.head?_eq_some_head, hhashes, List.head?_reverse,
    List.getLast?_eq_getElem?, List.length_take, List.getElem?_take, if_pos (by omega)]
  congr 1
  omega

/-- The node asks for the headers after those it has. -/
theorem request_headers (hfollows : Follows kernelInst chain tracks)
    (htracks : tracks chainman known active) :
    ∃ locators, net.request_headers kernelInst chainman =
        some (.AwaitingHeaders, [create_getheaders_message locators]) ∧
      locators.head? = chain.hashes[known]? := by
  obtain ⟨best, hbest, hhash⟩ := hfollows.best_block_hash htracks
  obtain ⟨locators, hlocators, hhead⟩ := build_block_locators_head best
  exact ⟨locators, by simp [net.request_headers, hbest, hlocators], hhead.trans hhash⟩

/-- Headers that follow those it has are all accepted. -/
theorem accept_headers (hfollows : Follows kernelInst chain tracks)
    (htracks : tracks chainman known active) {blocks : List bitcoin.Block}
    (hblocks : ∀ i block, blocks[i]? = some block → chain.blocks[known + i]? = some block) :
    tracks (net.accept_headers kernelInst chainman (blocks.map bitcoin.Block.header)).2
      (known + blocks.length) active := by
  induction blocks generalizing chainman known with
  | nil => exact htracks
  | cons block blocks ih =>
    obtain ⟨after, haccepted, hafter⟩ := hfollows.process_block_header htracks
      (hblocks 0 block rfl) (Nat.le_refl known)
    rw [Nat.max_eq_right (Nat.le_succ known)] at hafter
    have hrest := ih hafter fun i other hother => by
      rw [Nat.succ_add_eq_add_succ]
      exact hblocks (i + 1) other hother
    simp only [List.map_cons, net.accept_headers, haccepted]
    rw [List.length_cons, Nat.add_comm blocks.length, ← Nat.add_assoc]
    exact hrest

theorem accept_headers_after (hfollows : Follows kernelInst chain tracks)
    (htracks : tracks chainman known active) :
    tracks (net.accept_headers kernelInst chainman (chain.headers_after known)).2
      (known + (chain.headers_after known).length) active := by
  rw [RemoteChain.headers_after, List.length_map]
  refine hfollows.accept_headers htracks fun i block hblock => ?_
  rw [List.getElem?_take, Option.ite_none_right_eq_some, List.getElem?_drop] at hblock
  exact hblock.2

theorem active_iff (hfollows : Follows kernelInst chain tracks)
    (htracks : tracks chainman known active) {height : Nat} {hash : BlockHash}
    (hhash : chain.hashes[height]? = some hash) :
    kernelInst.active_contains chainman hash = true ↔ height ≤ active := by
  rw [hfollows.active_contains htracks, RemoteChain.mem_take_hashes]
  constructor
  · rintro ⟨i, hle, hi⟩
    rwa [RemoteChain.height_unique hhash hi]
  · intro hle
    exact ⟨height, hle, hhash⟩

theorem is_on_active_chain_iff (hfollows : Follows kernelInst chain tracks)
    {node : NodeState C} (htracks : tracks node.chainman known active) {height : Nat}
    {hash : BlockHash} (hhash : chain.hashes[height]? = some hash) (hknown : height ≤ known) :
    node.is_on_active_chain kernelInst hash = true ↔ height ≤ active := by
  obtain ⟨entry, hentry, rfl⟩ := hfollows.get_block_tree_entry htracks
    (RemoteChain.mem_take_hashes.mpr ⟨height, hknown, hhash⟩)
  rw [NodeState.is_on_active_chain, hentry]
  exact hfollows.active_iff htracks hhash

/-- A queue that is built holds what the node has neither connected nor got. -/
theorem mem_populate_download_queue (hfollows : Follows kernelInst chain tracks)
    (htracks : tracks chainman known active) {download : DownloadState}
    (hqueue : download.queue = []) (hash : BlockHash) :
    hash ∈ (populate_download_queue kernelInst chainman download).queue ↔
      ∃ height, active < height ∧ height ≤ known ∧ chain.hashes[height]? = some hash ∧
        hash ∉ download.buffered_hashes ∧ hash ∉ download.in_flight := by
  obtain ⟨best, hbest, hhashes⟩ := hfollows.best_entry htracks
  have hbounds := hfollows.bounds htracks
  have hactive := hfollows.active_contains htracks
  have hgenesis : chain.genesis ∈ chain.hashes.take (active + 1) := List.mem_cons_self
  have hclosed : ParentClosed (kernelInst.active_contains chainman) best := by
    rw [ParentClosed, hhashes, List.isChain_reverse, List.isChain_iff_getElem]
    intro i hi hchild
    have hheight (j : Nat) (hj : j < (chain.hashes.take (known + 1)).length) :
        chain.hashes[j]? = some (chain.hashes.take (known + 1))[j] := by
      rw [List.getElem_take, List.getElem?_eq_getElem]
    have hlater := (hfollows.active_iff htracks (hheight (i + 1) hi)).mp hchild
    exact (hfollows.active_iff htracks (hheight i (by omega))).mpr (by omega)
  have hbottom : chain.genesis ∈ best.hashes := by
    rw [hhashes, List.mem_reverse]
    exact List.mem_cons_self
  rw [populate_download_queue_eq_filter hqueue hbest hclosed hbottom ((hactive _).mpr hgenesis),
    List.mem_reverse, List.mem_filter, DownloadState.lacks_iff, hhashes, List.mem_reverse,
    RemoteChain.mem_take_hashes]
  constructor
  · rintro ⟨⟨height, hle, hhash⟩, hinactive, hfree⟩
    have hlt : ¬ height ≤ active := by
      rw [← hfollows.active_iff htracks hhash, hinactive]
      exact Bool.false_ne_true
    exact ⟨height, by omega, hle, hhash, hfree⟩
  · rintro ⟨height, hlt, hle, hhash, hfree⟩
    refine ⟨⟨height, hle, hhash⟩, ?_, hfree⟩
    rw [← Bool.not_eq_true, hfollows.active_iff htracks hhash]
    omega

end Follows

/-- The entries of the first blocks of a chain, the newest first. -/
def chain_entries (chain : RemoteChain) (known : Nat) : List (List BlockHash) :=
  (List.range (known + 1)).reverse.map fun height => (chain.hashes.take (height + 1)).reverse

theorem chain_entries_succ (chain : RemoteChain) (known : Nat) :
    chain_entries chain (known + 1) =
      (chain.hashes.take (known + 2)).reverse :: chain_entries chain known := by
  rw [chain_entries, List.range_succ, List.reverse_concat, List.map_cons]
  rfl

/-- The regtest kernel with the headers and the blocks of a chain up to two
    heights. -/
structure RegtestTracks (chain : RemoteChain) (chainman : regtest.Chainstate)
    (known active : Nat) : Prop where
  bounds : active ≤ known ∧ known ≤ chain.blocks.length
  entries : chainman.entries.map BlockTreeEntry.hashes = chain_entries chain known
  processed : ∀ hash, hash ∈ chainman.processed ↔ hash ∈ chain.hashes.take (active + 1)

namespace RegtestTracks

variable {chain : RemoteChain} {chainman : regtest.Chainstate} {known active : Nat}

theorem head_chain_entry {height : Nat} (hheight : height ≤ chain.blocks.length) :
    (chain.hashes.take (height + 1)).reverse.head? = chain.hashes[height]? := by
  have hlength := chain.length_hashes
  rw [List.head?_reverse, List.getLast?_eq_getElem?, List.length_take, List.getElem?_take,
    if_pos (by omega)]
  congr 1
  omega

theorem mem_chain_entries {hashes : List BlockHash} :
    hashes ∈ chain_entries chain known ↔
      ∃ height ≤ known, (chain.hashes.take (height + 1)).reverse = hashes := by
  simp only [chain_entries, List.mem_map, List.mem_reverse, List.mem_range, Nat.lt_succ_iff]

/-- The entries are those of the first blocks, each under its own hash. -/
theorem entry_cases (htracks : RegtestTracks chain chainman known active)
    {entry : BlockTreeEntry} (hentry : entry ∈ chainman.entries) :
    ∃ height ≤ known, entry.hashes = (chain.hashes.take (height + 1)).reverse ∧
      chain.hashes[height]? = some entry.block_hash := by
  have hmem := List.mem_map_of_mem (f := BlockTreeEntry.hashes) hentry
  rw [htracks.entries, mem_chain_entries] at hmem
  obtain ⟨height, hle, hhashes⟩ := hmem
  refine ⟨height, hle, hhashes.symm, ?_⟩
  rw [← head_chain_entry (hle.trans htracks.bounds.2), hhashes]
  exact List.head?_eq_some_head entry.ne_nil

theorem find_eq_some (htracks : RegtestTracks chain chainman known active) {height : Nat}
    (hle : height ≤ known) {hash : BlockHash} (hhash : chain.hashes[height]? = some hash) :
    ∃ entry, chainman.find hash = some entry ∧ entry.block_hash = hash ∧
      entry.hashes = (chain.hashes.take (height + 1)).reverse := by
  have hmem : (chain.hashes.take (height + 1)).reverse ∈
      chainman.entries.map BlockTreeEntry.hashes := by
    rw [htracks.entries]
    exact mem_chain_entries.mpr ⟨height, hle, rfl⟩
  obtain ⟨stored, hstored, hhashes⟩ := List.mem_map.mp hmem
  have hstored_hash : stored.block_hash = hash := by
    have hhead := head_chain_entry (hle.trans htracks.bounds.2)
    rw [← hhashes, hhash] at hhead
    exact Option.some.inj ((List.head?_eq_some_head stored.ne_nil).symm.trans hhead)
  cases hfind : chainman.find hash with
  | none =>
    have hnone := List.find?_eq_none.mp hfind stored hstored
    simp [hstored_hash] at hnone
  | some entry =>
    have hentry : entry.block_hash = hash := by simpa using List.find?_some hfind
    obtain ⟨other, _, hother, hother_hash⟩ :=
      htracks.entry_cases (List.mem_of_find?_eq_some hfind)
    obtain rfl := RemoteChain.height_unique hhash (hentry ▸ hother_hash)
    exact ⟨entry, rfl, hentry, hother⟩

theorem find_eq_none (htracks : RegtestTracks chain chainman known active) {height : Nat}
    (hlt : known < height) {hash : BlockHash} (hhash : chain.hashes[height]? = some hash) :
    chainman.find hash = none := by
  refine List.find?_eq_none.mpr fun entry hentry hmatch => ?_
  obtain ⟨other, hle, _, hother⟩ := htracks.entry_cases hentry
  have hsame : entry.block_hash = hash := by simpa using hmatch
  have hheight := RemoteChain.height_unique hhash (hsame ▸ hother)
  omega

/-- The next header extends the newest entry. -/
theorem process_block_header_next (htracks : RegtestTracks chain chainman known active)
    {block : bitcoin.Block} (hblock : chain.blocks[known]? = some block) :
    ∃ after, regtest.kernel.process_block_header chainman block.header = (some .Valid, after) ∧
      RegtestTracks chain after (known + 1) active := by
  obtain ⟨parent, hparent, _, hhashes⟩ :=
    htracks.find_eq_some (Nat.le_refl known) (RemoteChain.hash_below hblock)
  have habove : chain.hashes[known + 1]? = some block.block_hash := RemoteChain.hash_above hblock
  have hindex := (List.getElem?_eq_some_iff.mp hblock).1
  have hnew : block.block_hash ∉ parent.hashes ∧ parent.hashes.length < 2 ^ 31 := by
    have hlength := chain.length_lt
    rw [hhashes, List.mem_reverse, RemoteChain.mem_take_hashes]
    refine ⟨?_, ?_⟩
    · rintro ⟨i, hle, hi⟩
      have hheight := RemoteChain.height_unique habove hi
      omega
    · rw [List.length_reverse, List.length_take]
      omega
  have hfresh : chainman.find block.header.block_hash = none :=
    htracks.find_eq_none (Nat.lt_succ_self known) habove
  obtain ⟨entry, hchild, hentry⟩ : ∃ entry,
      regtest.child parent block.header.block_hash = some entry ∧
        entry.hashes = block.block_hash :: parent.hashes := ⟨_, dif_pos hnew, rfl⟩
  refine ⟨{ chainman with entries := entry :: chainman.entries }, ?_,
    ⟨⟨htracks.bounds.1.trans (Nat.le_succ known), hindex⟩, ?_, htracks.processed⟩⟩
  · simp only [regtest.kernel, hfresh, hparent, Option.bind_some, hchild]
  · have htake : chain.hashes.take (known + 2) = chain.hashes.take (known + 1) ++
        [block.block_hash] := by
      rw [List.take_add_one, habove]
      rfl
    rw [List.map_cons, htracks.entries, hentry, hhashes, chain_entries_succ, htake,
      List.reverse_concat]

end RegtestTracks

/-- The regtest kernel follows every chain whose blocks it decodes. -/
theorem regtest_follows (chain : RemoteChain)
    (hdecodes : ∀ block ∈ chain.blocks, ∃ held, block.convert regtest.kernel = some held) :
    Follows regtest.kernel chain (RegtestTracks chain) where
  decodes := hdecodes
  bounds htracks := htracks.bounds
  best_entry {chainman known active} htracks := by
    have hentries := htracks.entries
    rw [chain_entries, List.range_succ, List.reverse_concat, List.map_cons] at hentries
    obtain ⟨best, rest, hchainman, hbest, _⟩ := List.map_eq_cons_iff.mp hentries
    exact ⟨best, by simp [regtest.kernel, hchainman], hbest⟩
  active_contains htracks hash := by
    rw [← htracks.processed]
    exact decide_eq_true_iff
  get_block_tree_entry htracks hash hhash := by
    obtain ⟨height, hle, hheight⟩ := RemoteChain.mem_take_hashes.mp hhash
    obtain ⟨entry, hfind, hentry, _⟩ := htracks.find_eq_some hle hheight
    exact ⟨entry, hfind, hentry⟩
  process_block_header {chainman known active} htracks i block hblock hle := by
    rcases Nat.lt_or_eq_of_le hle with hlt | rfl
    · obtain ⟨entry, hfind, _⟩ := htracks.find_eq_some hlt (RemoteChain.hash_above hblock)
      refine ⟨chainman, ?_, ?_⟩
      · have hknown : chainman.find block.header.block_hash = some entry := hfind
        simp only [regtest.kernel, hknown]
      · rwa [Nat.max_eq_left hlt]
    · rw [Nat.max_eq_right (Nat.le_succ i)]
      exact htracks.process_block_header_next hblock
  process_block {chainman known active} htracks i block held hblock hheld hknown hactive := by
    refine ⟨⟨max_le htracks.bounds.1 hknown, htracks.bounds.2⟩, htracks.entries, fun hash => ?_⟩
    have habove := RemoteChain.hash_above hblock
    simp only [regtest.kernel, List.mem_cons, htracks.processed, RemoteChain.mem_take_hashes,
      Block.convert_hash hheld]
    constructor
    · rintro (rfl | ⟨height, hle, hhash⟩)
      · exact ⟨i + 1, le_max_right _ _, habove⟩
      · exact ⟨height, hle.trans (le_max_left _ _), hhash⟩
    · rintro ⟨height, hle, hhash⟩
      rcases Nat.lt_or_ge active height with hlt | hge
      · obtain rfl : height = i + 1 := by omega
        exact .inl (Option.some.inj (hhash.symm.trans habove))
      · exact .inr ⟨height, hge, hhash⟩

end net
