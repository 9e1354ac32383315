import KernelNode.Bitcoin.Regtest
import KernelNode.Lineage
import KernelNode.Net.Download

open bitcoin lineage std.collections

namespace net

/-- What `drain` leaves behind: the blocks taken, in order, the download state
    and the connected hashes. -/
structure Drained where
  blocks : List bitcoinkernel.Block
  download : DownloadState
  connected : HashSet BlockHash

/-- Take blocks until there is none to take, each connected once it is taken.
    The buffer may be iterated in another order at every call; the loop does not
    get to an end where it needs more calls than there are orders. -/
def drain : List (Reorder BlockHash) → DownloadState → HashSet BlockHash → Option Drained
  | [], _, _ => none
  | order :: orders, download, connected =>
    match download.take_connectable order (fun hash => hash ∈ connected) with
    | (none, download) => some ⟨[], download, connected⟩
    | (some block, download) =>
      (drain orders download (connected.insert block.hash ())).map fun drained =>
        { drained with blocks := block :: drained.blocks }

/-- The blocks in the buffer. -/
def DownloadState.Buffered (self : DownloadState) (block : bitcoinkernel.Block) : Prop :=
  block ∈ self.buffer.values

/-- The hash a block names as its parent. -/
def prev_blockhash (block : bitcoinkernel.Block) : BlockHash :=
  block.header.prev_blockhash

/-- A parent that lets its child be taken: it is connected, or it is not in the
    buffer while nothing is queued or in flight. -/
def DownloadState.Takes (self : DownloadState) (connected : HashSet BlockHash)
    (hash : BlockHash) : Prop :=
  hash ∈ connected ∨ self.queue = [] ∧ self.in_flight.keys = [] ∧ hash ∉ self.buffered_hashes

namespace DownloadState

variable {self after : DownloadState} {order : Reorder BlockHash} {connected : HashSet BlockHash}
  {block : bitcoinkernel.Block}

theorem Keyed.buffered_iff (hkeyed : self.Keyed) :
    self.Buffered block ↔ self.buffer.lookup (prev_blockhash block) = some block := by
  rw [Buffered, HashMap.mem_values_iff_lookup]
  constructor
  · rintro ⟨prev, hlookup⟩
    rwa [prev_blockhash, hkeyed prev block hlookup]
  · intro hlookup
    exact ⟨_, hlookup⟩

/-- One call that takes a block: where it lay, what let it go and what stays. -/
theorem Keyed.take (hkeyed : self.Keyed)
    (htake : self.take_connectable order (fun hash => hash ∈ connected) = (some block, after)) :
    self.Buffered block ∧ self.Takes connected (prev_blockhash block) ∧
      after = { self with buffer := self.buffer.erase (prev_blockhash block) } := by
  obtain ⟨prev, hlookup, rfl, htaken⟩ := self.take_connectable_eq_some htake
  obtain rfl : prev_blockhash block = prev := hkeyed prev block hlookup
  exact ⟨hkeyed.buffered_iff.mpr hlookup, by simpa [Takes] using htaken, rfl⟩

/-- After a block is taken its hash, which is now connected, lets its children
    be taken as its absence from the buffer does. -/
theorem Keyed.takes_after (hkeyed : self.Keyed) (hblock : self.Buffered block) {hash : BlockHash}
    (htakes : { self with buffer := self.buffer.erase (prev_blockhash block) }.Takes
      (connected.insert block.hash ()) hash) :
    self.Takes connected hash ∨ hash = block.hash := by
  rcases htakes with hconnected | ⟨hqueue, hflight, hfree⟩
  · rcases (AList.mem_insert _).mp hconnected with rfl | hconnected
    · exact .inr rfl
    · exact .inl (.inl hconnected)
  · by_cases hbuffered : hash ∈ self.buffered_hashes
    · have hlookup := hkeyed.buffered_iff.mp hblock
      exact .inr ((self.mem_buffered_hashes_erase hlookup hbuffered).resolve_right hfree)
    · exact .inl (.inr ⟨hqueue, hflight, hbuffered⟩)

theorem Keyed.values_nodup (hkeyed : self.Keyed) : self.buffer.values.Nodup := by
  have hkeys : self.buffer.values.map prev_blockhash = self.buffer.keys := by
    rw [HashMap.values, AList.keys, List.keys, List.map_map]
    refine List.map_congr_left ?_
    rintro ⟨prev, block⟩ hentry
    exact hkeyed prev block (AList.mem_lookup_iff.mpr hentry)
  exact List.Nodup.of_map prev_blockhash (hkeys ▸ self.buffer.keys_nodup)

/-- Once nothing can be taken from an idle buffer without cycles, it is empty. -/
theorem Keyed.buffer_eq_empty (hkeyed : self.Keyed)
    (hacyclic : Acyclic bitcoinkernel.Block.hash prev_blockhash self.Buffered)
    (hall : ∀ prev ∈ self.buffer, prev ∈ self.buffered_hashes) : self.buffer = ∅ := by
  by_contra hne
  have hvalues : self.buffer.values ≠ [] := by
    intro hvalues
    exact hne (AList.ext (List.map_eq_nil_iff.mp hvalues))
  obtain ⟨root, hroot, hfree⟩ := hacyclic.exists_root hvalues
  have hlookup := hkeyed.buffered_iff.mp hroot
  have hmem : prev_blockhash root ∈ self.buffer := AList.lookup_isSome.mp (by simp [hlookup])
  obtain ⟨prev, block, hblock, hhash⟩ := (self.mem_buffered_hashes _).mp (hall _ hmem)
  exact hfree block (HashMap.mem_values_iff_lookup.mpr ⟨prev, hblock⟩) hhash.symm

end DownloadState

/-- What a drain that got to its end has done. -/
structure Drained.From (drained : Drained) (start : DownloadState) (connected : HashSet BlockHash) :
    Prop where
  keyed : drained.download.Keyed
  values : start.buffer.values.Perm (drained.blocks ++ drained.download.buffer.values)
  queue : drained.download.queue = start.queue
  in_flight : drained.download.in_flight = start.in_flight
  marked : ∀ hash, hash ∈ drained.connected ↔ hash ∈ connected ∨
    hash ∈ drained.blocks.map bitcoinkernel.Block.hash
  parents_first : ParentsFirst bitcoinkernel.Block.hash prev_blockhash (start.Takes connected)
    drained.blocks
  stuck : ∀ order,
    (drained.download.take_connectable order (fun hash => hash ∈ drained.connected)).1 = none

/-- The step of the loop: what the later calls do after a block is taken. -/
theorem Drained.From.cons {self : Drained} {start next : DownloadState}
    {connected : HashSet BlockHash} {order : Reorder BlockHash} {block : bitcoinkernel.Block}
    (hkeyed : start.Keyed)
    (htake : start.take_connectable order (fun hash => hash ∈ connected) = (some block, next))
    (hrest : self.From next (connected.insert block.hash ())) :
    Drained.From { self with blocks := block :: self.blocks } start connected := by
  obtain ⟨hblock, htakes, rfl⟩ := hkeyed.take htake
  have hvalues := HashMap.values_perm_erase (hkeyed.buffered_iff.mp hblock)
  refine ⟨hrest.keyed, hvalues.trans (hrest.values.cons block), hrest.queue, hrest.in_flight,
    ?_, ⟨htakes, hrest.parents_first.mono ?_⟩, hrest.stuck⟩
  · intro hash
    rw [hrest.marked, AList.mem_insert, List.map_cons, List.mem_cons]
    tauto
  · intro hash htakes
    exact hkeyed.takes_after hblock htakes

/-- Whatever the orders of iteration, a drain does what `Drained.From` says. -/
theorem drain_from {orders : List (Reorder BlockHash)} {start : DownloadState}
    {connected : HashSet BlockHash} {drained : Drained} (hkeyed : start.Keyed)
    (hdrain : drain orders start connected = some drained) : drained.From start connected := by
  induction orders generalizing start connected drained with
  | nil => cases hdrain
  | cons order orders ih =>
    simp only [drain] at hdrain
    split at hdrain
    · rename_i next htake
      cases hdrain
      obtain rfl := start.take_connectable_eq_none htake
      have hstuck := (next.take_connectable_fst_eq_none_iff order _).mp (congrArg Prod.fst htake)
      exact ⟨hkeyed, .refl _, rfl, rfl, by simp, trivial, fun other =>
        (next.take_connectable_fst_eq_none_iff other _).mpr hstuck⟩
    · rename_i block next htake
      obtain ⟨rest, hrest, rfl⟩ := Option.map_eq_some_iff.mp hdrain
      exact .cons hkeyed htake (ih (hkeyed.take_connectable htake) hrest)

/-- A drain gets to its end with one call more than there are blocks to take. -/
theorem drain_ends {orders : List (Reorder BlockHash)} {start : DownloadState}
    (connected : HashSet BlockHash) (hkeyed : start.Keyed)
    (hcalls : start.buffer.values.length < orders.length) :
    ∃ drained, drain orders start connected = some drained := by
  induction orders generalizing start connected with
  | nil => simp at hcalls
  | cons order orders ih =>
    simp only [drain]
    split
    · exact ⟨_, rfl⟩
    · rename_i block next htake
      obtain ⟨hblock, _, rfl⟩ := hkeyed.take htake
      have hvalues := HashMap.values_perm_erase (hkeyed.buffered_iff.mp hblock)
      have hlength := hvalues.length_eq
      simp only [List.length_cons] at hcalls hlength
      have hfewer : (HashMap.values (start.buffer.erase (prev_blockhash block))).length <
          orders.length := by
        omega
      obtain ⟨rest, hrest⟩ := ih _ (hkeyed.take_connectable htake) hfewer
      exact ⟨_, by rw [hrest]; rfl⟩

theorem drain_blocks_lt {orders : List (Reorder BlockHash)} {start : DownloadState}
    {connected : HashSet BlockHash} {drained : Drained}
    (hdrain : drain orders start connected = some drained) :
    drained.blocks.length < orders.length := by
  induction orders generalizing start connected drained with
  | nil => cases hdrain
  | cons order orders ih =>
    simp only [drain] at hdrain
    split at hdrain
    · cases hdrain
      simp
    · obtain ⟨rest, hrest, rfl⟩ := Option.map_eq_some_iff.mp hdrain
      have hlength := ih hrest
      simpa using hlength

namespace Drained.From

variable {drained : Drained} {start : DownloadState} {connected : HashSet BlockHash}

theorem blocks_nodup (hfrom : drained.From start connected) (hkeyed : start.Keyed) :
    drained.blocks.Nodup := by
  have hnodup := hfrom.values.nodup_iff.mp hkeyed.values_nodup
  exact hnodup.of_append_left

/-- What is not taken stays where it is. -/
theorem lookup_iff (hfrom : drained.From start connected) (hkeyed : start.Keyed)
    (prev : BlockHash) (block : bitcoinkernel.Block) :
    drained.download.buffer.lookup prev = some block ↔
      start.buffer.lookup prev = some block ∧ block ∉ drained.blocks := by
  have hnodup := hfrom.values.nodup_iff.mp hkeyed.values_nodup
  have hmem : start.Buffered block ↔ block ∈ drained.blocks ∨ drained.download.Buffered block := by
    rw [DownloadState.Buffered, hfrom.values.mem_iff, List.mem_append]
    rfl
  constructor
  · intro hlookup
    obtain rfl : prev_blockhash block = prev := hfrom.keyed prev block hlookup
    have hleft := hfrom.keyed.buffered_iff.mpr hlookup
    exact ⟨hkeyed.buffered_iff.mp (hmem.mpr (.inr hleft)),
      fun htaken => List.disjoint_of_nodup_append hnodup htaken hleft⟩
  · rintro ⟨hlookup, htaken⟩
    obtain rfl : prev_blockhash block = prev := hkeyed prev block hlookup
    have hleft := (hmem.mp (hkeyed.buffered_iff.mpr hlookup)).resolve_left htaken
    exact hfrom.keyed.buffered_iff.mp hleft

theorem buffered_of_mem (hfrom : drained.From start connected) {block : bitcoinkernel.Block}
    (hblock : block ∈ drained.blocks) : start.Buffered block :=
  hfrom.values.mem_iff.mpr (List.mem_append_left _ hblock)

theorem parents_connected (hfrom : drained.From start connected)
    (hbusy : start.queue ≠ [] ∨ start.in_flight ≠ ∅) :
    ParentsFirst bitcoinkernel.Block.hash prev_blockhash (· ∈ connected) drained.blocks := by
  refine hfrom.parents_first.mono ?_
  rintro hash (hconnected | ⟨hqueue, hflight, _⟩)
  · exact hconnected
  · have hempty : start.in_flight = ∅ := AList.ext (List.map_eq_nil_iff.mp hflight)
    rcases hbusy with hqueued | hflying
    · exact absurd hqueue hqueued
    · exact absurd hempty hflying

/-- A drain gets to every block whose line of buffered parents is connected. -/
theorem mem_of_connectable (hfrom : drained.From start connected) (hkeyed : start.Keyed)
    {block : bitcoinkernel.Block}
    (hblock : Connectable bitcoinkernel.Block.hash prev_blockhash (· ∈ connected) start.Buffered
      block) :
    block ∈ drained.blocks := by
  obtain ⟨hfree, _⟩ :=
    (drained.download.take_connectable_fst_eq_none_iff .id _).mp (hfrom.stuck .id)
  -- a block that stays has a parent that is not connected at the end
  have hstays : ∀ other, start.Buffered other → prev_blockhash other ∈ drained.connected →
      other ∈ drained.blocks := by
    intro other hother hparent
    by_contra htaken
    have hlookup := (hfrom.lookup_iff hkeyed _ other).mpr ⟨hkeyed.buffered_iff.mp hother, htaken⟩
    have hkey : prev_blockhash other ∈ drained.download.buffer :=
      AList.lookup_isSome.mp (by simp [hlookup])
    simpa [hparent] using hfree _ hkey
  induction hblock with
  | known hbuffered hconnected =>
    exact hstays _ hbuffered ((hfrom.marked _).mpr (.inl hconnected))
  | child hbuffered _ hparent ih =>
    refine hstays _ hbuffered ((hfrom.marked _).mpr (.inr ?_))
    rw [hparent]
    exact List.mem_map_of_mem ih

end Drained.From

/-- An idle buffer without cycles is drained with one call for each block and one
    that finds nothing. Every block comes once, after its parent unless that is
    connected from the start or not in the buffer, and the buffer is empty. -/
theorem drain_idle {start : DownloadState} (hkeyed : start.Keyed)
    (hacyclic : Acyclic bitcoinkernel.Block.hash prev_blockhash start.Buffered)
    (hqueue : start.queue = []) (hflight : start.in_flight = ∅) (connected : HashSet BlockHash)
    (orders : List (Reorder BlockHash)) :
    (orders.length ≤ start.buffer.values.length → drain orders start connected = none) ∧
      (start.buffer.values.length < orders.length →
        ∃ drained, drain orders start connected = some drained ∧
          drained.blocks.Perm start.buffer.values ∧ drained.blocks.Nodup ∧
          drained.download.buffer = ∅ ∧
          ParentsFirst bitcoinkernel.Block.hash prev_blockhash
            (fun hash => hash ∈ connected ∨ hash ∉ start.buffered_hashes) drained.blocks) := by
  have hempty : ∀ drained : Drained, drained.From start connected →
      drained.download.buffer = ∅ := by
    intro drained hfrom
    obtain ⟨_, hall⟩ :=
      (drained.download.take_connectable_fst_eq_none_iff .id _).mp (hfrom.stuck .id)
    refine hfrom.keyed.buffer_eq_empty (hacyclic.subset ?_) (hall (hfrom.queue.trans hqueue) ?_)
    · intro block hblock
      exact hfrom.values.mem_iff.mpr (List.mem_append_right _ hblock)
    · rw [hfrom.in_flight, hflight]
      rfl
  have hperm : ∀ drained : Drained, drained.From start connected →
      drained.blocks.Perm start.buffer.values := by
    intro drained hfrom
    have hvalues := hfrom.values
    rw [hempty drained hfrom] at hvalues
    exact (hvalues.trans (by simp [HashMap.values])).symm
  constructor
  · intro hcalls
    cases hdrain : drain orders start connected with
    | none => rfl
    | some drained =>
      have hlength := (hperm drained (drain_from hkeyed hdrain)).length_eq
      have hlt := drain_blocks_lt hdrain
      omega
  · intro hcalls
    obtain ⟨drained, hdrain⟩ := drain_ends connected hkeyed hcalls
    have hfrom := drain_from hkeyed hdrain
    refine ⟨drained, hdrain, hperm drained hfrom, hfrom.blocks_nodup hkeyed, hempty drained hfrom,
      hfrom.parents_first.mono ?_⟩
    rintro hash (hconnected | ⟨_, _, hfree⟩)
    · exact .inl hconnected
    · exact .inr hfree

/-- The block at a height on the block before it. -/
def regtest_link (height : UInt8) : bitcoinkernel.Block :=
  ⟨⟨regtest.block_hash height, regtest.block_hash (height - 1)⟩, []⟩

/-- The blocks at the given heights, buffered as they arrive. -/
def regtest_buffered (queue : List BlockHash) (heights : List UInt8) : DownloadState :=
  heights.foldl (fun download height =>
    download.buffer_block (regtest.block_hash (height - 1)) (regtest_link height))
    { DownloadState.default with queue }

instance (self : DownloadState) : DecidablePred self.Buffered :=
  fun block => inferInstanceAs (Decidable (block ∈ self.buffer.values))

theorem DownloadState.Keyed.of_entries {self : DownloadState}
    (hentries : ∀ entry ∈ self.buffer.entries, prev_blockhash entry.2 = entry.1) : self.Keyed :=
  fun _ _ hlookup => hentries _ (AList.mem_lookup_iff.mp hlookup)

/-- Three blocks of a branch off the active chain, the last one first. -/
theorem drain_idle_competing_branch :
    ∃ drained, drain (List.replicate 4 .id) (regtest_buffered [] [4, 2, 3]) ∅ = some drained ∧
      drained.blocks.Perm [regtest_link 2, regtest_link 3, regtest_link 4] ∧
      drained.download.buffer = ∅ := by
  have hacyclic : Acyclic bitcoinkernel.Block.hash prev_blockhash
      (regtest_buffered [] [4, 2, 3]).Buffered := by
    refine Acyclic.of_rank (fun block => block.hash.bytes.head.toNat) ?_
    unfold DownloadState.Buffered
    decide
  have hkeyed : (regtest_buffered [] [4, 2, 3]).Keyed := .of_entries (by decide)
  obtain ⟨_, hdrain⟩ := drain_idle hkeyed hacyclic rfl rfl ∅ (List.replicate 4 .id)
  obtain ⟨drained, hdrained, hperm, _, hempty, _⟩ := hdrain (by decide)
  exact ⟨drained, hdrained, hperm.trans (by decide), hempty⟩

/-- While something is queued or in flight, a drain takes exactly the blocks
    whose line of buffered parents leads to a connected hash, each once and after
    its parent unless that is connected from the start. Then there is nothing to
    take, and the other blocks are where they were. -/
theorem drain_busy {start : DownloadState} (hkeyed : start.Keyed)
    (hbusy : start.queue ≠ [] ∨ start.in_flight ≠ ∅) (connected : HashSet BlockHash)
    (orders : List (Reorder BlockHash)) (hcalls : start.buffer.values.length < orders.length) :
    ∃ drained, drain orders start connected = some drained ∧
      (∀ block, block ∈ drained.blocks ↔ Connectable bitcoinkernel.Block.hash prev_blockhash
        (· ∈ connected) start.Buffered block) ∧
      drained.blocks.Nodup ∧
      ParentsFirst bitcoinkernel.Block.hash prev_blockhash (· ∈ connected) drained.blocks ∧
      (∀ order, (drained.download.take_connectable order
        (fun hash => hash ∈ drained.connected)).1 = none) ∧
      ∀ prev block, drained.download.buffer.lookup prev = some block ↔
        start.buffer.lookup prev = some block ∧ block ∉ drained.blocks := by
  obtain ⟨drained, hdrain⟩ := drain_ends connected hkeyed hcalls
  have hfrom := drain_from hkeyed hdrain
  have hfirst := hfrom.parents_connected hbusy
  refine ⟨drained, hdrain, ?_, hfrom.blocks_nodup hkeyed, hfirst, hfrom.stuck,
    hfrom.lookup_iff hkeyed⟩
  intro block
  exact ⟨fun hblock => hfirst.connectable (fun _ => hfrom.buffered_of_mem) hblock,
    hfrom.mem_of_connectable hkeyed⟩

/-- The genesis block is connected and the third block is on its way: the first
    two blocks are taken and the fourth stays. -/
theorem drain_busy_gap :
    ∃ drained, drain (List.replicate 4 .id)
        (regtest_buffered [regtest.block_hash 3] [2, 4, 1])
        (HashSet.collect [regtest.block_hash 0]) = some drained ∧
      regtest_link 2 ∈ drained.blocks ∧ regtest_link 4 ∉ drained.blocks ∧
      drained.download.buffer.lookup (regtest.block_hash 3) = some (regtest_link 4) := by
  have hkeyed : (regtest_buffered [regtest.block_hash 3] [2, 4, 1]).Keyed :=
    .of_entries (by decide)
  obtain ⟨drained, hdrain, hmem, _, _, _, hlookup⟩ := drain_busy hkeyed (.inl (by decide))
    (HashSet.collect [regtest.block_hash 0]) (List.replicate 4 .id) (by decide)
  have hfirst : regtest_link 1 ∈ drained.blocks := (hmem _).mpr (.known (by decide) (by decide))
  have hsecond : regtest_link 2 ∈ drained.blocks :=
    (hmem _).mpr (.child (by decide) ((hmem _).mp hfirst) (by decide))
  have hfourth : regtest_link 4 ∉ drained.blocks := by
    rw [hmem]
    intro hconnectable
    cases hconnectable with
    | known _ hknown => exact absurd hknown (by decide)
    | child _ helder hparent =>
      have hnone : ∀ elder ∈ (regtest_buffered [regtest.block_hash 3] [2, 4, 1]).buffer.values,
          prev_blockhash (regtest_link 4) ≠ elder.hash := by
        decide
      exact hnone _ helder.in_stock hparent
  exact ⟨drained, hdrain, hsecond, hfourth, (hlookup _ _).mpr ⟨by decide, hfourth⟩⟩

end net
