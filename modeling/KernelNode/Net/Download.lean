import KernelNode.Bitcoin.Types
import KernelNode.Collections.HashMap

open bitcoin std.collections

namespace net

/-- The blocks on their way: hashes to request, hashes requested and not yet
    received, and received blocks by the hash of their parent. -/
structure DownloadState where
  queue : List BlockHash
  in_flight : HashSet BlockHash
  buffer : HashMap BlockHash bitcoinkernel.Block

def DownloadState.default : DownloadState := ⟨[], ∅, ∅⟩

/-- The hashes that were not in the set, in order, and the set with them. -/
def insert_new : List BlockHash → HashSet BlockHash → List BlockHash × HashSet BlockHash
  | [], in_flight => ([], in_flight)
  | hash :: hashes, in_flight =>
    if hash ∈ in_flight then insert_new hashes in_flight
    else
      let (inserted, in_flight) := insert_new hashes (in_flight.insert hash ())
      (hash :: inserted, in_flight)

/-- The loop of `pop_batch`: the batch, the rest of the queue and the set. -/
def pop_batch_loop (batch_size : Nat) :
    List BlockHash → HashSet BlockHash → List BlockHash →
      List BlockHash × List BlockHash × HashSet BlockHash
  | [], in_flight, batch => (batch, [], in_flight)
  | hash :: queue, in_flight, batch =>
    if batch.length < batch_size then
      if hash ∈ in_flight then pop_batch_loop batch_size queue in_flight batch
      else pop_batch_loop batch_size queue (in_flight.insert hash ()) (batch ++ [hash])
    else (batch, hash :: queue, in_flight)

namespace DownloadState

def pop_batch (self : DownloadState) (batch_size : Nat) : List BlockHash × DownloadState :=
  let (batch, queue, in_flight) := pop_batch_loop batch_size self.queue self.in_flight []
  (batch, { self with queue, in_flight })

def claim (self : DownloadState) (hashes : List BlockHash) : List BlockHash × DownloadState :=
  let (claimed, in_flight) := insert_new hashes self.in_flight
  (claimed, { self with in_flight })

def release (self : DownloadState) (hash : BlockHash) : Bool × DownloadState :=
  (decide (hash ∈ self.in_flight), { self with in_flight := self.in_flight.erase hash })

/-- Each hash goes to the front of the queue in the order in which the set is
    iterated. -/
def requeue_unreceived (self : DownloadState) (order : Reorder BlockHash)
    (inventory : HashSet BlockHash) : DownloadState :=
  (order.apply inventory.keys).foldl (fun state hash =>
    { state with in_flight := state.in_flight.erase hash, queue := hash :: state.queue }) self

def buffer_block (self : DownloadState) (prev_blockhash : BlockHash) (block : bitcoinkernel.Block) :
    DownloadState :=
  { self with buffer := self.buffer.insert prev_blockhash block }

def buffered_hashes (self : DownloadState) : HashSet BlockHash :=
  HashSet.collect (self.buffer.values.map bitcoinkernel.Block.hash)

/-- The first parent, in iteration order, that is not itself in the buffer. -/
def buffer_head (self : DownloadState) (order : Reorder BlockHash) : Option BlockHash :=
  let buffered := self.buffered_hashes
  (order.apply self.buffer.keys).find? fun prev => prev ∉ buffered

/-- The next block to process: one whose parent is connected, or, once nothing
    is queued or in flight, the first of a branch. The order is the one in which
    the buffer is iterated. -/
def take_connectable (self : DownloadState) (order : Reorder BlockHash)
    (is_connected : BlockHash → Bool) : Option bitcoinkernel.Block × DownloadState :=
  match (order.apply self.buffer.keys).find? is_connected with
  | some prev =>
    let (block, buffer) := self.buffer.remove prev
    (block, { self with buffer })
  | none =>
    if !self.queue.isEmpty || !self.in_flight.keys.isEmpty then (none, self) else
    match self.buffer_head order with
    | none => (none, self)
    | some prev =>
      let (block, buffer) := self.buffer.remove prev
      (block, { self with buffer })

end DownloadState

/-- What claiming does to the set in flight: each claimed hash is new to it. -/
structure Claims (before after : HashSet BlockHash) (claimed : List BlockHash) : Prop where
  nodup : claimed.Nodup
  free : ∀ hash ∈ claimed, hash ∉ before
  mem_iff : ∀ hash, hash ∈ after ↔ hash ∈ before ∨ hash ∈ claimed

theorem insert_new_claims (hashes : List BlockHash) (in_flight : HashSet BlockHash) :
    Claims in_flight (insert_new hashes in_flight).2 (insert_new hashes in_flight).1 := by
  induction hashes generalizing in_flight with
  | nil => exact ⟨List.nodup_nil, by simp [insert_new], by simp [insert_new]⟩
  | cons head tail ih =>
    simp only [insert_new]
    split
    · exact ih in_flight
    · rename_i hnew
      obtain ⟨nodup, free, mem_iff⟩ := ih (in_flight.insert head ())
      simp only [AList.mem_insert, not_or] at free mem_iff
      refine ⟨List.nodup_cons.mpr ⟨fun hhead => (free head hhead).1 rfl, nodup⟩, ?_, ?_⟩
      · intro hash hhash
        rcases List.mem_cons.mp hhash with rfl | hhash
        · exact hnew
        · exact (free hash hhash).2
      · intro hash
        rw [mem_iff, List.mem_cons]
        tauto

/-- Nothing is dropped that is not in flight afterwards, and nothing is claimed
    that was not asked for. -/
theorem insert_new_mem (hashes : List BlockHash) (in_flight : HashSet BlockHash)
    (hash : BlockHash) :
    (hash ∈ hashes → hash ∈ (insert_new hashes in_flight).2) ∧
      (hash ∈ (insert_new hashes in_flight).1 → hash ∈ hashes) := by
  induction hashes generalizing in_flight with
  | nil => simp [insert_new]
  | cons head tail ih =>
    simp only [insert_new]
    split
    · rename_i hknown
      obtain ⟨hkept, hasked⟩ := ih in_flight
      refine ⟨fun hhash => ?_, fun hhash => List.mem_cons_of_mem _ (hasked hhash)⟩
      rcases List.mem_cons.mp hhash with rfl | hhash
      · exact ((insert_new_claims tail in_flight).mem_iff hash).mpr (.inl hknown)
      · exact hkept hhash
    · obtain ⟨hkept, hasked⟩ := ih (in_flight.insert head ())
      refine ⟨fun hhash => ?_, fun hhash => ?_⟩
      · rcases List.mem_cons.mp hhash with rfl | hhash
        · exact ((insert_new_claims tail _).mem_iff hash).mpr
            (.inl ((AList.mem_insert _).mpr (.inl rfl)))
        · exact hkept hhash
      · rcases List.mem_cons.mp hhash with rfl | hhash
        · exact List.mem_cons_self
        · exact List.mem_cons_of_mem _ (hasked hhash)

/-- The loop takes hashes from the front of the queue and claims them. -/
theorem pop_batch_loop_eq (batch_size : Nat) (queue : List BlockHash)
    (in_flight : HashSet BlockHash) (batch : List BlockHash) :
    ∃ popped rest, queue = popped ++ rest ∧ pop_batch_loop batch_size queue in_flight batch =
      (batch ++ (insert_new popped in_flight).1, rest, (insert_new popped in_flight).2) := by
  induction queue generalizing in_flight batch with
  | nil => exact ⟨[], [], rfl, by simp [pop_batch_loop, insert_new]⟩
  | cons head tail ih =>
    simp only [pop_batch_loop]
    split
    · split
      · rename_i hknown
        obtain ⟨popped, rest, rfl, hloop⟩ := ih in_flight batch
        exact ⟨head :: popped, rest, rfl, by simp [hloop, insert_new, hknown]⟩
      · rename_i hnew
        obtain ⟨popped, rest, rfl, hloop⟩ := ih (in_flight.insert head ()) (batch ++ [head])
        exact ⟨head :: popped, rest, rfl, by simp [hloop, insert_new, hnew]⟩
    · exact ⟨[], head :: tail, rfl, by simp [insert_new]⟩

namespace DownloadState

variable (self : DownloadState)

theorem pop_batch_eq (batch_size : Nat) :
    ∃ popped rest, self.queue = popped ++ rest ∧
      self.pop_batch batch_size = ((insert_new popped self.in_flight).1,
        { self with queue := rest, in_flight := (insert_new popped self.in_flight).2 }) := by
  obtain ⟨popped, rest, hqueue, hloop⟩ := pop_batch_loop_eq batch_size self.queue self.in_flight []
  exact ⟨popped, rest, hqueue, by simp [pop_batch, hloop]⟩

theorem pop_batch_claims (batch_size : Nat) :
    Claims self.in_flight (self.pop_batch batch_size).2.in_flight
      (self.pop_batch batch_size).1 := by
  obtain ⟨popped, rest, _, hpop⟩ := self.pop_batch_eq batch_size
  rw [hpop]
  exact insert_new_claims popped self.in_flight

@[simp]
theorem pop_batch_buffer (batch_size : Nat) : (self.pop_batch batch_size).2.buffer = self.buffer :=
    rfl

/-- A batch takes its hashes from the queue, and what leaves the queue is in
    flight. -/
theorem pop_batch_queue (batch_size : Nat) (hash : BlockHash) :
    (hash ∈ (self.pop_batch batch_size).1 → hash ∈ self.queue) ∧
      (hash ∈ (self.pop_batch batch_size).2.queue → hash ∈ self.queue) ∧
      (hash ∈ self.queue →
        hash ∈ (self.pop_batch batch_size).2.queue ∨
          hash ∈ (self.pop_batch batch_size).2.in_flight) := by
  obtain ⟨popped, rest, hqueue, hpop⟩ := self.pop_batch_eq batch_size
  obtain ⟨hkept, hasked⟩ := insert_new_mem popped self.in_flight hash
  rw [hpop, hqueue]
  simp only [List.mem_append]
  exact ⟨fun hbatch => .inl (hasked hbatch), .inr,
    Or.rec (fun hpopped => .inr (hkept hpopped)) .inl⟩

theorem claim_claims (hashes : List BlockHash) :
    Claims self.in_flight (self.claim hashes).2.in_flight (self.claim hashes).1 :=
  insert_new_claims hashes self.in_flight

@[simp]
theorem claim_queue (hashes : List BlockHash) : (self.claim hashes).2.queue = self.queue := rfl

@[simp]
theorem claim_buffer (hashes : List BlockHash) : (self.claim hashes).2.buffer = self.buffer := rfl

theorem claim_subset (hashes : List BlockHash) : (self.claim hashes).1 ⊆ hashes :=
  fun hash => (insert_new_mem hashes self.in_flight hash).2

theorem requeue_unreceived_eq (order : Reorder BlockHash) (inventory : HashSet BlockHash) :
    self.requeue_unreceived order inventory = { self with
      queue := (order.apply inventory.keys).reverse ++ self.queue
      in_flight := (order.apply inventory.keys).foldl (fun in_flight hash => in_flight.erase hash)
        self.in_flight } := by
  simp only [requeue_unreceived]
  generalize order.apply inventory.keys = hashes
  induction hashes generalizing self with
  | nil => rfl
  | cons head tail ih => simp [ih]

theorem mem_requeue_unreceived_in_flight (order : Reorder BlockHash) (inventory : HashSet BlockHash)
    (hash : BlockHash) :
    hash ∈ (self.requeue_unreceived order inventory).in_flight ↔ hash ∉ inventory ∧
      hash ∈ self.in_flight := by
  rw [requeue_unreceived_eq, HashSet.mem_foldl_erase, order.mem_apply]
  rfl

/-- A key that the iteration finds has a block. -/
theorem lookup_of_find {order : Reorder BlockHash} {p : BlockHash → Bool} {prev : BlockHash}
    (hfind : (order.apply self.buffer.keys).find? p = some prev) :
    ∃ block, self.buffer.lookup prev = some block := by
  have hmem : prev ∈ self.buffer.keys := order.mem_apply.mp (List.mem_of_find?_eq_some hfind)
  exact Option.isSome_iff_exists.mp (AList.lookup_isSome.mpr hmem)

theorem take_connectable_eq_none {order : Reorder BlockHash} {is_connected : BlockHash → Bool}
    {after : DownloadState} (htake : self.take_connectable order is_connected = (none, after)) :
    after = self := by
  simp only [take_connectable, HashMap.remove] at htake
  split at htake
  · rename_i prev hfind
    obtain ⟨block, hblock⟩ := self.lookup_of_find hfind
    simp [hblock] at htake
  · split at htake
    · exact (Prod.mk.inj htake).2.symm
    · split at htake
      · exact (Prod.mk.inj htake).2.symm
      · rename_i prev hhead
        obtain ⟨block, hblock⟩ := self.lookup_of_find hhead
        simp [hblock] at htake

/-- What `take_connectable` hands out is taken from under its parent, which is
    connected, or is not in the buffer while nothing is queued or in flight. -/
theorem take_connectable_eq_some {order : Reorder BlockHash} {is_connected : BlockHash → Bool}
    {block : bitcoinkernel.Block} {after : DownloadState}
    (htake : self.take_connectable order is_connected = (some block, after)) :
    ∃ prev, self.buffer.lookup prev = some block ∧
      after = { self with buffer := self.buffer.erase prev } ∧
      (is_connected prev = true ∨ self.queue = [] ∧ self.in_flight.keys = [] ∧
        prev ∉ self.buffered_hashes) := by
  simp only [take_connectable, HashMap.remove] at htake
  split at htake
  · rename_i prev hfind
    obtain ⟨hblock, rfl⟩ := Prod.mk.inj htake
    exact ⟨prev, hblock, rfl, .inl (List.find?_some hfind)⟩
  · split at htake
    · cases htake
    · rename_i hidle
      split at htake
      · cases htake
      · rename_i prev hhead
        obtain ⟨hblock, rfl⟩ := Prod.mk.inj htake
        simp only [Bool.or_eq_true, Bool.not_eq_true', not_or, Bool.not_eq_false,
          List.isEmpty_iff] at hidle
        exact ⟨prev, hblock, rfl, .inr ⟨hidle.1, hidle.2, by simpa using List.find?_some hhead⟩⟩

/-- Nothing is handed out exactly when no parent is connected and, once nothing
    is queued or in flight, every parent is itself in the buffer. -/
theorem take_connectable_fst_eq_none_iff (order : Reorder BlockHash)
    (is_connected : BlockHash → Bool) :
    (self.take_connectable order is_connected).1 = none ↔
      (∀ prev ∈ self.buffer, is_connected prev = false) ∧
        (self.queue = [] → self.in_flight.keys = [] →
          ∀ prev ∈ self.buffer, prev ∈ self.buffered_hashes) := by
  have hfind : ∀ p : BlockHash → Bool, (order.apply self.buffer.keys).find? p = none ↔
      ∀ prev ∈ self.buffer, p prev = false := by
    intro p
    simp only [List.find?_eq_none, order.mem_apply, Bool.not_eq_true]
    rfl
  simp only [take_connectable, HashMap.remove]
  split
  · rename_i prev hprev
    obtain ⟨block, hblock⟩ := self.lookup_of_find hprev
    have hconnected := (hfind is_connected).not.mp (by simp [hprev])
    simp [hblock, hconnected]
  · rename_i hnone
    rw [hfind] at hnone
    split
    · rename_i hbusy
      simp only [Bool.or_eq_true, Bool.not_eq_true', List.isEmpty_eq_false_iff] at hbusy
      exact ⟨fun _ => ⟨hnone, by tauto⟩, fun _ => rfl⟩
    · rename_i hidle
      simp only [Bool.or_eq_true, Bool.not_eq_true', not_or, Bool.not_eq_false,
        List.isEmpty_iff] at hidle
      split
      · rename_i hhead
        rw [buffer_head, hfind] at hhead
        exact ⟨fun _ => ⟨hnone, fun _ _ => by simpa using hhead⟩, fun _ => rfl⟩
      · rename_i prev hhead
        obtain ⟨block, hblock⟩ := self.lookup_of_find hhead
        have hmem : prev ∈ self.buffer := AList.lookup_isSome.mp (by simp [hblock])
        have hfree : prev ∉ self.buffered_hashes := by simpa using List.find?_some hhead
        simp only [hblock, reduceCtorEq, false_iff, not_and]
        intro _ hall
        exact hfree (hall hidle.1 hidle.2 prev hmem)

theorem mem_buffered_hashes (hash : BlockHash) :
    hash ∈ self.buffered_hashes ↔ ∃ prev block, self.buffer.lookup prev = some block ∧
      block.hash = hash := by
  simp only [buffered_hashes, HashSet.mem_collect, List.mem_map, HashMap.mem_values_iff_lookup]
  tauto

/-- Taking a block out of the buffer leaves the others in it. -/
theorem mem_buffered_hashes_erase {prev hash : BlockHash} {block : bitcoinkernel.Block}
    (hprev : self.buffer.lookup prev = some block) (hhash : hash ∈ self.buffered_hashes) :
    hash = block.hash ∨ hash ∈ { self with buffer := self.buffer.erase prev }.buffered_hashes := by
  obtain ⟨key, other, hlookup, rfl⟩ := (self.mem_buffered_hashes hash).mp hhash
  by_cases hkey : key = prev
  · subst hkey
    exact .inl (congrArg _ (Option.some.inj (hlookup.symm.trans hprev)))
  · exact .inr ((mem_buffered_hashes _ _).mpr
      ⟨key, other, (AList.lookup_erase_ne hkey).trans hlookup, rfl⟩)

end DownloadState

/-- Every buffered block is under its own parent. -/
def DownloadState.Keyed (self : DownloadState) : Prop :=
  ∀ prev block, self.buffer.lookup prev = some block → block.header.prev_blockhash = prev

theorem DownloadState.Keyed.of_buffer_eq {before after : DownloadState} (hkeyed : before.Keyed)
    (hbuffer : after.buffer = before.buffer) : after.Keyed := by
  intro prev block hlookup
  rw [hbuffer] at hlookup
  exact hkeyed prev block hlookup

theorem DownloadState.Keyed.buffer_block {download : DownloadState} {block : bitcoinkernel.Block}
    {prev : BlockHash} (hkeyed : download.Keyed) (hparent : block.header.prev_blockhash = prev) :
    (download.buffer_block prev block).Keyed := by
  intro key other hlookup
  simp only [DownloadState.buffer_block] at hlookup
  by_cases hkey : key = prev
  · subst hkey
    rw [AList.lookup_insert, Option.some.injEq] at hlookup
    rw [← hlookup, hparent]
  · rw [AList.lookup_insert_ne hkey] at hlookup
    exact hkeyed key other hlookup

theorem DownloadState.Keyed.take_connectable {before after : DownloadState}
    {order : Reorder BlockHash} {is_connected : BlockHash → Bool} {block : bitcoinkernel.Block}
    (hkeyed : before.Keyed) (htake : before.take_connectable order is_connected =
      (some block, after)) : after.Keyed := by
  obtain ⟨taken, _, rfl, _⟩ := DownloadState.take_connectable_eq_some _ htake
  intro prev other hlookup
  have hprev : prev ≠ taken := by
    rintro rfl
    simp at hlookup
  rw [AList.lookup_erase_ne hprev] at hlookup
  exact hkeyed prev other hlookup

end net
