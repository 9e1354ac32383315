import KernelNode.Bitcoin.Regtest
import KernelNode.Net.Download

open bitcoin std.collections

namespace net

/-- What a queue asks for: the hashes that are not in flight, each at the first
    place where it is queued. -/
def DownloadState.wanted (self : DownloadState) : List BlockHash :=
  (self.queue.filter fun hash => hash ∉ self.in_flight).eraseDups

/-- Successive calls of `pop_batch`: each batch with the state it leaves. -/
def DownloadState.pop_batches : DownloadState → List Nat → List (List BlockHash × DownloadState)
  | _, [] => []
  | self, batch_size :: batch_sizes =>
    self.pop_batch batch_size :: (self.pop_batch batch_size).2.pop_batches batch_sizes

/-- All that successive calls return, in order. -/
def DownloadState.popped (self : DownloadState) (batch_sizes : List Nat) : List BlockHash :=
  (self.pop_batches batch_sizes).flatMap Prod.fst

/-- The state after successive calls. -/
def DownloadState.after_batches (self : DownloadState) (batch_sizes : List Nat) : DownloadState :=
  batch_sizes.foldl (fun state batch_size => (state.pop_batch batch_size).2) self

theorem insert_new_fst (hashes : List BlockHash) (in_flight : HashSet BlockHash) :
    (insert_new hashes in_flight).1 = (hashes.filter fun hash => hash ∉ in_flight).eraseDups := by
  induction hashes generalizing in_flight with
  | nil => rfl
  | cons head tail ih =>
    simp only [insert_new]
    split
    · rename_i hknown
      rw [ih, List.filter_cons_of_neg (by simpa using hknown)]
    · rename_i hnew
      rw [List.filter_cons_of_pos (by simpa using hnew), List.eraseDups_cons, List.filter_filter]
      simp only [ih, AList.mem_insert, not_or, Bool.decide_and, decide_not, List.cons.injEq,
        true_and]
      congr 1

theorem insert_new_append (hashes others : List BlockHash) (in_flight : HashSet BlockHash) :
    insert_new (hashes ++ others) in_flight =
      ((insert_new hashes in_flight).1 ++ (insert_new others (insert_new hashes in_flight).2).1,
        (insert_new others (insert_new hashes in_flight).2).2) := by
  induction hashes generalizing in_flight with
  | nil => rfl
  | cons head tail ih =>
    simp only [List.cons_append, insert_new]
    split
    · exact ih in_flight
    · simp [ih]

theorem Claims.append {before between after : HashSet BlockHash} {first second : List BlockHash}
    (hfirst : Claims before between first) (hsecond : Claims between after second) :
    Claims before after (first ++ second) where
  nodup := by
    refine hfirst.nodup.append hsecond.nodup fun hash hhash hagain => ?_
    exact hsecond.free hash hagain ((hfirst.mem_iff hash).mpr (.inr hhash))
  free hash hhash := by
    rcases List.mem_append.mp hhash with hhash | hhash
    · exact hfirst.free hash hhash
    · exact fun hknown => hsecond.free hash hhash ((hfirst.mem_iff hash).mpr (.inl hknown))
  mem_iff hash := by
    rw [hsecond.mem_iff, hfirst.mem_iff, List.mem_append, or_assoc]

/-- The loop stops at the batch size, or before it at the end of the queue. -/
theorem pop_batch_loop_length (batch_size : Nat) (queue : List BlockHash)
    (in_flight : HashSet BlockHash) (batch : List BlockHash) (hbatch : batch.length ≤ batch_size) :
    (pop_batch_loop batch_size queue in_flight batch).1.length ≤ batch_size ∧
      ((pop_batch_loop batch_size queue in_flight batch).1.length < batch_size →
        (pop_batch_loop batch_size queue in_flight batch).2.1 = []) := by
  induction queue generalizing in_flight batch with
  | nil => exact ⟨hbatch, fun _ => rfl⟩
  | cons head tail ih =>
    simp only [pop_batch_loop]
    split
    · rename_i hroom
      split
      · exact ih in_flight batch hbatch
      · exact ih _ _ (by rwa [List.length_append])
    · rename_i hfull
      exact ⟨hbatch, fun hshort => absurd hshort hfull⟩

namespace DownloadState

variable (self : DownloadState)

theorem wanted_eq : self.wanted = (insert_new self.queue self.in_flight).1 :=
  (insert_new_fst self.queue self.in_flight).symm

theorem pop_batch_length (batch_size : Nat) :
    (self.pop_batch batch_size).1.length ≤ batch_size ∧
      ((self.pop_batch batch_size).1.length < batch_size →
        (self.pop_batch batch_size).2.queue = []) :=
  pop_batch_loop_length batch_size self.queue self.in_flight [] (Nat.zero_le batch_size)

/-- A batch is the front of what the queue asks for, and the new queue asks for
    the rest. -/
theorem pop_batch_wanted (batch_size : Nat) :
    self.wanted = (self.pop_batch batch_size).1 ++ (self.pop_batch batch_size).2.wanted := by
  obtain ⟨popped, rest, hqueue, hpop⟩ := self.pop_batch_eq batch_size
  rw [hpop, wanted_eq, wanted_eq, hqueue, insert_new_append]

/-- A batch that may hold something takes something from the queue. -/
theorem pop_batch_queue_length {batch_size : Nat} (hsize : 0 < batch_size) :
    (self.pop_batch batch_size).2.queue.length ≤ self.queue.length - 1 := by
  obtain ⟨queue, in_flight, buffer⟩ := self
  cases queue with
  | nil => exact Nat.le_refl 0
  | cons head tail =>
    have htail (in_flight : HashSet BlockHash) (batch : List BlockHash) :
        (pop_batch_loop batch_size tail in_flight batch).2.1.length ≤ tail.length := by
      obtain ⟨popped, rest, hqueue, hloop⟩ := pop_batch_loop_eq batch_size tail in_flight batch
      rw [hloop, hqueue, List.length_append]
      exact Nat.le_add_left _ _
    simp only [pop_batch, pop_batch_loop, List.length_nil, hsize, if_true]
    split
    · exact htail _ _
    · exact htail _ _

theorem after_batches_cons (batch_size : Nat) (batch_sizes : List Nat) :
    self.after_batches (batch_size :: batch_sizes) =
      (self.pop_batch batch_size).2.after_batches batch_sizes := rfl

theorem popped_cons (batch_size : Nat) (batch_sizes : List Nat) :
    self.popped (batch_size :: batch_sizes) =
      (self.pop_batch batch_size).1 ++ (self.pop_batch batch_size).2.popped batch_sizes := rfl

theorem popped_wanted (batch_sizes : List Nat) :
    self.wanted = self.popped batch_sizes ++ (self.after_batches batch_sizes).wanted := by
  induction batch_sizes generalizing self with
  | nil => rfl
  | cons batch_size batch_sizes ih =>
    rw [self.pop_batch_wanted batch_size, ih, popped_cons, after_batches_cons, List.append_assoc]

theorem popped_claims (batch_sizes : List Nat) :
    Claims self.in_flight (self.after_batches batch_sizes).in_flight (self.popped batch_sizes) := by
  induction batch_sizes generalizing self with
  | nil => exact insert_new_claims [] self.in_flight
  | cons batch_size batch_sizes ih =>
    exact (self.pop_batch_claims batch_size).append (ih (self.pop_batch batch_size).2)

theorem pop_batches_length (batch_sizes : List Nat) :
    List.Forall₂ (fun batch_size call => call.1.length ≤ batch_size ∧
      (call.1.length < batch_size → call.2.queue = [])) batch_sizes
      (self.pop_batches batch_sizes) := by
  induction batch_sizes generalizing self with
  | nil => exact .nil
  | cons batch_size batch_sizes ih =>
    exact .cons (self.pop_batch_length batch_size) (ih (self.pop_batch batch_size).2)

/-- No hash is lost: it waits in the queue or it is in flight. -/
theorem mem_after_batches {batch_sizes : List Nat} {hash : BlockHash}
    (hhash : hash ∈ self.queue ∨ hash ∈ self.in_flight) :
    hash ∈ (self.after_batches batch_sizes).queue ∨
      hash ∈ (self.after_batches batch_sizes).in_flight := by
  induction batch_sizes generalizing self with
  | nil => exact hhash
  | cons batch_size batch_sizes ih =>
    refine ih (self.pop_batch batch_size).2 ?_
    rcases hhash with hqueued | hflying
    · exact (self.pop_batch_queue batch_size hash).2.2 hqueued
    · exact .inr (((self.pop_batch_claims batch_size).mem_iff hash).mpr (.inl hflying))

/-- Batches that may hold something empty the queue. -/
theorem after_batches_queue {batch_sizes : List Nat} (hsizes : ∀ size ∈ batch_sizes, 0 < size)
    (hlength : self.queue.length ≤ batch_sizes.length) :
    (self.after_batches batch_sizes).queue = [] := by
  induction batch_sizes generalizing self with
  | nil => exact List.length_eq_zero_iff.mp (Nat.le_zero.mp hlength)
  | cons batch_size batch_sizes ih =>
    obtain ⟨hsize, hsizes⟩ := List.forall_mem_cons.mp hsizes
    have hshorter := self.pop_batch_queue_length hsize
    rw [List.length_cons] at hlength
    exact ih (self.pop_batch batch_size).2 hsizes (by omega)

/-- A queue that has been emptied has returned all that it asked for. -/
theorem popped_of_empty {batch_sizes : List Nat}
    (hempty : (self.after_batches batch_sizes).queue = []) :
    self.popped batch_sizes = self.wanted := by
  have hrest : (self.after_batches batch_sizes).wanted = [] := by
    rw [wanted, hempty]
    rfl
  rw [self.popped_wanted batch_sizes, hrest, List.append_nil]

theorem mem_wanted {hash : BlockHash} (hqueued : hash ∈ self.queue)
    (hfree : hash ∉ self.in_flight) : hash ∈ self.wanted := by
  rw [wanted_eq]
  have hclaims := insert_new_claims self.queue self.in_flight
  exact ((hclaims.mem_iff hash).mp ((insert_new_mem _ _ hash).1 hqueued)).resolve_left hfree

end DownloadState

/-- Batching does not change what is fetched. Whatever the batch sizes, the
    batches together are the front of what the queue asked for. A batch is short
    only at the end of the queue, what is returned is new in flight, and nothing
    is lost. Hashes that go back to the queue are each returned once more by the
    time it is empty. -/
theorem batches_fetch_in_order (self : DownloadState) (batch_sizes : List Nat) :
    self.popped batch_sizes <+: (self.queue.filter fun hash => hash ∉ self.in_flight).eraseDups ∧
    List.Forall₂ (fun batch_size call => call.1.length ≤ batch_size ∧
      (call.1.length < batch_size → call.2.queue = [])) batch_sizes
      (self.pop_batches batch_sizes) ∧
    Claims self.in_flight (self.after_batches batch_sizes).in_flight (self.popped batch_sizes) ∧
    (∀ hash ∈ self.queue, hash ∈ (self.after_batches batch_sizes).queue ∨
      hash ∈ (self.after_batches batch_sizes).in_flight) ∧
    ((∀ size ∈ batch_sizes, 0 < size) → self.queue.length ≤ batch_sizes.length →
      (self.after_batches batch_sizes).queue = []) ∧
    ∀ order inventory,
      ((self.requeue_unreceived order inventory).after_batches batch_sizes).queue = [] →
      ∀ hash ∈ inventory,
        ((self.requeue_unreceived order inventory).popped batch_sizes).count hash = 1 := by
  refine ⟨⟨_, (self.popped_wanted batch_sizes).symm⟩, self.pop_batches_length batch_sizes,
    self.popped_claims batch_sizes, fun hash hhash => self.mem_after_batches (.inl hhash),
    fun hsizes hlength => self.after_batches_queue hsizes hlength, ?_⟩
  intro order inventory hempty hash hhash
  apply List.count_eq_one_of_mem (DownloadState.popped_claims _ batch_sizes).nodup
  rw [DownloadState.popped_of_empty _ hempty]
  apply DownloadState.mem_wanted
  · rw [DownloadState.requeue_unreceived_eq]
    exact List.mem_append_left _ (List.mem_reverse.mpr (order.mem_apply.mpr hhash))
  · rw [DownloadState.mem_requeue_unreceived_in_flight]
    exact fun hflying => hflying.1 hhash

/-- Two blocks are in flight, and the first of them and a third one are queued. -/
def regtest_requeued : DownloadState where
  queue := [regtest.block_hash 3, regtest.block_hash 1, regtest.block_hash 3]
  in_flight := HashSet.collect [regtest.block_hash 1, regtest.block_hash 2]
  buffer := ∅

theorem batches_fetch_in_order_requeued :
    (regtest_requeued.after_batches [1, 1, 1]).queue = [] ∧
      ((regtest_requeued.requeue_unreceived .id regtest_requeued.in_flight).popped
        [1, 2, 2]).count (regtest.block_hash 2) = 1 :=
  ⟨(batches_fetch_in_order regtest_requeued [1, 1, 1]).2.2.2.2.1 (by decide) (by decide),
    (batches_fetch_in_order regtest_requeued [1, 2, 2]).2.2.2.2.2 .id regtest_requeued.in_flight
      (by decide) (regtest.block_hash 2) (by decide)⟩

end net
