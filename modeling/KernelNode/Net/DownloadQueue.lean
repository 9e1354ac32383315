import Mathlib.Data.List.Chain
import KernelNode.Net.Peer

open bitcoin bitcoinkernel std.collections

namespace std.i32

/-- Addition as a debug build does it: an overflow is a panic, here `none`. -/
def checked_add (left right : Int32) : Option Int32 :=
  if (left + right).toInt = left.toInt + right.toInt then some (left + right) else none

/-- Subtraction as a debug build does it. -/
def checked_sub (left right : Int32) : Option Int32 :=
  if (left - right).toInt = left.toInt - right.toInt then some (left - right) else none

end std.i32

namespace net

/-- With a block its parent is active. -/
def ParentClosed (active : BlockHash → Bool) (best : BlockTreeEntry) : Prop :=
  best.hashes.IsChain fun child parent => active child = true → active parent = true

/-- The block is neither active nor held nor asked for. -/
def DownloadState.lacks (self : DownloadState) (active : BlockHash → Bool) (hash : BlockHash) :
    Bool :=
  !active hash && (hash ∉ self.buffered_hashes && hash ∉ self.in_flight)

theorem DownloadState.lacks_iff {self : DownloadState} {active : BlockHash → Bool}
    {hash : BlockHash} :
    self.lacks active hash = true ↔ active hash = false ∧ hash ∉ self.buffered_hashes ∧
      hash ∉ self.in_flight := by
  simp [lacks]

theorem walk_to_fork_eq_none_iff (active : BlockHash → Bool) (ancestors : List BlockHash) :
    walk_to_fork active ancestors = none ↔ ∀ hash ∈ ancestors, active hash = false := by
  induction ancestors with
  | nil => simp [walk_to_fork]
  | cons hash ancestors ih =>
    by_cases hactive : active hash = true <;> simp [walk_to_fork, hactive, ih]

/-- Below the fork point everything is active, so that the walk collects the
    ancestors that are not. -/
theorem ParentClosed.hashes_eq_filter {active : BlockHash → Bool} {best : BlockTreeEntry}
    (hclosed : ParentClosed active best) {hashes : List BlockHash} {fork_point : BlockHash}
    (hwalk : walk_to_fork active best.hashes = some (hashes, fork_point)) :
    hashes = best.hashes.filter fun hash => !active hash := by
  obtain ⟨below, hsplit, hfork, hinactive⟩ := walk_to_fork_split hwalk
  rw [ParentClosed, hsplit] at hclosed
  have hbelow : ∀ hash ∈ fork_point :: below, active hash = true :=
    hclosed.right_of_append.induction (fun hash => active hash = true) _ (fun _ _ hstep => hstep)
      (fun _ => hfork)
  have hnone : (fork_point :: below).filter (fun hash => !active hash) = [] :=
    List.filter_eq_nil_iff.mpr fun hash hhash => by simp [hbelow hash hhash]
  have hall : hashes.filter (fun hash => !active hash) = hashes :=
    List.filter_eq_self.mpr fun hash hhash => by simp [hinactive hash hhash]
  rw [hsplit, List.filter_append, hnone, hall, List.append_nil]

section

variable {C : Type} {kernelInst : ChainstateManager C} {chainman : C} {download : DownloadState}

/-- Where the active chain is closed under parents, the queue is the part of the
    best chain that is missing, from the bottom up. -/
theorem populate_download_queue_eq_filter {best : BlockTreeEntry} (hqueue : download.queue = [])
    (hbest : kernelInst.best_entry chainman = some best)
    (hclosed : ParentClosed (kernelInst.active_contains chainman) best)
    {hash : BlockHash} (hhash : hash ∈ best.hashes)
    (hactive : kernelInst.active_contains chainman hash = true) :
    (populate_download_queue kernelInst chainman download).queue =
      (best.hashes.filter (download.lacks (kernelInst.active_contains chainman))).reverse := by
  cases hwalk : walk_to_fork (kernelInst.active_contains chainman) best.hashes with
  | none =>
    have hinactive := (walk_to_fork_eq_none_iff _ _).mp hwalk hash hhash
    simp [hactive] at hinactive
  | some walked =>
    obtain ⟨hashes, fork_point⟩ := walked
    have hhashes := hclosed.hashes_eq_filter hwalk
    have hmissing : missing_hashes kernelInst chainman = some hashes.reverse := by
      simp [missing_hashes, hbest, hwalk]
    have hfilter : best.hashes.filter (download.lacks (kernelInst.active_contains chainman)) =
        hashes.filter fun hash => hash ∉ download.buffered_hashes &&
          hash ∉ download.in_flight := by
      rw [hhashes, List.filter_filter]
      exact List.filter_congr fun hash _ => Bool.and_comm _ _
    rw [hfilter, ← List.filter_reverse]
    simp only [populate_download_queue, DownloadState.install_queue, hqueue, hmissing,
      List.isEmpty_nil, Bool.not_true, Bool.false_eq_true, if_false]
    split_ifs with hnothing hknown
    · rw [hqueue, List.isEmpty_iff.mp hnothing, List.filter_nil]
    · rw [hqueue, List.isEmpty_iff.mp hknown]
    · rfl

end

end net
