import Mathlib.Data.List.Nodup
import KernelNode.Bitcoin.Types

open bitcoin

namespace bitcoinkernel

/-- The outpoints a transaction spends; a coinbase input spends none. -/
def Transaction.spends (self : Transaction) : List OutPoint :=
  (self.inputs.map TxIn.outpoint).filter fun outpoint => outpoint ≠ .null

theorem Transaction.mem_spends {self : Transaction} {outpoint : OutPoint} :
    outpoint ∈ self.spends ↔ (∃ input ∈ self.inputs, input.outpoint = outpoint) ∧
      outpoint ≠ .null := by
  simp [spends]

/-- The transactions of a chain in chain order. -/
def chain_transactions (chain : List Block) : List Transaction :=
  chain.flatMap Block.transactions

/-- What consensus gives along one chain from its first block. -/
structure Consensus (chain : List Block) : Prop where
  unique_txids : ((chain_transactions chain).map Transaction.txid).Nodup
  spent_once : ((chain_transactions chain).flatMap Transaction.spends).Nodup
  spends_earlier : ∀ before tx after, chain_transactions chain = before ++ tx :: after →
    ∀ outpoint ∈ tx.spends, ∃ earlier ∈ before,
      earlier.txid = outpoint.txid ∧ outpoint.vout.toNat < earlier.outputs.length

/-- What consensus gives along a part of a chain, whose inputs may also spend
    outputs from below it. -/
structure Coherent (chain : List Block) : Prop where
  unique_txids : ((chain_transactions chain).map Transaction.txid).Nodup
  spent_once : ((chain_transactions chain).flatMap Transaction.spends).Nodup
  created_first : ∀ before tx after, chain_transactions chain = before ++ tx :: after →
    ∀ outpoint ∈ tx.spends, outpoint.txid ∉ after.map Transaction.txid

/-- Consensus over transaction positions, a form that can be evaluated. -/
theorem consensus_iff_indexed (chain : List Block) :
    Consensus chain ↔ ((chain_transactions chain).map Transaction.txid).Nodup ∧
      ((chain_transactions chain).flatMap Transaction.spends).Nodup ∧
      ∀ i (h : i < (chain_transactions chain).length), ∀ outpoint ∈
        (chain_transactions chain)[i].spends,
        ∃ earlier ∈ (chain_transactions chain).take i,
          earlier.txid = outpoint.txid ∧ outpoint.vout.toNat < earlier.outputs.length := by
  constructor
  · rintro ⟨htxids, honce, hearlier⟩
    refine ⟨htxids, honce, ?_⟩
    intro i h
    exact hearlier ((chain_transactions chain).take i) _ ((chain_transactions chain).drop (i + 1))
      (by simp)
  · rintro ⟨htxids, honce, hindex⟩
    refine ⟨htxids, honce, ?_⟩
    intro before tx after hsplit
    have htx := hindex before.length (by simp [hsplit])
    simpa [hsplit] using htx

instance (chain : List Block) : Decidable (Consensus chain) :=
  decidable_of_iff _ (consensus_iff_indexed chain).symm

theorem Consensus.nil : Consensus [] := by decide

theorem chain_transactions_append (below chain : List Block) :
    chain_transactions (below ++ chain) = chain_transactions below ++ chain_transactions chain := by
  simp [chain_transactions]

theorem chain_transactions_snoc (chain : List Block) (block : Block) :
    chain_transactions (chain ++ [block]) = chain_transactions chain ++ block.transactions := by
  simp [chain_transactions]

theorem Consensus.of_snoc {chain : List Block} {block : Block} (h : Consensus (chain ++ [block])) :
    Consensus chain := by
  obtain ⟨htxids, honce, hearlier⟩ := h
  rw [chain_transactions_snoc] at htxids honce
  rw [List.map_append] at htxids
  rw [List.flatMap_append] at honce
  refine ⟨htxids.of_append_left, honce.of_append_left, ?_⟩
  intro before tx after hsplit
  exact hearlier before tx (after ++ block.transactions)
    (by rw [chain_transactions_snoc, hsplit]; simp)

/-- The upper part of a valid chain is coherent. -/
theorem Consensus.coherent (below : List Block) {chain : List Block}
    (h : Consensus (below ++ chain)) : Coherent chain := by
  obtain ⟨htxids, honce, hearlier⟩ := h
  rw [chain_transactions_append] at htxids honce hearlier
  have hunique := htxids
  rw [List.map_append] at htxids
  rw [List.flatMap_append] at honce
  refine ⟨htxids.of_append_right, honce.of_append_right, ?_⟩
  intro before tx after hsplit outpoint hspent hafter
  rw [hsplit, ← List.append_assoc] at hearlier hunique
  obtain ⟨earlier, hbefore, htxid, _⟩ := hearlier _ tx after rfl outpoint hspent
  rw [List.map_append, List.map_cons, List.nodup_append'] at hunique
  exact hunique.2.2 (List.mem_map_of_mem hbefore) (List.mem_cons_of_mem _ (htxid ▸ hafter))

namespace Coherent

variable {chain : List Block} {block : Block}

theorem of_snoc (h : Coherent (chain ++ [block])) : Coherent chain := by
  obtain ⟨htxids, honce, hfirst⟩ := h
  rw [chain_transactions_snoc, List.map_append] at htxids
  rw [chain_transactions_snoc, List.flatMap_append] at honce
  refine ⟨htxids.of_append_left, honce.of_append_left, ?_⟩
  intro before tx after hsplit outpoint hspent hafter
  refine hfirst before tx (after ++ block.transactions)
    (by rw [chain_transactions_snoc, hsplit]; simp) outpoint hspent ?_
  rw [List.map_append]
  exact List.mem_append_left _ hafter

/-- The tip block's transactions are new to the chain below it. -/
theorem txid_fresh (h : Coherent (chain ++ [block])) {tx : Transaction}
    (htx : tx ∈ chain_transactions chain) : tx.txid ∉ block.txids := by
  have hnodup := h.unique_txids
  rw [chain_transactions_snoc, List.map_append, List.nodup_append'] at hnodup
  exact hnodup.2.2 (List.mem_map_of_mem htx)

/-- No outpoint is spent both below the tip and in the tip block. -/
theorem spent_below_not_in_tip (h : Coherent (chain ++ [block])) {tx tip : Transaction}
    {outpoint : OutPoint} (htx : tx ∈ chain_transactions chain) (hspent : outpoint ∈ tx.spends)
    (htip : tip ∈ block.transactions) : outpoint ∉ tip.spends := by
  have hnodup := h.spent_once
  rw [chain_transactions_snoc, List.flatMap_append, List.nodup_append'] at hnodup
  intro hagain
  exact hnodup.2.2 (List.mem_flatMap_of_mem htx hspent) (List.mem_flatMap_of_mem htip hagain)

/-- What the tip block creates is not spent below it. -/
theorem created_not_spent_below (h : Coherent (chain ++ [block])) {tx : Transaction}
    {outpoint : OutPoint} (htx : tx ∈ chain_transactions chain)
    (hcreated : outpoint.txid ∈ block.txids) : outpoint ∉ tx.spends := by
  intro hspent
  obtain ⟨before, after, hsplit⟩ := List.append_of_mem htx
  have hfirst := h.created_first before tx (after ++ block.transactions)
    (by rw [chain_transactions_snoc, hsplit]; simp) outpoint hspent
  exact hfirst (by rw [List.map_append]; exact List.mem_append_right _ hcreated)

end Coherent

end bitcoinkernel
