import KernelNode.Bitcoin.Consensus
import KernelNode.Wallet.Block

open bitcoin secp256k1 silentpayments std.collections

namespace wallet

/-- A block of a chain with its undo data and its height. -/
structure ChainBlock where
  block : bitcoinkernel.Block
  spent_outputs : bitcoinkernel.BlockSpentOutputs
  block_height : UInt32
deriving DecidableEq

/-- The regtest blocks at their heights. -/
def regtest_funding : ChainBlock := ⟨regtest.funding_block, ⟨[]⟩, 1⟩
def regtest_payment : ChainBlock := ⟨regtest.payment_block, regtest.payment_spent, 2⟩
def regtest_spending : ChainBlock := ⟨regtest.spending_block, regtest.spending_spent, 3⟩

/-- What `scan_block_inner` reports for the block under the given keys. -/
def ChainBlock.found (secpInst : secp256k1.Api) (spInst : silentpayments.Api)
    (keys : SilentPaymentKeys) (self : ChainBlock) : Option (List (OutPoint × Coin)) :=
  scan_block_inner secpInst spInst keys.receiver keys.scan_key self.block self.spent_outputs
    self.block_height

/-- The coin at an outpoint as the chain creates it. -/
def created (secpInst : secp256k1.Api) (spInst : silentpayments.Api) (keys : SilentPaymentKeys)
    (chain : List ChainBlock) (outpoint : OutPoint) : Option Coin :=
  chain.findSome? fun next =>
    HashMap.last_value ((next.found secpInst spInst keys).getD []) outpoint

/-- The transaction of the chain that spends an outpoint. -/
def spender (chain : List ChainBlock) (outpoint : OutPoint) : Option SpentBy :=
  chain.findSome? fun next => (last_spender next.block.transactions outpoint).map fun txid =>
    { txid, block_height := next.block_height }

/-- The coins of a chain, as a function of the chain alone: what its blocks
    create, each with its spender on the chain. This is what the wallet's coin
    map is for; it mentions no order of events. -/
def ledger (secpInst : secp256k1.Api) (spInst : silentpayments.Api) (keys : SilentPaymentKeys)
    (chain : List ChainBlock) (outpoint : OutPoint) : Option Coin :=
  (created secpInst spInst keys chain outpoint).map fun coin =>
    { coin with spent_by := spender chain outpoint }

/-- A reported coin lies in one of the block's transactions, at an outpoint
    that is not the null one, is unspent and has a taproot script. -/
theorem found_spec {secpInst : secp256k1.Api} {spInst : silentpayments.Api}
    {keys : SilentPaymentKeys} {next : ChainBlock} {outpoint : OutPoint} {coin : Coin}
    (hlast : HashMap.last_value ((next.found secpInst spInst keys).getD []) outpoint = some coin) :
    outpoint.txid ∈ next.block.txids ∧ outpoint ≠ .null ∧ coin.spent_by = none ∧
      coin.script_pubkey.length = 34 := by
  cases hfound : next.found secpInst spInst keys with
  | none => simp [hfound, HashMap.last_value] at hlast
  | some found =>
    rw [hfound, Option.getD_some] at hlast
    obtain ⟨htxid, hnull, hunspent, pk, hparse, _⟩ :=
      scan_block_inner_spec hfound (HashMap.last_value_mem hlast)
    exact ⟨htxid, hnull, hunspent, parse_p2tr_length hparse⟩

section

variable (secpInst : secp256k1.Api) (spInst : silentpayments.Api) (keys : SilentPaymentKeys)

theorem created_snoc (chain : List ChainBlock) (next : ChainBlock) (outpoint : OutPoint) :
    created secpInst spInst keys (chain ++ [next]) outpoint =
      (created secpInst spInst keys chain outpoint).or
        (HashMap.last_value ((next.found secpInst spInst keys).getD []) outpoint) := by
  simp only [created, List.findSome?_append, List.findSome?_cons, List.findSome?_nil]
  cases HashMap.last_value ((next.found secpInst spInst keys).getD []) outpoint <;> rfl

theorem spender_snoc (chain : List ChainBlock) (next : ChainBlock) (outpoint : OutPoint) :
    spender (chain ++ [next]) outpoint =
      (spender chain outpoint).or ((last_spender next.block.transactions outpoint).map fun txid =>
        { txid, block_height := next.block_height }) := by
  simp only [spender, List.findSome?_append, List.findSome?_cons, List.findSome?_nil]
  cases last_spender next.block.transactions outpoint <;> rfl

end

variable {secpInst : secp256k1.Api} {spInst : silentpayments.Api} {keys : SilentPaymentKeys}
variable {chain : List ChainBlock} {next : ChainBlock} {outpoint : OutPoint}

theorem created_spec {coin : Coin} (hcreated : created secpInst spInst keys chain outpoint =
    some coin) :
    outpoint ≠ .null ∧ coin.spent_by = none ∧ coin.script_pubkey.length = 34 ∧
      ∃ tx ∈ bitcoinkernel.chain_transactions (chain.map ChainBlock.block), tx.txid =
        outpoint.txid := by
  obtain ⟨before, block, _, _, hlast, _⟩ := List.findSome?_eq_some_iff.mp hcreated
  obtain ⟨htxid, hnull, hunspent, hscript⟩ := found_spec hlast
  obtain ⟨tx, htx, htxid⟩ := List.mem_map.mp htxid
  refine ⟨hnull, hunspent, hscript, tx, ?_, htxid⟩
  have hblock : block ∈ chain := by simp_all
  exact List.mem_flatMap.mpr ⟨block.block, List.mem_map_of_mem hblock, htx⟩

theorem spender_spec {spent : SpentBy} (hspender : spender chain outpoint = some spent)
    (hnull : outpoint ≠ .null) :
    ∃ tx ∈ bitcoinkernel.chain_transactions (chain.map ChainBlock.block),
      tx.txid = spent.txid ∧ outpoint ∈ tx.spends := by
  obtain ⟨before, block, after, hsplit, hlast, _⟩ := List.findSome?_eq_some_iff.mp hspender
  obtain ⟨txid, hlastTxid, rfl⟩ := Option.map_eq_some_iff.mp hlast
  obtain ⟨tx, htx, htxid, hinput⟩ := last_spender_some hlastTxid
  have hblock : block ∈ chain := by simp [hsplit]
  exact ⟨tx, List.mem_flatMap.mpr ⟨block.block, List.mem_map_of_mem hblock, htx⟩, htxid,
    bitcoinkernel.Transaction.mem_spends.mpr ⟨hinput, hnull⟩⟩

theorem last_spender_spec {txid : Txid}
    (hspender : last_spender next.block.transactions outpoint = some txid)
    (hnull : outpoint ≠ .null) : ∃ tx ∈ next.block.transactions, tx.txid = txid ∧
    outpoint ∈ tx.spends := by
  obtain ⟨tx, htx, htxid, hinput⟩ := last_spender_some hspender
  exact ⟨tx, htx, htxid, bitcoinkernel.Transaction.mem_spends.mpr ⟨hinput, hnull⟩⟩

theorem ledger_script {coin : Coin}
    (hcoin : ledger secpInst spInst keys chain outpoint = some coin) :
    coin.script_pubkey.length = 34 := by
  obtain ⟨original, hcreated, rfl⟩ := Option.map_eq_some_iff.mp hcoin
  exact (created_spec hcreated).2.2.1

/-- A coin that the tip block spends had no spender below the tip. -/
theorem spender_eq_none_of_spent_in_tip
    (hvalid : bitcoinkernel.Coherent ((chain ++ [next]).map ChainBlock.block))
    (hnull : outpoint ≠ .null) {txid : Txid}
    (htip : last_spender next.block.transactions outpoint = some txid) :
    spender chain outpoint = none := by
  rw [List.map_append, List.map_singleton] at hvalid
  cases hspender : spender chain outpoint with
  | none => rfl
  | some spent =>
    obtain ⟨tx, htx, _, hbelow⟩ := spender_spec hspender hnull
    obtain ⟨tip, htip, _, habove⟩ := last_spender_spec htip hnull
    exact absurd habove (hvalid.spent_below_not_in_tip htx hbelow htip)

/-- A coin that the tip block creates is not created below it. -/
theorem created_eq_none_of_created_in_tip
    (hvalid : bitcoinkernel.Coherent ((chain ++ [next]).map ChainBlock.block))
    (htip : outpoint.txid ∈ next.block.txids) :
    created secpInst spInst keys chain outpoint = none := by
  rw [List.map_append, List.map_singleton] at hvalid
  cases hcreated : created secpInst spInst keys chain outpoint with
  | none => rfl
  | some coin =>
    obtain ⟨_, _, _, tx, htx, htxid⟩ := created_spec hcreated
    exact absurd (htxid ▸ htip) (hvalid.txid_fresh htx)

/-- Nothing below the tip spends a coin that the tip block creates. -/
theorem spender_eq_none_of_created_in_tip
    (hvalid : bitcoinkernel.Coherent ((chain ++ [next]).map ChainBlock.block))
    (htip : outpoint.txid ∈ next.block.txids) (hnull : outpoint ≠ .null) :
    spender chain outpoint = none := by
  rw [List.map_append, List.map_singleton] at hvalid
  cases hspender : spender chain outpoint with
  | none => rfl
  | some spent =>
    obtain ⟨tx, htx, _, hspent⟩ := spender_spec hspender hnull
    exact absurd hspent (hvalid.created_not_spent_below htx htip)

/-- Scanning the next block turns the coins of the chain into those of the
    longer chain. -/
theorem ledger_connect (hvalid : bitcoinkernel.Coherent ((chain ++ [next]).map ChainBlock.block)) :
    ((HashMap.last_value ((next.found secpInst spInst keys).getD []) outpoint).or
        (ledger secpInst spInst keys chain outpoint)).map
        (fun coin => coin.spend_last (last_spender next.block.transactions outpoint)
          next.block_height) =
      ledger secpInst spInst keys (chain ++ [next]) outpoint := by
  simp only [ledger, created_snoc, spender_snoc]
  cases hfound : HashMap.last_value ((next.found secpInst spInst keys).getD []) outpoint with
  | some coin =>
    obtain ⟨htip, hnull, hunspent, _⟩ := found_spec hfound
    rw [created_eq_none_of_created_in_tip hvalid htip, spender_eq_none_of_created_in_tip
      hvalid htip hnull]
    cases last_spender next.block.transactions outpoint with
    | none => simp [Coin.spend_last, ← hunspent]
    | some txid => simp [Coin.spend_last, Coin.spend]
  | none =>
    cases hcreated : created secpInst spInst keys chain outpoint with
    | none => simp
    | some coin =>
      obtain ⟨hnull, _⟩ := created_spec hcreated
      cases hlast : last_spender next.block.transactions outpoint with
      | none => simp [Coin.spend_last]
      | some txid =>
        simp [Coin.spend_last, Coin.spend, spender_eq_none_of_spent_in_tip hvalid hnull hlast]

/-- Disconnecting the tip block by its transaction ids turns the coins of the
    chain into those of the chain below it. -/
theorem ledger_disconnect
    (hvalid : bitcoinkernel.Coherent ((chain ++ [next]).map ChainBlock.block)) :
    (if outpoint.txid ∈ next.block.txids then none
      else (ledger secpInst spInst keys (chain ++ [next]) outpoint).map fun coin =>
        coin.unspend next.block.txids) =
      ledger secpInst spInst keys chain outpoint := by
  split
  · rename_i htip
    simp [ledger, created_eq_none_of_created_in_tip hvalid htip]
  · rename_i htip
    have hfound : HashMap.last_value ((next.found secpInst spInst keys).getD []) outpoint =
      none := by
      cases hlast : HashMap.last_value ((next.found secpInst spInst keys).getD []) outpoint with
      | none => rfl
      | some coin => exact absurd (found_spec hlast).1 htip
    simp only [ledger, created_snoc, spender_snoc, hfound, Option.or_none]
    cases hcreated : created secpInst spInst keys chain outpoint with
    | none => rfl
    | some coin =>
      obtain ⟨hnull, _⟩ := created_spec hcreated
      cases hspender : spender chain outpoint with
      | some spent =>
        -- spent below the tip, so not by one of the disconnected transactions
        obtain ⟨tx, htx, htxid, _⟩ := spender_spec hspender hnull
        rw [List.map_append, List.map_singleton] at hvalid
        have hfresh : spent.txid ∉ next.block.txids := htxid ▸ hvalid.txid_fresh htx
        simp [Coin.unspend, hfresh]
      | none =>
        cases hlast : last_spender next.block.transactions outpoint with
        | none => simp [Coin.unspend]
        | some txid =>
          obtain ⟨tx, htx, htxid, _⟩ := last_spender_spec hlast hnull
          have hmem : txid ∈ next.block.txids := htxid ▸ List.mem_map_of_mem htx
          simp [Coin.unspend, hmem]

end wallet
