import KernelNode.Wallet.Scanning

open bitcoin secp256k1 silentpayments std.collections

namespace wallet

/-- The coin marked as spent by a transaction at a height. -/
def Coin.spend (self : Coin) (txid : Txid) (block_height : UInt32) : Coin :=
  { self with spent_by := some { txid, block_height } }

/-- The coin unmarked if one of the given transactions spent it. -/
def Coin.unspend (self : Coin) (block_txids : List Txid) : Coin :=
  match self.spent_by with
  | some s => if s.txid ∈ block_txids then { self with spent_by := none } else self
  | none => self

/-- The input loop of one transaction in `scan_block`. -/
def mark_spent (block_height : UInt32) (utxos : HashMap OutPoint Coin)
    (kernel_tx : bitcoinkernel.Transaction) : HashMap OutPoint Coin :=
  kernel_tx.inputs.foldl (fun utxos input =>
    utxos.modify input.outpoint fun utxo => utxo.spend kernel_tx.txid block_height) utxos

/-- Scan a connected block: record what it pays to the wallet, then mark every
    coin it spends. Without keys nothing happens; a panic is `none`. -/
def Wallet.scan_block (secpInst : secp256k1.Api) (spInst : silentpayments.Api) (self : Wallet)
    (kernel_block : bitcoinkernel.Block) (spent_outputs : bitcoinkernel.BlockSpentOutputs)
    (block_height : UInt32) : Option (Wallet × Nat) :=
  match self.keys with
  | none => some (self, 0)
  | some keys => do
    let found ← scan_block_inner secpInst spInst keys.receiver keys.scan_key kernel_block
      spent_outputs block_height
    let utxos := self.utxos.extend found
    let utxos := kernel_block.transactions.foldl (mark_spent block_height) utxos
    return ({ self with utxos, scan_height := block_height }, found.length)

/-- Undo a disconnected block by its transaction ids: drop the coins it created
    and unmark the coins it spent. -/
def Wallet.process_disconnect (self : Wallet) (kernel_block : bitcoinkernel.Block) : Wallet :=
  let block_txids := kernel_block.txids
  let utxos := self.utxos.retain fun outpoint _ => outpoint.txid ∉ block_txids
  { self with utxos := utxos.map_values fun utxo => utxo.unspend block_txids }

/-- The last transaction of the list with an input that spends the outpoint. -/
def last_spender (transactions : List bitcoinkernel.Transaction) (outpoint : OutPoint) :
    Option Txid :=
  (transactions.reverse.find? fun tx => tx.inputs.any fun input => input.outpoint = outpoint).map
    bitcoinkernel.Transaction.txid

/-- Marking a coin as spent by the last spender, if there is one. -/
def Coin.spend_last (self : Coin) (spender : Option Txid) (block_height : UInt32) : Coin :=
  spender.elim self fun txid => self.spend txid block_height

theorem Coin.unspend_block_height (self : Coin) (block_txids : List Txid) :
    (self.unspend block_txids).block_height = self.block_height := by
  simp only [unspend]
  split
  · split <;> rfl
  · rfl

/-- Unmarking makes no other spender. -/
theorem Coin.spent_by_of_unspend {self : Coin} {block_txids : List Txid} {s : SpentBy}
    (hmarked : (self.unspend block_txids).spent_by = some s) : self.spent_by = some s := by
  simp only [unspend] at hmarked
  split at hmarked
  · split at hmarked
    · cases hmarked
    · exact hmarked
  · exact hmarked

@[simp]
theorem Coin.spend_spend (self : Coin) (first second : Txid) (before after : UInt32) :
    (self.spend first before).spend second after = self.spend second after := rfl

theorem lookup_mark_spent (block_height : UInt32) (utxos : HashMap OutPoint Coin)
    (kernel_tx : bitcoinkernel.Transaction) (outpoint : OutPoint) :
    (mark_spent block_height utxos kernel_tx).lookup outpoint =
      (utxos.lookup outpoint).map fun coin =>
        if kernel_tx.inputs.any fun input =>
          input.outpoint = outpoint then coin.spend kernel_tx.txid block_height
        else coin := by
  simp only [mark_spent]
  generalize kernel_tx.inputs = inputs
  induction inputs generalizing utxos with
  | nil => simp
  | cons input inputs ih =>
    rw [List.foldl_cons, ih, HashMap.lookup_modify, Option.map_map, List.any_cons]
    congr 1
    funext coin
    by_cases hhead : input.outpoint = outpoint
    · by_cases htail : inputs.any fun input => input.outpoint = outpoint <;>
        simp [hhead, htail]
    · simp [hhead, Ne.symm hhead]

theorem last_spender_cons (tx : bitcoinkernel.Transaction)
    (transactions : List bitcoinkernel.Transaction) (outpoint : OutPoint) :
    last_spender (tx :: transactions) outpoint =
      (last_spender transactions outpoint).or
        (if tx.inputs.any fun input => input.outpoint = outpoint then some tx.txid else none) := by
  simp only [last_spender, List.reverse_cons, List.find?_append, List.find?_singleton]
  cases hfind : transactions.reverse.find? fun tx => tx.inputs.any fun input =>
    input.outpoint = outpoint with
  | some found => simp
  | none => by_cases hany : tx.inputs.any fun input => input.outpoint = outpoint <;> simp [hany]

theorem lookup_mark_spent_block (block_height : UInt32) (utxos : HashMap OutPoint Coin)
    (transactions : List bitcoinkernel.Transaction) (outpoint : OutPoint) :
    (transactions.foldl (mark_spent block_height) utxos).lookup outpoint =
      (utxos.lookup outpoint).map fun coin =>
        coin.spend_last (last_spender transactions outpoint) block_height := by
  induction transactions generalizing utxos with
  | nil => simp [last_spender, Coin.spend_last]
  | cons tx transactions ih =>
    rw [List.foldl_cons, ih, lookup_mark_spent, Option.map_map, last_spender_cons]
    congr 1
    funext coin
    cases last_spender transactions outpoint with
    | some txid =>
      by_cases hany : tx.inputs.any fun input => input.outpoint = outpoint <;>
        simp [Coin.spend_last, hany]
    | none =>
      by_cases hany : tx.inputs.any fun input => input.outpoint = outpoint <;>
        simp [Coin.spend_last, hany]

/-- The last spender is a transaction of the list with such an input. -/
theorem last_spender_some {transactions : List bitcoinkernel.Transaction}
    {outpoint : OutPoint} {txid : Txid}
    (hspender : last_spender transactions outpoint = some txid) :
    ∃ tx ∈ transactions, tx.txid = txid ∧ ∃ input ∈ tx.inputs, input.outpoint = outpoint := by
  simp only [last_spender, Option.map_eq_some_iff] at hspender
  obtain ⟨tx, hfind, htxid⟩ := hspender
  have hmem := List.mem_of_find?_eq_some hfind
  have hany := List.find?_some hfind
  simp only [List.mem_reverse] at hmem
  simp only [List.any_eq_true, decide_eq_true_eq] at hany
  exact ⟨tx, hmem, htxid, hany⟩

/-- What a disconnect leaves of each coin. -/
theorem Wallet.lookup_process_disconnect (self : Wallet) (kernel_block : bitcoinkernel.Block)
    (outpoint : OutPoint) :
    (self.process_disconnect kernel_block).utxos.lookup outpoint =
      if outpoint.txid ∈ kernel_block.txids then none
      else (self.utxos.lookup outpoint).map fun coin => coin.unspend kernel_block.txids := by
  simp only [process_disconnect, HashMap.lookup_map_values, HashMap.lookup_retain]
  split
  · rename_i hcreated
    cases self.utxos.lookup outpoint <;> simp [Option.filter, hcreated]
  · rename_i hcreated
    cases self.utxos.lookup outpoint <;> simp [Option.filter, hcreated]

/-- A scan with keys succeeds exactly when `scan_block_inner` does, and then
    decides each coin by what was found and what the block spends. -/
theorem Wallet.scan_block_eq_some_iff (secpInst : secp256k1.Api) (spInst : silentpayments.Api)
    {self : Wallet} {keys : SilentPaymentKeys} (hkeys : self.keys = some keys)
    {kernel_block : bitcoinkernel.Block} {spent_outputs : bitcoinkernel.BlockSpentOutputs}
    {block_height : UInt32} {result : Wallet × Nat} :
    self.scan_block secpInst spInst kernel_block spent_outputs block_height = some result ↔
      ∃ found, scan_block_inner secpInst spInst keys.receiver keys.scan_key kernel_block
        spent_outputs block_height =
          some found ∧
        result = ({ self with
          utxos := kernel_block.transactions.foldl (mark_spent block_height)
            (self.utxos.extend found)
          scan_height := block_height }, found.length) := by
  simp only [scan_block, hkeys, Option.bind_eq_bind, Option.bind_eq_some_iff, Option.pure_def,
    Option.some.injEq]
  constructor
  · rintro ⟨found, hfound, rfl⟩
    exact ⟨found, hfound, rfl⟩
  · rintro ⟨found, hfound, rfl⟩
    exact ⟨found, hfound, rfl⟩

/-- A scan changes the coins and the height only. -/
theorem Wallet.scan_block_frame {secpInst : secp256k1.Api} {spInst : silentpayments.Api}
    {self after : Wallet} {kernel_block : bitcoinkernel.Block}
    {spent_outputs : bitcoinkernel.BlockSpentOutputs} {block_height : UInt32} {count : Nat}
    (hscan : self.scan_block secpInst spInst kernel_block spent_outputs block_height =
      some (after, count)) :
    after = { self with utxos := after.utxos, scan_height := after.scan_height } := by
  rcases hkeys : self.keys with _ | keys
  · simp only [scan_block, hkeys, Option.some.injEq, Prod.mk.injEq] at hscan
    rw [← hscan.1, ← hkeys]
  · obtain ⟨found, _, hafter⟩ := (Wallet.scan_block_eq_some_iff secpInst spInst hkeys).mp hscan
    cases hafter
    rw [← hkeys]

theorem lookup_scanned (block_height : UInt32) (utxos : HashMap OutPoint Coin)
    (found : List (OutPoint × Coin)) (transactions : List bitcoinkernel.Transaction)
    (outpoint : OutPoint) :
    (transactions.foldl (mark_spent block_height) (utxos.extend found)).lookup outpoint =
      ((HashMap.last_value found outpoint).or (utxos.lookup outpoint)).map fun coin =>
        coin.spend_last (last_spender transactions outpoint) block_height := by
  rw [lookup_mark_spent_block, HashMap.lookup_extend]

end wallet
