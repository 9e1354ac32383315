import KernelNode.Wallet.Reorg

open bitcoin secp256k1 silentpayments std.collections

namespace wallet

/-- The coin with the given spender, or as it is where there is none. -/
def Coin.marked (spender : Option SpentBy) (self : Coin) : Coin :=
  match spender with
  | some s => { self with spent_by := some s }
  | none => self

@[simp]
theorem Coin.marked_marked (spender : Option SpentBy) (self : Coin) :
    (self.marked spender).marked spender = self.marked spender := by
  cases spender <;> rfl

theorem Coin.spend_last_marked (self : Coin) (spender : Option SpentBy) (last : Option Txid)
    (block_height : UInt32) :
    (self.marked spender).spend_last last block_height =
      self.marked ((last.map fun txid => ⟨txid, block_height⟩).or spender) := by
  cases last <;> cases spender <;> rfl

section

variable (secpInst : secp256k1.Api) (spInst : silentpayments.Api) (keys : SilentPaymentKeys)
  (outpoint : OutPoint)

/-- What scanning a block makes of the coin at an outpoint. -/
def ChainBlock.update (coin : Option Coin) (self : ChainBlock) : Option Coin :=
  ((HashMap.last_value ((self.found secpInst spInst keys).getD []) outpoint).or coin).map
    fun coin => coin.spend_last (last_spender self.block.transactions outpoint) self.block_height

/-- What scanning a chain makes of the coin at an outpoint. -/
def chain_update (chain : List ChainBlock) (coin : Option Coin) : Option Coin :=
  chain.foldl (ChainBlock.update secpInst spInst keys outpoint) coin

/-- A chain that creates a coin ends with the same coin whatever was there
    before, and any other chain at most marks the coin that was there. -/
theorem chain_update_cases (chain : List ChainBlock) :
    (∃ created, ∀ coin, chain_update secpInst spInst keys outpoint chain coin = some created) ∨
      ∃ spender, ∀ coin, chain_update secpInst spInst keys outpoint chain coin =
        coin.map (Coin.marked spender) := by
  induction chain using List.reverseRecOn with
  | nil => exact .inr ⟨none, fun coin => by cases coin <;> rfl⟩
  | append_singleton chain next ih =>
    simp only [chain_update, List.foldl_append, List.foldl_cons, List.foldl_nil] at ih ⊢
    cases hfound : HashMap.last_value ((next.found secpInst spInst keys).getD []) outpoint with
    | some found =>
      simp only [ChainBlock.update, hfound, Option.some_or, Option.map_some]
      exact .inl ⟨_, fun _ => rfl⟩
    | none =>
      simp only [ChainBlock.update, hfound, Option.none_or]
      rcases ih with ⟨created, hconstant⟩ | ⟨spender, hmarks⟩
      · simp only [hconstant, Option.map_some]
        exact .inl ⟨_, fun _ => rfl⟩
      · simp only [hmarks, Option.map_map, Function.comp_def, Coin.spend_last_marked]
        exact .inr ⟨_, fun _ => rfl⟩

/-- Scanning a chain again changes no coin. -/
theorem chain_update_idem (chain : List ChainBlock) (coin : Option Coin) :
    chain_update secpInst spInst keys outpoint chain
      (chain_update secpInst spInst keys outpoint chain coin) =
    chain_update secpInst spInst keys outpoint chain coin := by
  rcases chain_update_cases secpInst spInst keys outpoint chain with
    ⟨created, hconstant⟩ | ⟨spender, hmarks⟩
  · rw [hconstant, hconstant]
  · simp only [hmarks, Option.map_map, Function.comp_def, Coin.marked_marked]

end

section

variable {secpInst : secp256k1.Api} {spInst : silentpayments.Api} {keys : SilentPaymentKeys}
  {self after : Wallet}

/-- A wallet with keys that has scanned a chain: it has its keys, has found what
    each block pays it, is at the height of the last block, and has the coins
    that the blocks make of its own. -/
theorem scan_chain_spec {chain : List ChainBlock} (hkeys : self.keys = some keys)
    (hscan : scan_chain secpInst spInst self chain = some after) :
    after.keys = some keys ∧ (∀ block ∈ chain, (block.found secpInst spInst keys).isSome) ∧
      after.scan_height = (chain.getLast?.map ChainBlock.block_height).getD self.scan_height ∧
      ∀ outpoint, after.utxos.lookup outpoint =
        chain_update secpInst spInst keys outpoint chain (self.utxos.lookup outpoint) := by
  induction chain using List.reverseRecOn generalizing after with
  | nil =>
    obtain rfl : self = after := Option.some.inj hscan
    exact ⟨hkeys, by simp, rfl, fun _ => rfl⟩
  | append_singleton chain next ih =>
    rw [scan_chain_snoc, Option.bind_eq_some_iff] at hscan
    obtain ⟨before, hbefore, hscan⟩ := hscan
    obtain ⟨⟨last, count⟩, hlast, rfl⟩ := Option.map_eq_some_iff.mp hscan
    obtain ⟨hkept, hall, _, hcoins⟩ := ih hbefore
    obtain ⟨found, hfound, hafter⟩ := (Wallet.scan_block_eq_some_iff secpInst spInst hkept).mp hlast
    cases hafter
    have hnext : next.found secpInst spInst keys = some found := hfound
    refine ⟨hkept, ?_, by simp, ?_⟩
    · intro block hblock
      rcases List.mem_append.mp hblock with hblock | hblock
      · exact hall block hblock
      · obtain rfl := List.mem_singleton.mp hblock
        exact Option.isSome_iff_exists.mpr ⟨found, hnext⟩
    · intro outpoint
      rw [lookup_scanned, hcoins, chain_update, chain_update, List.foldl_append, List.foldl_cons,
        List.foldl_nil, ChainBlock.update, hnext, Option.getD_some]

/-- A chain whose blocks all scan can be scanned from any coins. -/
theorem scan_chain_exists {chain : List ChainBlock} (hkeys : self.keys = some keys)
    (hfound : ∀ block ∈ chain, (block.found secpInst spInst keys).isSome) :
    ∃ after, scan_chain secpInst spInst self chain = some after := by
  induction chain using List.reverseRecOn with
  | nil => exact ⟨self, rfl⟩
  | append_singleton chain next ih =>
    obtain ⟨before, hbefore⟩ := ih fun block hblock => hfound block (List.mem_append_left _ hblock)
    obtain ⟨found, hnext⟩ := Option.isSome_iff_exists.mp (hfound next (by simp))
    have hscan := (Wallet.scan_block_eq_some_iff secpInst spInst
      (scan_chain_spec hkeys hbefore).1).mpr ⟨found, hnext, rfl⟩
    rw [scan_chain_snoc, hbefore, Option.bind_some, hscan]
    exact ⟨_, rfl⟩

/-- Without keys a scan does nothing. -/
theorem scan_chain_of_no_keys (secpInst : secp256k1.Api) (spInst : silentpayments.Api)
    (hkeys : self.keys = none) (chain : List ChainBlock) :
    scan_chain secpInst spInst self chain = some self := by
  induction chain using List.reverseRecOn with
  | nil => rfl
  | append_singleton chain next ih =>
    rw [scan_chain_snoc, ih, Option.bind_some, Wallet.scan_block, hkeys]
    rfl

end

/-- Scanning the upper part of a scanned chain again changes neither a coin nor
    the height, whatever the wallet held before. -/
theorem replay_restores (secpInst : secp256k1.Api) (spInst : silentpayments.Api)
    {start scanned : Wallet} {below suffix : List ChainBlock}
    (hscanned : scan_chain secpInst spInst start (below ++ suffix) = some scanned) :
    ∃ replayed, scan_chain secpInst spInst scanned suffix = some replayed ∧
      (∀ outpoint, replayed.utxos.lookup outpoint = scanned.utxos.lookup outpoint) ∧
      replayed.scan_height = scanned.scan_height := by
  cases hkeys : start.keys with
  | none =>
    rw [scan_chain_of_no_keys secpInst spInst hkeys] at hscanned
    obtain rfl := Option.some.inj hscanned
    exact ⟨start, scan_chain_of_no_keys secpInst spInst hkeys suffix, fun _ => rfl, rfl⟩
  | some keys =>
    obtain ⟨hkept, hfound, hheight, hcoins⟩ := scan_chain_spec hkeys hscanned
    obtain ⟨replayed, hreplayed⟩ := scan_chain_exists hkept
      fun block hblock => hfound block (List.mem_append_right below hblock)
    obtain ⟨_, _, hagain, hrestored⟩ := scan_chain_spec hkept hreplayed
    refine ⟨replayed, hreplayed, ?_, ?_⟩
    · intro outpoint
      rw [hrestored, hcoins, chain_update, chain_update, List.foldl_append]
      exact chain_update_idem secpInst spInst keys outpoint suffix _
    · rw [hagain, hheight, List.getLast?_append]
      cases suffix.getLast? <;> rfl

/-- The payment and its spend are scanned again. -/
theorem replay_restores_spend :
    ∃ scanned replayed, scan_chain regtest.secp regtest.sp regtest_wallet
        [regtest_funding, regtest_payment, regtest_spending] = some scanned ∧
      scan_chain regtest.secp regtest.sp scanned [regtest_payment, regtest_spending] =
        some replayed ∧
      replayed.utxos.lookup ⟨regtest.txid 0xaa, 0⟩ = scanned.utxos.lookup ⟨regtest.txid 0xaa, 0⟩ ∧
      ((scanned.utxos.lookup ⟨regtest.txid 0xaa, 0⟩).bind Coin.spent_by).isSome := by
  obtain ⟨scanned, hscanned⟩ : ∃ scanned, scan_chain regtest.secp regtest.sp regtest_wallet
      ([regtest_funding] ++ [regtest_payment, regtest_spending]) = some scanned := ⟨_, rfl⟩
  obtain ⟨replayed, hreplayed, hcoins, _⟩ :=
    replay_restores regtest.secp regtest.sp hscanned
  refine ⟨scanned, replayed, hscanned, hreplayed, hcoins _, ?_⟩
  have hspent : (scan_chain regtest.secp regtest.sp regtest_wallet
      ([regtest_funding] ++ [regtest_payment, regtest_spending])).any (fun scanned =>
        ((scanned.utxos.lookup ⟨regtest.txid 0xaa, 0⟩).bind Coin.spent_by).isSome) = true := by
    decide +kernel
  rwa [hscanned, Option.any_some] at hspent

end wallet
