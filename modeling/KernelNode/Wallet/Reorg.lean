import Mathlib.Data.List.Induction
import KernelNode.Transition
import KernelNode.Wallet.Ledger

open bitcoin secp256k1 silentpayments std.collections transition

namespace wallet

/-- The wallet's coin map is the one the chain determines. -/
def Wallet.Tracks (secpInst : secp256k1.Api) (spInst : silentpayments.Api)
    (keys : SilentPaymentKeys) (self : Wallet) (chain : List ChainBlock) : Prop :=
  self.keys = some keys ∧
    ∀ outpoint, self.utxos.lookup outpoint = ledger secpInst spInst keys chain outpoint

theorem Wallet.Tracks.scan_block {secpInst : secp256k1.Api} {spInst : silentpayments.Api}
    {keys : SilentPaymentKeys} {self after : Wallet} {chain : List ChainBlock}
    {next : ChainBlock} {count : Nat} (htracks : self.Tracks secpInst spInst keys chain)
    (hvalid : bitcoinkernel.Coherent ((chain ++ [next]).map ChainBlock.block))
    (hscan : self.scan_block secpInst spInst next.block next.spent_outputs next.block_height =
      some (after, count)) :
    after.Tracks secpInst spInst keys (chain ++ [next]) := by
  obtain ⟨hkeys, hcoins⟩ := htracks
  refine ⟨by rw [Wallet.scan_block_frame hscan, hkeys], ?_⟩
  intro outpoint
  obtain ⟨found, hfound, hafter⟩ := (Wallet.scan_block_eq_some_iff secpInst spInst hkeys).mp hscan
  cases hafter
  have hnext : next.found secpInst spInst keys = some found := hfound
  rw [lookup_scanned, hcoins, ← ledger_connect hvalid, hnext, Option.getD_some]

/-- A block that has been scanned is one whose scan succeeds. -/
theorem Wallet.Tracks.found_snoc {secpInst : secp256k1.Api} {spInst : silentpayments.Api}
    {keys : SilentPaymentKeys} {self after : Wallet} {chain : List ChainBlock}
    {next : ChainBlock} {count : Nat} (htracks : self.Tracks secpInst spInst keys chain)
    (hfound : ∀ block ∈ chain, (block.found secpInst spInst keys).isSome)
    (hscan : self.scan_block secpInst spInst next.block next.spent_outputs next.block_height =
      some (after, count)) :
    ∀ block ∈ chain ++ [next], (block.found secpInst spInst keys).isSome := by
  intro block hblock
  rcases List.mem_append.mp hblock with hblock | hblock
  · exact hfound block hblock
  · obtain rfl := List.mem_singleton.mp hblock
    obtain ⟨found, hnext, _⟩ := (Wallet.scan_block_eq_some_iff secpInst spInst htracks.1).mp hscan
    exact Option.isSome_iff_exists.mpr ⟨found, hnext⟩

theorem Wallet.Tracks.process_disconnect {secpInst : secp256k1.Api} {spInst : silentpayments.Api}
    {keys : SilentPaymentKeys} {self : Wallet} {chain : List ChainBlock} {tip : ChainBlock}
    (htracks : self.Tracks secpInst spInst keys (chain ++ [tip]))
    (hvalid : bitcoinkernel.Coherent ((chain ++ [tip]).map ChainBlock.block)) :
    (self.process_disconnect tip.block).Tracks secpInst spInst keys chain := by
  obtain ⟨hkeys, hcoins⟩ := htracks
  refine ⟨hkeys, ?_⟩
  intro outpoint
  rw [Wallet.lookup_process_disconnect, hcoins]
  exact ledger_disconnect hvalid

theorem Wallet.Tracks.script {secpInst : secp256k1.Api} {spInst : silentpayments.Api}
    {keys : SilentPaymentKeys} {self : Wallet} {chain : List ChainBlock}
    (htracks : self.Tracks secpInst spInst keys chain) {outpoint : OutPoint} {coin : Coin}
    (hcoin : self.utxos.lookup outpoint = some coin) : coin.script_pubkey.length = 34 :=
  ledger_script ((htracks.2 outpoint).symm.trans hcoin)

inductive ReorgEvent where
  /-- The chain grows by a block, which `scan_block` handles at its height. -/
  | Connected (next : ChainBlock)
  /-- The tip leaves the chain and `process_disconnect` handles it. -/
  | Disconnected

/-- Walks over the block tree from the empty chain, with the wallet following.
    Every chain on the way is valid. -/
def reorg_system (secpInst : secp256k1.Api) (spInst : silentpayments.Api) (start : Wallet) :
    System (List ChainBlock × Wallet) ReorgEvent where
  init state := state = ([], start)
  step state event after := match event with
    | .Connected next => bitcoinkernel.Consensus ((state.1 ++ [next]).map ChainBlock.block) ∧
        after.1 = state.1 ++ [next] ∧ ∃ count,
          state.2.scan_block secpInst spInst next.block next.spent_outputs next.block_height =
          some (after.2, count)
    | .Disconnected =>
      ∃ tip, state.1 = after.1 ++ [tip] ∧ after.2 = state.2.process_disconnect tip.block

/-- Scan the blocks of a chain in order. -/
def scan_chain (secpInst : secp256k1.Api) (spInst : silentpayments.Api) (start : Wallet)
    (chain : List ChainBlock) : Option Wallet :=
  chain.foldlM (fun wallet next =>
    (wallet.scan_block secpInst spInst next.block next.spent_outputs next.block_height).map
      Prod.fst) start

theorem Wallet.tracks_nil {keys : SilentPaymentKeys} {start : Wallet} (secpInst : secp256k1.Api)
    (spInst : silentpayments.Api) (hkeys : start.keys = some keys) (hempty : start.utxos = ∅) :
    start.Tracks secpInst spInst keys [] := by
  refine ⟨hkeys, ?_⟩
  intro outpoint
  simp [hempty, ledger, created]

theorem scan_chain_snoc (secpInst : secp256k1.Api) (spInst : silentpayments.Api) (start : Wallet)
    (chain : List ChainBlock) (next : ChainBlock) :
    scan_chain secpInst spInst start (chain ++ [next]) =
      (scan_chain secpInst spInst start chain).bind fun wallet =>
        (wallet.scan_block secpInst spInst next.block next.spent_outputs next.block_height).map
          Prod.fst := by
  simp only [scan_chain, List.foldlM_append, List.foldlM_cons, List.foldlM_nil, bind_pure]
  rfl

/-- Scanning the upper part of a valid chain from a wallet without coins, where
    every block scan succeeds, ends with the coins of that part. -/
theorem scan_chain_tracks {secpInst : secp256k1.Api} {spInst : silentpayments.Api}
    {keys : SilentPaymentKeys} {start : Wallet} (hstart : start.Tracks secpInst spInst keys [])
    {chain : List ChainBlock} (hvalid : bitcoinkernel.Coherent (chain.map ChainBlock.block))
    (hfound : ∀ next ∈ chain, (next.found secpInst spInst keys).isSome) :
    ∃ scanned, scan_chain secpInst spInst start chain = some scanned ∧
      scanned.Tracks secpInst spInst keys chain := by
  induction chain using List.reverseRecOn with
  | nil => exact ⟨start, rfl, hstart⟩
  | append_singleton chain next ih =>
    have hbelow := hvalid
    rw [List.map_append, List.map_singleton] at hbelow
    obtain ⟨scanned, hscanned, htracks⟩ := ih hbelow.of_snoc
      (fun block hblock => hfound block (List.mem_append_left _ hblock))
    obtain ⟨found, hnext⟩ := Option.isSome_iff_exists.mp (hfound next (by simp))
    have hscan := (Wallet.scan_block_eq_some_iff secpInst spInst htracks.1).mpr ⟨found, hnext, rfl⟩
    refine ⟨_, ?_, htracks.scan_block hvalid hscan⟩
    rw [scan_chain_snoc, hscanned, Option.bind_some, hscan, Option.map_some]

/-- Scanning the blocks of a valid chain in order is a walk, and one that keeps to
    a condition if every block meets it above the blocks below it. -/
theorem scan_chain_run_restrict {secpInst : secp256k1.Api} {spInst : silentpayments.Api}
    {start scanned : Wallet} {allowed : List ChainBlock × Wallet → ReorgEvent → Prop}
    {chain : List ChainBlock} (hvalid : bitcoinkernel.Consensus (chain.map ChainBlock.block))
    (hallowed : ∀ below next above, chain = below ++ next :: above →
      ∀ wallet, allowed (below, wallet) (.Connected next))
    (hscanned : scan_chain secpInst spInst start chain = some scanned) :
    ((reorg_system secpInst spInst start).restrict allowed).Run ([], start)
      (chain.map .Connected) (chain, scanned) := by
  induction chain using List.reverseRecOn generalizing scanned with
  | nil =>
    obtain rfl : start = scanned := Option.some.inj hscanned
    exact .nil _
  | append_singleton chain next ih =>
    have hbelow := hvalid
    rw [List.map_append, List.map_singleton] at hbelow
    have hlower : ∀ below lower above, chain = below ++ lower :: above →
        ∀ wallet, allowed (below, wallet) (.Connected lower) := by
      intro below lower above hchain
      exact hallowed below lower (above ++ [next]) (by simp [hchain])
    rw [scan_chain_snoc, Option.bind_eq_some_iff] at hscanned
    obtain ⟨before, hbefore, hscan⟩ := hscanned
    obtain ⟨⟨after, count⟩, hafter, rfl⟩ := Option.map_eq_some_iff.mp hscan
    rw [List.map_append]
    exact (ih hbelow.of_snoc hlower hbefore).snoc
      ⟨hallowed chain next [] rfl before, hvalid, rfl, count, hafter⟩

/-- Scanning the blocks of a valid chain in order is a walk. -/
theorem scan_chain_reachable {secpInst : secp256k1.Api} {spInst : silentpayments.Api}
    {start scanned : Wallet} {chain : List ChainBlock}
    (hvalid : bitcoinkernel.Consensus (chain.map ChainBlock.block))
    (hscanned : scan_chain secpInst spInst start chain = some scanned) :
    (reorg_system secpInst spInst start).Reachable (chain, scanned) := by
  have hrun : ((reorg_system secpInst spInst start).restrict fun _ _ => True).Run ([], start)
      (chain.map .Connected) (chain, scanned) :=
    scan_chain_run_restrict hvalid (fun _ _ _ _ _ => trivial) hscanned
  exact System.Reachable.of_restrict ⟨_, _, rfl, hrun⟩

/-- A state of a walk: the wallet tracks a valid chain whose blocks all scan. -/
private def WalkInvariant (secpInst : secp256k1.Api) (spInst : silentpayments.Api)
    (keys : SilentPaymentKeys) (state : List ChainBlock × Wallet) : Prop :=
  state.2.Tracks secpInst spInst keys state.1 ∧
    bitcoinkernel.Consensus (state.1.map ChainBlock.block) ∧
    ∀ next ∈ state.1, (next.found secpInst spInst keys).isSome

private theorem walk_invariant_step {secpInst : secp256k1.Api} {spInst : silentpayments.Api}
    {start : Wallet} {keys : SilentPaymentKeys} {state after : List ChainBlock × Wallet}
    {event : ReorgEvent} (hinv : WalkInvariant secpInst spInst keys state)
    (hstep : (reorg_system secpInst spInst start).step state event after) :
    WalkInvariant secpInst spInst keys after := by
  obtain ⟨htracks, hvalid, hfound⟩ := hinv
  obtain ⟨chain, self⟩ := state
  obtain ⟨chain', self'⟩ := after
  cases event with
  | Connected next =>
    obtain ⟨hnext, rfl, count, hscan⟩ := hstep
    exact ⟨htracks.scan_block (hnext.coherent []) hscan, hnext, htracks.found_snoc hfound hscan⟩
  | Disconnected =>
    obtain ⟨tip, hchain, rfl⟩ := hstep
    dsimp only at hchain
    subst hchain
    have hbelow := hvalid
    rw [List.map_append, List.map_singleton] at hbelow
    exact ⟨htracks.process_disconnect (hvalid.coherent []), hbelow.of_snoc,
      fun block hblock => hfound block (List.mem_append_left _ hblock)⟩

/-- Whatever walk over the block tree the wallet has followed, its coins are
    those of scanning just the blocks of the chain that is left. In particular
    disconnecting a block just connected restores every coin. -/
theorem reorg_coins_eq_scan_chain (secpInst : secp256k1.Api) (spInst : silentpayments.Api)
    {start : Wallet} {keys : SilentPaymentKeys} (hkeys : start.keys = some keys)
    (hempty : start.utxos = ∅) {chain : List ChainBlock} {self : Wallet}
    (hreach : (reorg_system secpInst spInst start).Reachable (chain, self)) :
    (∃ scanned, scan_chain secpInst spInst start chain = some scanned ∧
      ∀ outpoint, self.utxos.lookup outpoint = scanned.utxos.lookup outpoint) ∧
    ∀ next after count, bitcoinkernel.Consensus ((chain ++ [next]).map ChainBlock.block) →
      self.scan_block secpInst spInst next.block next.spent_outputs next.block_height =
        some (after, count) →
      ∀ outpoint, (after.process_disconnect next.block).utxos.lookup outpoint =
        self.utxos.lookup outpoint := by
  have hstart := Wallet.tracks_nil secpInst spInst hkeys hempty
  obtain ⟨htracks, hvalid, hfound⟩ : WalkInvariant secpInst spInst keys (chain, self) := by
    refine hreach.invariant ?_ (fun _ _ _ => walk_invariant_step)
    rintro _ rfl
    exact ⟨hstart, bitcoinkernel.Consensus.nil, by simp⟩
  constructor
  · obtain ⟨scanned, hscanned, hsame⟩ := scan_chain_tracks hstart (hvalid.coherent []) hfound
    exact ⟨scanned, hscanned, fun outpoint => (htracks.2 outpoint).trans (hsame.2 outpoint).symm⟩
  · intro next after count hnext hscan outpoint
    have hback := (htracks.scan_block (hnext.coherent []) hscan).process_disconnect
      (hnext.coherent [])
    exact (hback.2 outpoint).trans (htracks.2 outpoint).symm

/-- The payment is spent and the spending block is then disconnected: the coin
    is back, as a scan of the two blocks that are left finds it. -/
theorem reorg_coins_eq_scan_chain_spend_undone :
    ∃ spent scanned,
      scan_chain regtest.secp regtest.sp regtest_wallet
        [regtest_funding, regtest_payment, regtest_spending] =
        some spent ∧
      scan_chain regtest.secp regtest.sp regtest_wallet [regtest_funding, regtest_payment] =
        some scanned ∧
      (∀ outpoint, (spent.process_disconnect regtest_spending.block).utxos.lookup outpoint =
        scanned.utxos.lookup outpoint) ∧
      (scanned.utxos.lookup ⟨regtest.txid 0xaa, 0⟩).isSome := by
  have hvalid : bitcoinkernel.Consensus
      ([regtest_funding, regtest_payment, regtest_spending].map ChainBlock.block) := by
        decide +kernel
  obtain ⟨spent, hspent⟩ : ∃ spent, scan_chain regtest.secp regtest.sp regtest_wallet
      [regtest_funding, regtest_payment, regtest_spending] = some spent := ⟨_, rfl⟩
  have hstep : (reorg_system regtest.secp regtest.sp regtest_wallet).step
      ([regtest_funding, regtest_payment, regtest_spending], spent) .Disconnected
      ([regtest_funding, regtest_payment], spent.process_disconnect regtest_spending.block) :=
    ⟨regtest_spending, rfl, rfl⟩
  obtain ⟨⟨scanned, hscanned, hsame⟩, _⟩ :=
    reorg_coins_eq_scan_chain regtest.secp regtest.sp rfl rfl
    ((scan_chain_reachable hvalid hspent).step hstep)
  refine ⟨spent, scanned, hspent, hscanned, hsame, ?_⟩
  have hcoin : (scan_chain regtest.secp regtest.sp regtest_wallet
    [regtest_funding, regtest_payment]).any
      (fun scanned => (scanned.utxos.lookup ⟨regtest.txid 0xaa, 0⟩).isSome) = true := by
        decide +kernel
  rwa [hscanned, Option.any_some] at hcoin

end wallet
