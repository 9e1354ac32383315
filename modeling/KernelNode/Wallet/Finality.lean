import Mathlib.Data.List.Chain
import KernelNode.Wallet.Reorg
import KernelNode.Wallet.Sending

open bitcoin secp256k1 silentpayments transition

namespace wallet

/-- A block is connected at the height above the tip's. -/
def Climbs (state : List ChainBlock × Wallet) : ReorgEvent → Prop
  | .Connected next => ∀ tip, state.1.getLast? = some tip →
    next.block_height.toNat = tip.block_height.toNat + 1
  | .Disconnected => True

/-- The walks over a block tree in which every block has its height. -/
def climb_system (secpInst : secp256k1.Api) (spInst : silentpayments.Api) (start : Wallet) :
    System (List ChainBlock × Wallet) ReorgEvent :=
  (reorg_system secpInst spInst start).restrict Climbs

def ReorgEvent.is_connected : ReorgEvent → Bool
  | .Connected _ => true
  | .Disconnected => false

/-- The last event was a block that was connected. -/
def ends_connected (events : List ReorgEvent) : Bool := events.getLast?.any ReorgEvent.is_connected

/-- The heights of a chain. -/
def Consecutive (chain : List ChainBlock) : Prop :=
  chain.IsChain fun lower upper => upper.block_height.toNat = lower.block_height.toNat + 1

/-- What the wallet knows of its chain: the height of the last block that was
    connected, which is above the tip as soon as a block has been disconnected. -/
structure Follows (keys : SilentPaymentKeys) (events : List ReorgEvent)
    (state : List ChainBlock × Wallet) : Prop where
  keys : state.2.keys = some keys
  consecutive : Consecutive state.1
  connected : ends_connected events → ∀ tip, state.1.getLast? = some tip →
    state.2.scan_height = tip.block_height
  disconnected : ends_connected events = false → ∀ tip, state.1.getLast? = some tip →
    tip.block_height < state.2.scan_height

section

variable {secpInst : secp256k1.Api} {spInst : silentpayments.Api} {start : Wallet}
    {keys : SilentPaymentKeys}

theorem Follows.scan_block {events : List ReorgEvent} {chain : List ChainBlock}
    {self after : Wallet} (hfollows : Follows keys events (chain, self)) {next : ChainBlock}
    (hclimbs : Climbs (chain, self) (.Connected next)) {count : Nat}
    (hscan : self.scan_block secpInst spInst next.block next.spent_outputs next.block_height =
      some (after, count)) :
    Follows keys (events ++ [.Connected next]) (chain ++ [next], after) := by
  obtain ⟨hkeys, hconsecutive, _, _⟩ := hfollows
  refine ⟨by rw [Wallet.scan_block_frame hscan]; exact hkeys, ?_, ?_, by simp [ends_connected,
    ReorgEvent.is_connected]⟩
  · refine List.isChain_append.mpr ⟨hconsecutive, .singleton _, ?_⟩
    rintro tip htip _ ⟨⟩
    exact hclimbs tip htip
  · rintro _ tip htip
    obtain rfl : next = tip := by simpa using htip
    obtain ⟨found, _, hafter⟩ := (Wallet.scan_block_eq_some_iff secpInst spInst hkeys).mp hscan
    cases hafter
    rfl

theorem Follows.process_disconnect {events : List ReorgEvent} {chain : List ChainBlock}
    {tip : ChainBlock} {self : Wallet} (hfollows : Follows keys events (chain ++ [tip], self)) :
    Follows keys (events ++ [.Disconnected]) (chain, self.process_disconnect tip.block) := by
  obtain ⟨hkeys, hconsecutive, hconnected, hdisconnected⟩ := hfollows
  obtain ⟨hbelow, -, hstep⟩ := List.isChain_append.mp hconsecutive
  have htip : tip.block_height ≤ self.scan_height := by
    cases hends : ends_connected events with
    | true => exact UInt32.le_of_eq (hconnected hends tip (by simp)).symm
    | false => exact UInt32.le_of_lt (hdisconnected hends tip (by simp))
  refine ⟨hkeys, hbelow, by simp [ends_connected, ReorgEvent.is_connected], ?_⟩
  intro _ lower hlower
  have hlt : lower.block_height < tip.block_height := by
    have := hstep lower hlower tip rfl
    rw [UInt32.lt_iff_toNat_lt]
    omega
  exact UInt32.lt_of_lt_of_le hlt htip

/-- Every walk is followed. -/
theorem run_follows (hkeys : start.keys = some keys) {events : List ReorgEvent}
    {state : List ChainBlock × Wallet}
    (hrun : (climb_system secpInst spInst start).Run ([], start) events state) :
    Follows keys events state := by
  induction hrun with
  | nil => exact ⟨hkeys, .nil, by simp, by simp⟩
  | @snoc last next events event _ hstep ih =>
    obtain ⟨chain, self⟩ := last
    obtain ⟨chain', self'⟩ := next
    obtain ⟨hclimbs, hstep⟩ := hstep
    cases event with
    | Connected next =>
      obtain ⟨_, rfl, count, hscan⟩ := hstep
      exact ih.scan_block hclimbs hscan
    | Disconnected =>
      obtain ⟨tip, hchain, rfl⟩ := hstep
      dsimp only at hchain
      subst hchain
      exact ih.process_disconnect

/-- Scanning the blocks of a valid chain in order, at their heights, is a walk. -/
theorem scan_chain_run {scanned : Wallet} {chain : List ChainBlock}
    (hvalid : bitcoinkernel.Consensus (chain.map ChainBlock.block)) (hheights : Consecutive chain)
    (hscanned : scan_chain secpInst spInst start chain = some scanned) :
    (climb_system secpInst spInst start).Run ([], start) (chain.map .Connected)
      (chain, scanned) := by
  refine scan_chain_run_restrict hvalid ?_ hscanned
  rintro below next above rfl wallet tip htip
  obtain ⟨-, -, hclimbs⟩ := List.isChain_append.mp hheights
  exact hclimbs tip htip next rfl

/-- A built transaction is locked to the wallet's scan height, unless that is too
    large to be a height. -/
theorem Wallet.build_transaction_lock_time {csInst : bdk_coin_select.Api} {btcInst : bitcoin.Api}
    {rng : Rng} {self : Wallet} {recipient : Recipient} {amount : Amount}
    {fee_rate long_term_fee_rate : FeeRate} {tx : Transaction}
    (hbuild : self.build_transaction secpInst spInst csInst btcInst rng recipient amount fee_rate
      long_term_fee_rate = .ok tx) :
    tx.lock_time = if self.scan_height < 500000000 then self.scan_height else 0 := by
  obtain ⟨_, _, _, unsigned, _, _, _, _, hlock, hsign⟩ := Wallet.build_transaction_spec hbuild
  rw [sign_transaction_lock_time hsign, hlock, lock_time_from_height]
  split <;> rfl

end

/-- The payment is sent back with the lock time 3: the digest and its signature. -/
def late_send_back : regtest.SendBack where
  byte := 0xaa
  digest := std.bytes.to_be 32 0xce851b9dae4e07af7685833c83e79c4b2f1034eb2e8df56a549abf2532569740
  signature := std.bytes.to_be 64
    0xe72394abed2ed8687a360696d5f17f1d8563261fca1744b8aaffa0404f0f4bea127fcb737a359ce005667b0863dd73ac0195a76e17f1aacd263a0004abd78c3a
  txid := "d1ebcb5a98d47b1b678f83ac84912b6bf958b3074f7743fdb22d4f964d3e075a"

def late_btc : bitcoin.Api :=
  { regtest.btc with
    taproot_key_spend_signature_hash tx index prevouts :=
      if tx.lock_time = 3 then .ok late_send_back.digest
      else regtest.btc.taproot_key_spend_signature_hash tx index prevouts }

def late_secp : secp256k1.Api :=
  { regtest.secp with
    sign_schnorr digest key :=
      if digest = late_send_back.digest then late_send_back.signature
      else regtest.secp.sign_schnorr digest key }

/-- The wallet after the payment is spent and the spending block is disconnected. -/
def reorganized_wallet : Wallet :=
  { regtest.funded_wallet (regtest.coins.take 1) with scan_height := 3 }

/-- The walk to the block that spends the payment, and back. -/
theorem reorganized_wallet_run :
    (climb_system late_secp regtest.sp regtest_wallet).Run ([], regtest_wallet)
      ([regtest_funding, regtest_payment, regtest_spending].map .Connected ++ [.Disconnected])
      ([regtest_funding] ++ [regtest_payment], reorganized_wallet) := by
  have hvalid : bitcoinkernel.Consensus
      ([regtest_funding, regtest_payment, regtest_spending].map ChainBlock.block) := by
    decide +kernel
  have hheights : Consecutive [regtest_funding, regtest_payment, regtest_spending] := by
    simp [Consecutive, regtest_funding, regtest_payment, regtest_spending]
  obtain ⟨spent, hspent, hback⟩ : ∃ spent, scan_chain late_secp regtest.sp regtest_wallet
      [regtest_funding, regtest_payment, regtest_spending] = some spent ∧
      reorganized_wallet = spent.process_disconnect regtest_spending.block := ⟨_, rfl, rfl⟩
  exact (scan_chain_run hvalid hheights hspent).snoc ⟨trivial, regtest_spending, rfl, hback⟩

/-- The payment is sent back after the reorganization: the transaction is locked
    to the height of the block that is gone. -/
theorem disconnected_block_locks :
    (climb_system late_secp regtest.sp regtest_wallet).Run ([], regtest_wallet)
      ([regtest_funding, regtest_payment, regtest_spending].map .Connected ++ [.Disconnected])
      ([regtest_funding] ++ [regtest_payment], reorganized_wallet) ∧
    reorganized_wallet.build_transaction late_secp regtest.sp regtest.cs late_btc regtest.rng
      (.Address regtest.sender_script) ⟨9700⟩ ⟨250⟩ ⟨2500⟩ =
        .ok { late_send_back.tx with lock_time := 3 } ∧
    ¬(3 : UInt32) ≤ regtest_payment.block_height :=
  ⟨reorganized_wallet_run, by decide +kernel, by decide⟩

/-- A transaction is final at the wallet's tip exactly when the last event was a
    block that was connected, or the last block connected is so high that no lock
    time is set. -/
theorem built_final_iff (secpInst : secp256k1.Api) (spInst : silentpayments.Api)
    (csInst : bdk_coin_select.Api) (btcInst : bitcoin.Api) (rng : Rng) {start : Wallet}
    {keys : SilentPaymentKeys} (hkeys : start.keys = some keys) {events : List ReorgEvent}
    {chain : List ChainBlock} {tip : ChainBlock} {self : Wallet}
    (hrun : (climb_system secpInst spInst start).Run ([], start) events (chain ++ [tip], self))
    {recipient : Recipient} {amount : Amount} {fee_rate long_term_fee_rate : FeeRate}
    {tx : Transaction}
    (hbuild : self.build_transaction secpInst spInst csInst btcInst rng recipient amount fee_rate
      long_term_fee_rate = .ok tx) :
    tx.lock_time ≤ tip.block_height ↔ ends_connected events ∨ 500000000 ≤ self.scan_height := by
  obtain ⟨_, _, hconnected, hdisconnected⟩ := run_follows hkeys hrun
  have htip : (chain ++ [tip]).getLast? = some tip := by simp
  rw [Wallet.build_transaction_lock_time hbuild]
  split
  · rename_i hheight
    have hlow : ¬500000000 ≤ self.scan_height := UInt32.not_le.mpr hheight
    cases hends : ends_connected events with
    | true =>
      have hscan : self.scan_height = tip.block_height := hconnected hends tip htip
      simp [hscan]
    | false => simpa [hlow] using hdisconnected hends tip htip
  · rename_i hheight
    simp [UInt32.not_lt.mp hheight]

/-- Right after the payment, sending it back gives a final transaction. -/
theorem built_final_after_payment :
    regtest.first_send_back.tx.lock_time ≤ regtest_payment.block_height := by
  have hvalid : bitcoinkernel.Consensus
      ([regtest_funding, regtest_payment].map ChainBlock.block) := by
    decide +kernel
  have hheights : Consecutive [regtest_funding, regtest_payment] := by
    simp [Consecutive, regtest_funding, regtest_payment]
  have hrun : (climb_system regtest.secp regtest.sp regtest_wallet).Run ([], regtest_wallet)
      ([regtest_funding, regtest_payment].map .Connected)
      ([regtest_funding] ++ [regtest_payment], regtest.funded_wallet (regtest.coins.take 1)) :=
    scan_chain_run hvalid hheights rfl
  have hbuild : (regtest.funded_wallet (regtest.coins.take 1)).build_transaction regtest.secp
      regtest.sp regtest.cs regtest.btc regtest.rng (.Address regtest.sender_script) ⟨9700⟩ ⟨250⟩
      ⟨2500⟩ = .ok regtest.first_send_back.tx := by
    decide +kernel
  exact (built_final_iff _ _ _ _ _ rfl hrun hbuild).mpr (.inl rfl)

end wallet
