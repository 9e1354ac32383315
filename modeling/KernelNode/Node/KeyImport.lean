import KernelNode.Transition
import KernelNode.Wallet.Block
import KernelNode.Wallet.Sending
import KernelNode.Wallet.Store

open bitcoin secp256k1 silentpayments std.collections transition wallet

namespace wallet

/-- The key that signs for the coin is the key in its script. -/
def Coin.OwnedBy (secpInst : secp256k1.Api) (self : Coin) (spend_secret : SecretKey) : Prop :=
  ∃ key, spend_secret.add_tweak self.tweak = some key ∧
    self.script_pubkey = p2tr_script (secpInst.public_key key).x

section

variable {secpInst : secp256k1.Api} {spInst : silentpayments.Api}

theorem parse_p2tr_eq_some {script : List UInt8} {pk : XOnlyPublicKey}
    (hparse : parse_p2tr secpInst script = some pk) : script = p2tr_script pk := by
  simp only [parse_p2tr] at hparse
  split at hparse
  · rename_i htaproot
    simp only [is_p2tr, Bool.and_eq_true, decide_eq_true_eq] at htaproot
    obtain ⟨⟨_, hversion⟩, hpush⟩ := htaproot
    obtain ⟨version, script, rfl⟩ : ∃ version rest, script = version :: rest := by
      cases script <;> simp_all
    obtain ⟨push, program, rfl⟩ : ∃ push rest, script = push :: rest := by
      cases script <;> simp_all
    simp only [List.getElem?_cons_zero, List.getElem?_cons_succ, Option.some.injEq]
      at hversion hpush
    subst hversion hpush
    simp only [Api.x_only_from_slice, List.drop_succ_cons, List.drop_zero] at hparse
    split_ifs at hparse
    cases hparse
    rfl
  · cases hparse

theorem Coin.OwnedBy.spend_last {coin : Coin} {secret : SecretKey}
    (howned : coin.OwnedBy secpInst secret) (spender : Option Txid) (block_height : UInt32) :
    (coin.spend_last spender block_height).OwnedBy secpInst secret := by
  cases spender <;> exact howned

theorem Coin.OwnedBy.unspend {coin : Coin} {secret : SecretKey}
    (howned : coin.OwnedBy secpInst secret) (block_txids : List Txid) :
    (coin.unspend block_txids).OwnedBy secpInst secret := by
  simp only [Coin.unspend]
  split
  · split <;> exact howned
  · exact howned

/-- What a scan reports under a secret's spend key is owned by that secret. -/
theorem scan_block_inner_owned (hsecp : secpInst.Lawful) (hsp : spInst.Lawful secpInst)
    {receiver : Receiver} {b_scan secret : SecretKey} {kernel_block : bitcoinkernel.Block}
    {spent_outputs : bitcoinkernel.BlockSpentOutputs} {block_height : UInt32}
    {found : List (OutPoint × Coin)}
    (hreceiver : receiver.spend_pubkey = secpInst.public_key secret)
    (hfound : scan_block_inner secpInst spInst receiver b_scan kernel_block spent_outputs
      block_height = some found)
    {outpoint : OutPoint} {coin : Coin} (hmem : (outpoint, coin) ∈ found) :
    coin.OwnedBy secpInst secret := by
  obtain ⟨_, _, _, pk, hparse, _, _, _, _, _, hscan, hlabel, hkey⟩ :=
    scan_block_inner_spec hfound hmem
  obtain ⟨point, hpoint, rfl⟩ := hsp.scan_transaction_key hscan hlabel hkey
  rw [hreceiver, hsecp.add_exp_tweak_public_key] at hpoint
  obtain ⟨key, htweak, rfl⟩ := Option.map_eq_some_iff.mp hpoint
  exact ⟨key, htweak, parse_p2tr_eq_some hparse⟩

/-- A scan under the secret's spend key leaves only coins that the secret owns. -/
theorem Wallet.scan_block_owned (hsecp : secpInst.Lawful) (hsp : spInst.Lawful secpInst)
    {self after : Wallet} {keys : SilentPaymentKeys} {secret : SecretKey}
    {kernel_block : bitcoinkernel.Block} {spent_outputs : bitcoinkernel.BlockSpentOutputs}
    {block_height : UInt32} {count : Nat} (hkeys : self.keys = some keys)
    (hreceiver : keys.receiver.spend_pubkey = secpInst.public_key secret)
    (howned : ∀ outpoint coin, self.utxos.lookup outpoint = some coin →
      coin.OwnedBy secpInst secret)
    (hscan : self.scan_block secpInst spInst kernel_block spent_outputs block_height =
      some (after, count)) :
    ∀ outpoint coin, after.utxos.lookup outpoint = some coin → coin.OwnedBy secpInst secret := by
  obtain ⟨found, hfound, hafter⟩ := (Wallet.scan_block_eq_some_iff secpInst spInst hkeys).mp hscan
  cases hafter
  intro outpoint coin hcoin
  rw [lookup_scanned] at hcoin
  obtain ⟨before, hbefore, rfl⟩ := Option.map_eq_some_iff.mp hcoin
  apply Coin.OwnedBy.spend_last
  cases hlast : HashMap.last_value found outpoint with
  | some reported =>
    obtain rfl : reported = before := by simpa [hlast] using hbefore
    exact scan_block_inner_owned hsecp hsp hreceiver hfound (HashMap.last_value_mem hlast)
  | none => exact howned outpoint before (by simpa [hlast] using hbefore)

theorem Wallet.process_disconnect_owned {self : Wallet} {secret : SecretKey}
    (kernel_block : bitcoinkernel.Block)
    (howned : ∀ outpoint coin, self.utxos.lookup outpoint = some coin →
      coin.OwnedBy secpInst secret) :
    ∀ outpoint coin, (self.process_disconnect kernel_block).utxos.lookup outpoint = some coin →
      coin.OwnedBy secpInst secret := by
  intro outpoint coin hcoin
  rw [Wallet.lookup_process_disconnect] at hcoin
  split at hcoin
  · cases hcoin
  · obtain ⟨before, hbefore, rfl⟩ := Option.map_eq_some_iff.mp hcoin
    exact (howned outpoint before hbefore).unspend _

end

end wallet

namespace node

/-- The wallet, and whether the last import was without a spend secret. -/
structure KeyState where
  wallet : Wallet
  watch_only : Bool

inductive KeyAction where
  | import_keys (scan_key : SecretKey) (spend_xonly : XOnlyPublicKey)
  | import_signing_keys (scan_key spend_secret : SecretKey)
  | scan_block (block : bitcoinkernel.Block) (spent_outputs : bitcoinkernel.BlockSpentOutputs)
      (block_height : UInt32)
  | process_disconnect (block : bitcoinkernel.Block)

inductive KeyStep (secpInst : secp256k1.Api) (spInst : silentpayments.Api) : KeyState → KeyAction →
    KeyState → Prop where
  | import_keys {state : KeyState} {scan_key : SecretKey} {spend_xonly : XOnlyPublicKey}
      {wallet : Wallet}
      (himport : state.wallet.import_keys secpInst spInst scan_key spend_xonly = .ok wallet) :
      KeyStep secpInst spInst state (.import_keys scan_key spend_xonly) ⟨wallet, true⟩
  | import_keys_refused {state : KeyState} {scan_key : SecretKey}
      {spend_xonly : XOnlyPublicKey} {e : Error}
      (himport : state.wallet.import_keys secpInst spInst scan_key spend_xonly = .error e) :
      KeyStep secpInst spInst state (.import_keys scan_key spend_xonly) state
  | import_signing_keys {state : KeyState} {scan_key spend_secret : SecretKey} {wallet : Wallet}
      (himport : state.wallet.import_signing_keys secpInst spInst scan_key spend_secret =
        .ok wallet) :
      KeyStep secpInst spInst state (.import_signing_keys scan_key spend_secret) ⟨wallet, false⟩
  | import_signing_keys_refused {state : KeyState} {scan_key spend_secret : SecretKey} {e : Error}
      (himport : state.wallet.import_signing_keys secpInst spInst scan_key spend_secret =
        .error e) :
      KeyStep secpInst spInst state (.import_signing_keys scan_key spend_secret) state
  | scan_block {state : KeyState} {block : bitcoinkernel.Block}
      {spent_outputs : bitcoinkernel.BlockSpentOutputs} {block_height : UInt32}
      {wallet : Wallet} {count : Nat}
      (hscan : state.wallet.scan_block secpInst spInst block spent_outputs block_height =
        some (wallet, count)) :
      KeyStep secpInst spInst state (.scan_block block spent_outputs block_height)
        { state with wallet }
  | process_disconnect {state : KeyState} {block : bitcoinkernel.Block} :
      KeyStep secpInst spInst state (.process_disconnect block)
        { state with wallet := state.wallet.process_disconnect block }

/-- From a new wallet or a loaded file, any sequence of imports and block
    events. -/
def key_system (secpInst : secp256k1.Api) (spInst : silentpayments.Api) :
    System KeyState KeyAction where
  init state := state.watch_only = false ∧
    ((∃ network, state.wallet = Wallet.new network) ∨
      ∃ file, wallet_store.wallet_from_bytes file = .ok state.wallet)
  step := KeyStep secpInst spInst

/-- A watch-only import finds no spend secret, and an import with a secret finds
    only coins that this secret owns. -/
def KeysMatch (secpInst : secp256k1.Api) (state : KeyState) : KeyAction → Prop
  | .import_keys _ _ => state.wallet.spend_secret = none
  | .import_signing_keys _ spend_secret =>
    ∀ outpoint coin, state.wallet.utxos.lookup outpoint = some coin →
      coin.OwnedBy secpInst
        (normalized_secret spend_secret (secpInst.public_key spend_secret).parity)
  | _ => True

/-- Keys and coins belong together: the secret's point is the spend key and the
    receiver's, the secret owns every coin, and it is absent after a watch-only
    import. -/
structure KeyInvariant (secpInst : secp256k1.Api) (state : KeyState) : Prop where
  spend_key : ∀ secret, state.wallet.spend_secret = some secret →
    state.wallet.spend_key = some (secpInst.public_key secret)
  receiver : ∀ secret, state.wallet.spend_secret = some secret →
    ∃ keys, state.wallet.keys = some keys ∧ keys.receiver.spend_pubkey = secpInst.public_key secret
  owned : ∀ secret, state.wallet.spend_secret = some secret → ∀ outpoint coin,
    state.wallet.utxos.lookup outpoint = some coin → coin.OwnedBy secpInst secret
  watch_only : state.watch_only = true → state.wallet.spend_secret = none

section

variable {secpInst : secp256k1.Api} {spInst : silentpayments.Api}

/-- Without a spend secret there is nothing to say about the keys. -/
theorem KeyInvariant.of_no_secret {state : KeyState} (hsecret : state.wallet.spend_secret = none) :
    KeyInvariant secpInst state := by
  refine ⟨?_, ?_, ?_, fun _ => hsecret⟩ <;> simp [hsecret]

theorem KeyInvariant.step (hsecp : secpInst.Lawful) (hsp : spInst.Lawful secpInst)
    {state after : KeyState} {action : KeyAction} (hinv : KeyInvariant secpInst state)
    (hallowed : KeysMatch secpInst state action)
    (hstep : KeyStep secpInst spInst state action after) : KeyInvariant secpInst after := by
  cases hstep with
  | import_keys himport =>
    obtain ⟨receiver, _, rfl⟩ := (Wallet.import_keys_eq_ok_iff secpInst spInst).mp himport
    exact .of_no_secret hallowed
  | import_keys_refused => exact hinv
  | @import_signing_keys scan_key spend_secret wallet himport =>
    obtain ⟨watching, hwatching, rfl⟩ :=
      (Wallet.import_signing_keys_eq_ok_iff secpInst spInst).mp himport
    obtain ⟨receiver, hreceiver, rfl⟩ := (Wallet.import_keys_eq_ok_iff secpInst spInst).mp hwatching
    have hpoint := public_key_normalized_secret hsecp spend_secret
    refine ⟨?_, ?_, ?_, nofun⟩
    · rintro _ ⟨rfl⟩
      rw [hpoint]
    · rintro _ ⟨rfl⟩
      refine ⟨_, rfl, ?_⟩
      rw [hpoint]
      exact hsp.receiver_new_spend_pubkey hreceiver
    · rintro _ ⟨rfl⟩
      exact hallowed
  | import_signing_keys_refused => exact hinv
  | @scan_block block spent_outputs block_height wallet count hscan =>
    have hframe := Wallet.scan_block_frame hscan
    have hsecret : wallet.spend_secret = state.wallet.spend_secret := by rw [hframe]
    have hkeys : wallet.keys = state.wallet.keys := by rw [hframe]
    have hspend : wallet.spend_key = state.wallet.spend_key := by rw [hframe]
    refine ⟨?_, ?_, ?_, ?_⟩
    · rw [hsecret, hspend]
      exact hinv.spend_key
    · rw [hsecret, hkeys]
      exact hinv.receiver
    · rw [hsecret]
      intro secret hsome
      obtain ⟨keys, hsome_keys, hreceiver⟩ := hinv.receiver secret hsome
      exact Wallet.scan_block_owned hsecp hsp hsome_keys hreceiver (hinv.owned secret hsome) hscan
    · rw [hsecret]
      exact hinv.watch_only
  | @process_disconnect block =>
    exact ⟨hinv.spend_key, hinv.receiver,
      fun secret hsome => Wallet.process_disconnect_owned block (hinv.owned secret hsome),
      hinv.watch_only⟩

theorem KeyInvariant.init (spInst : silentpayments.Api) {state : KeyState}
    (hinit : (key_system secpInst spInst).init state) : KeyInvariant secpInst state := by
  rcases hinit with ⟨_, ⟨network, hnew⟩ | ⟨file, hload⟩⟩
  · exact .of_no_secret (by rw [hnew]; rfl)
  · obtain ⟨_, _, _, _, hparts, _⟩ := wallet_store.wallet_from_bytes_eq_ok hload
    exact .of_no_secret (by rw [hparts]; rfl)

end

/-- Every input of the transaction spends a coin of the wallet and carries a
    signature of the transaction's digest by the key in that coin's script. -/
def SignedByOwners (secpInst : secp256k1.Api) (btcInst : bitcoin.Api) (wallet : Wallet)
    (tx : Transaction) : Prop :=
  ∃ unsigned prevouts, unsigned.outpoints = tx.outpoints ∧ ∀ (i : Nat) txin,
    tx.input[i]? = some txin →
    ∃ coin key digest, wallet.utxos.lookup txin.previous_output = some coin ∧
      coin.script_pubkey = p2tr_script (secpInst.public_key key).x ∧
      btcInst.taproot_key_spend_signature_hash unsigned i prevouts = .ok digest ∧
      txin.witness = [(secpInst.sign_schnorr digest key).toList]

/-- The secret belongs to the spend key and owns what may be selected, a wallet
    that only watches refuses to build, and what is built is signed by the
    owners of its inputs. -/
structure KeyConsistent (secpInst : secp256k1.Api) (spInst : silentpayments.Api)
    (state : KeyState) : Prop where
  spend_key : ∀ secret, state.wallet.spend_secret = some secret →
    state.wallet.spend_key = some (secpInst.public_key secret)
  owned : ∀ secret, state.wallet.spend_secret = some secret →
    ∀ order, ∀ spendable ∈ state.wallet.spendable_coins order,
      spendable.coin.OwnedBy secpInst secret
  watch_only : state.watch_only = true → ∀ csInst btcInst rng recipient amount fee_rate
    long_term_fee_rate,
    state.wallet.build_transaction secpInst spInst csInst btcInst rng recipient amount fee_rate
      long_term_fee_rate =
      .error .WatchOnly
  signed : ∀ csInst btcInst rng recipient amount fee_rate long_term_fee_rate tx,
    state.wallet.build_transaction secpInst spInst csInst btcInst rng recipient amount fee_rate
      long_term_fee_rate =
      .ok tx → SignedByOwners secpInst btcInst state.wallet tx

/-- In every run in which imports match the stored secret and coins, keys and
    coins are consistent. -/
theorem key_consistent_of_keys_match (secpInst : secp256k1.Api) (spInst : silentpayments.Api)
    (hsecp : secpInst.Lawful) (hsp : spInst.Lawful secpInst) {state : KeyState}
    (hreach : ((key_system secpInst spInst).restrict (KeysMatch secpInst)).Reachable state) :
    KeyConsistent secpInst spInst state := by
  have hinv : KeyInvariant secpInst state := by
    refine hreach.invariant ?_ fun _ _ _ hinv hstep => hinv.step hsecp hsp hstep.1 hstep.2
    exact fun first hinit => KeyInvariant.init spInst hinit
  refine ⟨hinv.spend_key, ?_, ?_, ?_⟩
  · intro secret hsecret order spendable hspendable
    exact hinv.owned secret hsecret spendable.outpoint spendable.coin
      (mem_spendable_coins.mp hspendable).1
  · intro hwatch csInst btcInst rng recipient amount fee_rate long_term_fee_rate
    simp only [Wallet.build_transaction, hinv.watch_only hwatch]
  · intro csInst btcInst rng recipient amount fee_rate long_term_fee_rate tx hbuild
    obtain ⟨secret, selected, keys, unsigned, hsecret, hselected, hkeys, hinput, _, hsign⟩ :=
      Wallet.build_transaction_spec hbuild
    refine ⟨unsigned, selected.map SpendableCoin.prevout, (sign_transaction_outpoints hsign).symm,
      ?_⟩
    intro i txin htxin
    obtain ⟨spendable, key, digest, hspendable, htweak, hdigest, rfl⟩ :=
      sign_transaction_input hkeys hinput hsign htxin
    obtain ⟨hcoin, _⟩ := mem_spendable_coins.mp
      (hselected spendable (List.mem_of_getElem? hspendable))
    obtain ⟨owner, howner, hscript⟩ := hinv.owned secret hsecret _ _ hcoin
    obtain rfl : owner = key := Option.some.inj (howner.symm.trans htweak)
    exact ⟨spendable.coin, owner, digest, hcoin, hscript, hdigest, rfl⟩

def regtest_keys : System KeyState KeyAction := key_system regtest.secp regtest.sp

/-- The payment, scanned after the import of the receiver's keys. -/
def regtest_paid : KeyState := ⟨regtest.funded_wallet (regtest.coins.take 1), false⟩

theorem regtest_import :
    KeyStep regtest.secp regtest.sp ⟨Wallet.new .Regtest, false⟩
      (.import_signing_keys regtest.scan_key regtest.spend_secret) ⟨regtest_wallet, false⟩ :=
  .import_signing_keys rfl

theorem regtest_scan :
    KeyStep regtest.secp regtest.sp ⟨regtest_wallet, false⟩
      (.scan_block regtest.payment_block regtest.payment_spent 2) regtest_paid :=
  @KeyStep.scan_block regtest.secp regtest.sp ⟨regtest_wallet, false⟩ _ _ _
    regtest_paid.wallet 1 rfl

/-- One import and one payment: the coin can be selected and is owned. -/
theorem key_consistent_after_payment :
    (regtest_keys.restrict (KeysMatch regtest.secp)).Reachable regtest_paid ∧
      (regtest_paid.wallet.spendable_coins .id).length = 1 ∧
      KeyConsistent regtest.secp regtest.sp regtest_paid := by
  have hnew : (regtest_keys.restrict (KeysMatch regtest.secp)).Reachable
    ⟨Wallet.new .Regtest, false⟩ :=
    .of_init ⟨rfl, .inl ⟨.Regtest, rfl⟩⟩
  have hpaid := (hnew.step_restrict regtest_import nofun).step_restrict regtest_scan trivial
  exact ⟨hpaid, rfl, key_consistent_of_keys_match _ _ regtest.secp_lawful regtest.sp_lawful hpaid⟩

/-- After the payment another key is imported to be watched: the old secret
    stays, is not the secret of the new spend key, and still signs. -/
theorem watch_only_import_keeps_secret :
    ∃ state, regtest_keys.Reachable state ∧ state.watch_only = true ∧
      state.wallet.spend_secret = some regtest.spend_secret ∧
      state.wallet.spend_key ≠ some (regtest.secp.public_key regtest.spend_secret) ∧
      state.wallet.build_transaction regtest.secp regtest.sp regtest.cs regtest.btc regtest.rng
        (.Address regtest.sender_script) ⟨9700⟩ ⟨250⟩ ⟨2500⟩ = .ok regtest.first_send_back.tx ∧
      ¬ KeyConsistent regtest.secp regtest.sp state := by
  have hnew : regtest_keys.Reachable ⟨Wallet.new .Regtest, false⟩ :=
    .of_init ⟨rfl, .inl ⟨.Regtest, rfl⟩⟩
  have hpaid : regtest_keys.Reachable regtest_paid := (hnew.step regtest_import).step regtest_scan
  have hreach := hpaid.step (@KeyStep.import_keys _ _ _ regtest.scan_key regtest.sender_key.x _ rfl)
  have hkey : some (PublicKey.from_x_only_public_key regtest.sender_key.x .Even) ≠
      some (regtest.secp.public_key regtest.spend_secret) := by decide +kernel
  refine ⟨_, hreach, rfl, rfl, hkey, ?_, fun hconsistent => hkey (hconsistent.spend_key _ rfl)⟩
  decide +kernel

end node
