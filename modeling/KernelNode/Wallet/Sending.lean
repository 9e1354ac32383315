import KernelNode.Collections.System
import KernelNode.Collections.Traverse
import KernelNode.Wallet.State

open bitcoin secp256k1 silentpayments std.collections

namespace bdk_coin_select

/-- A fee rate in satoshis per weight unit: a 32-bit float, in units of
    `2 ^ -90`. -/
structure FeeRate where
  spwu : Nat
deriving DecidableEq

/-- A taproot key spend of the given value. -/
structure Candidate where
  value : UInt64
deriving DecidableEq

/-- The weight of a taproot output. -/
def TR_KEYSPEND_OUTPUT_WEIGHT : UInt64 := 172

structure Target where
  fee : FeeRate
  /-- Weight and value of each output to fund. -/
  outputs : List (UInt64 × UInt64)
deriving DecidableEq

/-- Change to a taproot output where it is worth at least `min_value` and does
    not increase the waste. -/
structure ChangePolicy where
  min_value : UInt64
  feerate : FeeRate
  long_term_feerate : FeeRate
deriving DecidableEq

structure LowestFee where
  target : Target
  long_term_feerate : FeeRate
  change_policy : ChangePolicy
deriving DecidableEq

structure Drain where
  is_some : Bool
  value : UInt64
deriving DecidableEq

/-- The coin selector's algorithms, with a selection as a list of candidate
    indices. -/
structure Api where
  /-- Branch and bound, `none` where it finds no solution in the given rounds. -/
  run_bnb : List Candidate → LowestFee → Nat → Option (List Nat)
  /-- Largest value first; the error is the amount that is missing. -/
  select_until_target_met : List Candidate → Target → Except UInt64 (List Nat)
  drain : List Candidate → List Nat → Target → ChangePolicy → Drain

end bdk_coin_select

namespace bitcoin

inductive Network where
  | Bitcoin
  | Testnet
  | Regtest
deriving DecidableEq

/-- A parsed address: its output script and the networks it is valid for. -/
structure UncheckedAddress where
  script_pubkey : ScriptBuf
  is_valid_for_network : Network → Bool

/-- The functions of the bitcoin library the wallet calls. -/
structure Api where
  address_from_str : String → Except String UncheckedAddress
  /-- A raw transaction, decoded from its consensus serialization. -/
  consensus_decode : List UInt8 → Except String Transaction
  /-- The transaction id as it is displayed. -/
  compute_txid_string : Transaction → String
  minimal_non_dust : ScriptBuf → Amount
  /-- The digest an input signs, or why there is none. -/
  taproot_key_spend_signature_hash : Transaction → Nat → List TxOut →
    Except String (List.Vector UInt8 32)

end bitcoin

namespace wallet

inductive SendError where
  | WatchOnly
  | NoSpendableCoins
  | DustAmount (amount dust : Amount)
  | InsufficientFunds (needed available : Amount)
  | NetworkMismatch
  | InvalidRecipient (message : String)
  | OutputDerivation
  | SilentPayments (e : silentpayments.Error)
  | Secp (message : String)
  | Sighash (message : String)
deriving DecidableEq

def SendError.is_user_error : SendError → Bool
  | .WatchOnly | .NoSpendableCoins | .DustAmount _ _ | .InsufficientFunds _ _ | .NetworkMismatch
  | .InvalidRecipient _ => true
  | _ => false

def SendError.to_string : SendError → String
  | .WatchOnly => "wallet is watch-only: no spend secret to sign with"
  | .NoSpendableCoins => "no spendable coins"
  | .DustAmount amount dust =>
    "amount " ++ toString amount.sat ++ " sats is below the dust limit of " ++ toString
      dust.sat ++ " sats"
  | .InsufficientFunds needed available =>
    "insufficient funds: need " ++ toString needed.sat ++ " sats, have " ++ toString
      available.sat ++ " sats"
  | .NetworkMismatch => "recipient address is for a different network"
  | .InvalidRecipient e => "invalid recipient address: " ++ e
  | .OutputDerivation => "recipient output key was not derived"
  | .SilentPayments e => "silent payments error: " ++ e.message
  | .Secp e => "secp256k1 error: " ++ e
  | .Sighash e => "sighash error: " ++ e

inductive Recipient where
  | SilentPayment (code : SilentPaymentCode)
  /-- An address by its output script. -/
  | Address (script_pubkey : ScriptBuf)
deriving DecidableEq

def bitcoin_network : silentpayments.Network → bitcoin.Network
  | .Mainnet => .Bitcoin
  | .Testnet => .Testnet
  | .Regtest => .Regtest

/-- A silent payment code if the text is one, and an address otherwise; either
    has to be for the wallet's network. -/
def Recipient.parse (spInst : silentpayments.Api) (btcInst : bitcoin.Api) (s : String)
    (network : silentpayments.Network) : Except SendError Recipient :=
  match spInst.silent_payment_code_from_str s with
  | some sp => if sp.network ≠ network then .error .NetworkMismatch else .ok (.SilentPayment sp)
  | none =>
    match btcInst.address_from_str s with
    | .error e => .error (.InvalidRecipient e)
    | .ok address =>
      if address.is_valid_for_network (bitcoin_network network) then .ok
        (.Address address.script_pubkey)
      else .error .NetworkMismatch

structure SpendableCoin where
  outpoint : OutPoint
  coin : Coin
deriving DecidableEq

/-- What is random in one call: the order in which the map of coins is iterated,
    and the two shuffles. -/
structure Rng where
  utxos : Reorder (Σ _ : OutPoint, Coin)
  coins : Reorder SpendableCoin
  outputs : Reorder TxOut

/-- `to_sat_per_kwu() as f32 / 1000.0`, rounded by the conversion and again by the
    division. -/
def cs_feerate (fee_rate : FeeRate) : bdk_coin_select.FeeRate where
  spwu := std.time.round_f32 (std.time.round_f32 fee_rate.sat_per_kwu.toNat 1) (1000 * 2 ^ 90)

/-- 8-byte value, 1-byte length prefix, then the script, times 4 weight units
    per byte. -/
def output_weight (script_len : Nat) : UInt64 := UInt64.ofNat ((8 + 1 + script_len) * 4)

def p2tr_script (output_key : XOnlyPublicKey) : ScriptBuf := 0x51 :: 0x20 :: output_key.bytes.toList

def sp_output_script (derived : HashMap SilentPaymentKeyMaterial (List XOnlyPublicKey))
    (address : SilentPaymentCode) : Except SendError ScriptBuf :=
  match (derived.lookup address.into).bind List.head? with
  | some xonly => .ok (p2tr_script xonly)
  | none => .error .OutputDerivation

def saturating_add (a b : UInt64) : UInt64 :=
  if a.toNat + b.toNat < UInt64.size then a + b else UInt64.ofNat (UInt64.size - 1)

/-- The indices of the coins to spend: by branch and bound, and largest first
    where that finds nothing. -/
def run_selector (csInst : bdk_coin_select.Api) (coins : List SpendableCoin)
    (candidates : List bdk_coin_select.Candidate) (metric : bdk_coin_select.LowestFee)
    (max_bnb_rounds : Nat) : Except SendError (List Nat) :=
  match csInst.run_bnb candidates metric max_bnb_rounds with
  | some selector => .ok selector
  | none => match csInst.select_until_target_met candidates metric.target with
    | .ok selector => .ok selector
    | .error missing =>
      let available := (coins.map fun c => c.coin.value.sat).foldl saturating_add 0
      .error (.InsufficientFunds ⟨saturating_add available missing⟩ ⟨available⟩)

def select_coins (csInst : bdk_coin_select.Api) (coins : List SpendableCoin)
    (target : bdk_coin_select.Target) (change_policy : bdk_coin_select.ChangePolicy)
    (long_term_fee_rate : FeeRate) (max_bnb_rounds : Nat) :
    Except SendError (List SpendableCoin × bdk_coin_select.Drain) := do
  let candidates := coins.map fun c => ⟨c.coin.value.sat⟩
  let long_term_feerate := cs_feerate long_term_fee_rate
  let metric := { target, long_term_feerate, change_policy }
  let selector ← run_selector csInst coins candidates metric max_bnb_rounds
  let drain := csInst.drain candidates selector target change_policy
  return (selector.filterMap fun index => coins[index]?, drain)

/-- The secret key of each coin: the spend secret plus the coin's tweak. -/
def signing_keys (spend_secret : SecretKey) (selected : List SpendableCoin) :
    Except SendError (List SecretKey) :=
  selected.mapM fun c =>
    match spend_secret.add_tweak c.coin.tweak with
    | some key => .ok key
    | none => .error (.Secp "bad tweak")

/-- The output keys of the silent payment outputs, derived from the inputs. They
    are needed for a silent payment recipient and for change. -/
def derive_outputs (spInst : silentpayments.Api) (recipient : Recipient)
    (change_address : SilentPaymentCode) (change_value : Option Amount)
    (signing_keys : List SecretKey) (selected : List SpendableCoin) :
    Except SendError (HashMap SilentPaymentKeyMaterial (List XOnlyPublicKey)) :=
  let recipient_addrs := match recipient with
    | .SilentPayment sp => [sp.into]
    | .Address _ => []
  let recipient_is_sp := !recipient_addrs.isEmpty
  if !recipient_is_sp && change_value.isNone then .ok ∅ else
  -- true marks each key as taproot since every silent payment coin is a P2TR output
  let input_keys := signing_keys.map fun k => (k, true)
  let outpoints := selected.map fun c => silentpayments.utils.OutPoint.from_outpoint c.outpoint
  match spInst.calculate_partial_secret input_keys outpoints with
  | .error e => .error (.SilentPayments e)
  | .ok partial_secret =>
    let sp_addrs := if change_value.isSome then recipient_addrs ++ [change_address.into]
      else recipient_addrs
    match spInst.generate_recipient_pubkeys sp_addrs partial_secret with
    | .error e => .error (.SilentPayments e)
    | .ok derived => .ok derived

def Recipient.output_script (derived : HashMap SilentPaymentKeyMaterial (List XOnlyPublicKey)) :
    Recipient → Except SendError ScriptBuf
  | .Address script_pubkey => .ok script_pubkey
  | .SilentPayment sp => sp_output_script derived sp

/-- The recipient's output and the change output, before they are shuffled. -/
def transaction_outputs (recipient : Recipient) (amount : Amount)
    (change_address : SilentPaymentCode) (change_value : Option Amount)
    (derived : HashMap SilentPaymentKeyMaterial (List XOnlyPublicKey)) :
    Except SendError (List TxOut) := do
  let recipient_script ← recipient.output_script derived
  match change_value with
  | none => return [{ value := amount, script_pubkey := recipient_script }]
  | some value =>
    let change_script ← sp_output_script derived change_address
    return [{ value := amount, script_pubkey := recipient_script },
      { value, script_pubkey := change_script }]

/-- The input that spends a coin, not yet signed. -/
def SpendableCoin.input (self : SpendableCoin) : TxIn where
  previous_output := self.outpoint
  script_sig := []
  sequence := 0xfffffffd
  witness := []

def SpendableCoin.prevout (self : SpendableCoin) : TxOut where
  value := self.coin.value
  script_pubkey := self.coin.script_pubkey

/-- The witness of an input: the signature of its digest alone. -/
def sign_input (secpInst : secp256k1.Api) (btcInst : bitcoin.Api) (tx : Transaction)
    (prevouts : List TxOut) (i : Nat) (signing_key : SecretKey) :
    Except SendError (List (List UInt8)) :=
  match btcInst.taproot_key_spend_signature_hash tx i prevouts with
  | .error e => .error (.Sighash e)
  | .ok sighash => .ok [(secpInst.sign_schnorr sighash signing_key).toList]

/-- The witnesses put into the inputs, pair by pair. -/
def attach_witnesses : List TxIn → List (List (List UInt8)) → List TxIn
  | txin :: input, witness :: witnesses => { txin with witness } :: attach_witnesses input witnesses
  | input, _ => input

def sign_transaction (secpInst : secp256k1.Api) (btcInst : bitcoin.Api) (tx : Transaction)
    (selected : List SpendableCoin) (signing_keys : List SecretKey) :
    Except SendError Transaction := do
  let prevouts := selected.map SpendableCoin.prevout
  let witnesses ← signing_keys.zipIdx.mapM fun (signing_key, i) =>
    sign_input secpInst btcInst tx prevouts i signing_key
  return { tx with input := attach_witnesses tx.input witnesses }

section

variable (secpInst : secp256k1.Api) (spInst : silentpayments.Api) (csInst : bdk_coin_select.Api)
    (btcInst : bitcoin.Api)

def p2tr_dust (spend_secret : SecretKey) : Amount :=
  btcInst.minimal_non_dust (p2tr_script (secpInst.public_key spend_secret).x)

def Recipient.dust (spend_secret : SecretKey) : Recipient → Amount
  | .Address script_pubkey => btcInst.minimal_non_dust script_pubkey
  | .SilentPayment _ => p2tr_dust secpInst btcInst spend_secret

def Recipient.weight : Recipient → UInt64
  | .Address script_pubkey => output_weight script_pubkey.length
  | .SilentPayment _ => bdk_coin_select.TR_KEYSPEND_OUTPUT_WEIGHT

/-- What the coins have to fund. -/
def Recipient.target (self : Recipient) (amount : Amount) (fee_rate : FeeRate) :
    bdk_coin_select.Target where
  fee := cs_feerate fee_rate
  outputs := [(self.weight, amount.sat)]

/-- When change is worth an output. -/
def send_change_policy (spend_secret : SecretKey) (fee_rate long_term_fee_rate : FeeRate) :
    bdk_coin_select.ChangePolicy where
  min_value := (p2tr_dust secpInst btcInst spend_secret).sat
  feerate := cs_feerate fee_rate
  long_term_feerate := cs_feerate long_term_fee_rate

def drain_change_value (drain : bdk_coin_select.Drain) : Option Amount :=
  if drain.is_some then some ⟨drain.value⟩ else none

def build_transaction (rng : Rng) (spend_secret : SecretKey) (recipient : Recipient)
    (amount : Amount) (fee_rate long_term_fee_rate : FeeRate) (tip_height : UInt32)
    (change_address : SilentPaymentCode) (coins : List SpendableCoin) :
    Except SendError Transaction := do
  if coins.isEmpty then
    throw .NoSpendableCoins
  let recipient_dust := recipient.dust secpInst btcInst spend_secret
  if amount.sat < recipient_dust.sat then
    throw (.DustAmount amount recipient_dust)
  let target := recipient.target amount fee_rate
  let change_policy := send_change_policy secpInst btcInst spend_secret fee_rate long_term_fee_rate
  let (selected, drain) ← select_coins csInst coins target change_policy long_term_fee_rate 100000
  let selected := rng.coins.apply selected
  let keys ← signing_keys spend_secret selected
  let change_value := drain_change_value drain
  let derived ← derive_outputs spInst recipient change_address change_value keys selected
  let output ← transaction_outputs recipient amount change_address change_value derived
  let tx := {
    version := 2
    lock_time := (lock_time_from_height tip_height).getD 0
    input := selected.map SpendableCoin.input
    output := rng.outputs.apply output }
  sign_transaction secpInst btcInst tx selected keys

end

/-- The coins that a new transaction may spend, unspent and not reserved, in the
    order in which the map is iterated. -/
def Wallet.spendable_coins (self : Wallet) (order : Reorder (Σ _ : OutPoint, Coin)) :
    List SpendableCoin :=
  ((order.apply self.utxos.entries).filter fun entry =>
    entry.2.spent_by.isNone && entry.1 ∉ self.reserved).map fun entry =>
      { outpoint := entry.1, coin := entry.2 }

def Wallet.build_transaction (secpInst : secp256k1.Api) (spInst : silentpayments.Api)
    (csInst : bdk_coin_select.Api) (btcInst : bitcoin.Api) (rng : Rng) (self : Wallet)
    (recipient : Recipient) (amount : Amount) (fee_rate long_term_fee_rate : FeeRate) :
    Except SendError Transaction :=
  match self.spend_secret, self.keys with
  | some spend_secret, some keys =>
    wallet.build_transaction secpInst spInst csInst btcInst rng spend_secret recipient amount
      fee_rate long_term_fee_rate self.scan_height (spInst.change_code keys.receiver)
      (self.spendable_coins rng.utxos)
  | _, _ => .error .WatchOnly

theorem mem_spendable_coins {self : Wallet} {order : Reorder (Σ _ : OutPoint, Coin)}
    {spendable : SpendableCoin} :
    spendable ∈ self.spendable_coins order ↔
      self.utxos.lookup spendable.outpoint = some spendable.coin ∧
        spendable.coin.spent_by = none ∧ spendable.outpoint ∉ self.reserved := by
  obtain ⟨outpoint, coin⟩ := spendable
  simp only [Wallet.spendable_coins, List.mem_map, List.mem_filter, Reorder.mem_apply,
    Bool.and_eq_true, Option.isNone_iff_eq_none, decide_eq_true_eq, SpendableCoin.mk.injEq]
  constructor
  · rintro ⟨⟨_, _⟩, ⟨hentry, hunspent, hfree⟩, rfl, rfl⟩
    exact ⟨AList.mem_lookup_iff.mpr hentry, hunspent, hfree⟩
  · rintro ⟨hentry, hunspent, hfree⟩
    exact ⟨⟨outpoint, coin⟩, ⟨AList.mem_lookup_iff.mp hentry, hunspent, hfree⟩, rfl, rfl⟩

theorem select_coins_mem {csInst : bdk_coin_select.Api} {coins selected : List SpendableCoin}
    {target : bdk_coin_select.Target} {change_policy : bdk_coin_select.ChangePolicy}
    {long_term_fee_rate : FeeRate} {max_bnb_rounds : Nat} {drain : bdk_coin_select.Drain}
    (hselect : select_coins csInst coins target change_policy long_term_fee_rate max_bnb_rounds =
      .ok (selected, drain))
    {spendable : SpendableCoin} (hmem : spendable ∈ selected) : spendable ∈ coins := by
  simp only [select_coins, std.result.bind_eq_ok_iff] at hselect
  obtain ⟨selector, _, hselected⟩ := hselect
  cases hselected
  obtain ⟨index, _, hindex⟩ := List.mem_filterMap.mp hmem
  exact List.mem_of_getElem? hindex

theorem attach_witnesses_outpoints (input : List TxIn) (witnesses : List (List (List UInt8))) :
    (attach_witnesses input witnesses).map TxIn.previous_output =
      input.map TxIn.previous_output := by
  fun_induction attach_witnesses input witnesses with
  | case1 txin input witness witnesses ih => simp [ih]
  | case2 => rfl

theorem getElem?_attach_witnesses (input : List TxIn) (witnesses : List (List (List UInt8)))
    (i : Nat) :
    (attach_witnesses input witnesses)[i]? =
      input[i]?.map fun txin => { txin with witness := witnesses[i]?.getD txin.witness } := by
  fun_induction attach_witnesses input witnesses generalizing i with
  | case1 txin input witness witnesses ih => cases i <;> simp [ih]
  | case2 input witnesses hexhausted =>
    cases input with
    | nil => simp
    | cons txin input =>
      cases witnesses with
      | nil => simp
      | cons witness witnesses => exact (hexhausted txin input witness witnesses rfl rfl).elim

section

variable {secpInst : secp256k1.Api} {spInst : silentpayments.Api} {csInst : bdk_coin_select.Api}
    {btcInst : bitcoin.Api} {rng : Rng} {spend_secret : SecretKey} {recipient : Recipient}
    {amount : Amount} {fee_rate long_term_fee_rate : FeeRate} {tip_height : UInt32}
    {change_address : SilentPaymentCode} {coins : List SpendableCoin} {tx : Transaction}

/-- The calls behind a built transaction: the coins and the drain that the
    selector chooses, the keys of the shuffled coins, the derived output keys and
    the outputs, and the signatures on the transaction of these. -/
theorem build_transaction_calls
    (hbuild : build_transaction secpInst spInst csInst btcInst rng spend_secret recipient
      amount fee_rate long_term_fee_rate tip_height change_address coins = .ok tx) :
    ∃ chosen drain keys derived output,
      select_coins csInst coins (recipient.target amount fee_rate)
        (send_change_policy secpInst btcInst spend_secret fee_rate long_term_fee_rate)
        long_term_fee_rate 100000 = .ok (chosen, drain) ∧
      signing_keys spend_secret (rng.coins.apply chosen) = .ok keys ∧
      derive_outputs spInst recipient change_address (drain_change_value drain) keys
        (rng.coins.apply chosen) = .ok derived ∧
      transaction_outputs recipient amount change_address (drain_change_value drain) derived =
        .ok output ∧
      sign_transaction secpInst btcInst
        { version := 2
          lock_time := (lock_time_from_height tip_height).getD 0
          input := (rng.coins.apply chosen).map SpendableCoin.input
          output := rng.outputs.apply output }
        (rng.coins.apply chosen) keys = .ok tx := by
  simp only [build_transaction] at hbuild
  split at hbuild
  · cases hbuild
  · split at hbuild
    · cases hbuild
    · simp only [std.result.bind_eq_ok_iff] at hbuild
      obtain ⟨⟨chosen, drain⟩, hselect, keys, hkeys, derived, hderived, output, houtput, hsign⟩ :=
        hbuild
      exact ⟨chosen, drain, keys, derived, output, hselect, hkeys, hderived, houtput, hsign⟩

/-- What a built transaction is: some of the given coins, one key for each, and
    the signatures of those keys on the transaction that spends the coins. -/
theorem build_transaction_spec
    (hbuild : build_transaction secpInst spInst csInst btcInst rng spend_secret recipient
      amount fee_rate long_term_fee_rate tip_height change_address coins = .ok tx) :
    ∃ selected keys unsigned, (∀ spendable ∈ selected, spendable ∈ coins) ∧
      signing_keys spend_secret selected = .ok keys ∧
      unsigned.input = selected.map SpendableCoin.input ∧
      unsigned.lock_time = (lock_time_from_height tip_height).getD 0 ∧
      sign_transaction secpInst btcInst unsigned selected keys = .ok tx := by
  obtain ⟨chosen, drain, keys, _, _, hselect, hkeys, _, _, hsign⟩ := build_transaction_calls hbuild
  refine ⟨rng.coins.apply chosen, keys, _, ?_, hkeys, rfl, rfl, hsign⟩
  intro spendable hspendable
  exact select_coins_mem hselect ((rng.coins.perm chosen).mem_iff.mp hspendable)

end

/-- The outputs are the recipient's and, for a drain, that of its value. -/
theorem transaction_outputs_eq_ok {recipient : Recipient} {amount : Amount}
    {change_address : SilentPaymentCode} {drain : bdk_coin_select.Drain}
    {derived : HashMap SilentPaymentKeyMaterial (List XOnlyPublicKey)} {output : List TxOut}
    (houtput : transaction_outputs recipient amount change_address (drain_change_value drain)
      derived = .ok output) :
    ∃ recipient_script, recipient.output_script derived = .ok recipient_script ∧
      ((drain.is_some = false ∧ output = [⟨amount, recipient_script⟩]) ∨
        (drain.is_some = true ∧ ∃ change_script,
          sp_output_script derived change_address = .ok change_script ∧
          output = [⟨amount, recipient_script⟩, ⟨⟨drain.value⟩, change_script⟩])) := by
  simp only [transaction_outputs, std.result.bind_eq_ok_iff] at houtput
  obtain ⟨recipient_script, hrecipient, houtput⟩ := houtput
  refine ⟨recipient_script, hrecipient, ?_⟩
  cases hdrain : drain.is_some with
  | false =>
    simp only [drain_change_value, hdrain] at houtput
    cases houtput
    exact .inl ⟨rfl, rfl⟩
  | true =>
    simp only [drain_change_value, hdrain, if_true, std.result.bind_eq_ok_iff] at houtput
    obtain ⟨change_script, hchange, houtput⟩ := houtput
    cases houtput
    exact .inr ⟨rfl, change_script, hchange, rfl⟩

theorem sign_transaction_outpoints {secpInst : secp256k1.Api} {btcInst : bitcoin.Api}
    {unsigned tx : Transaction} {selected : List SpendableCoin} {keys : List SecretKey}
    (hsign : sign_transaction secpInst btcInst unsigned selected keys = .ok tx) :
    tx.outpoints = unsigned.outpoints := by
  simp only [sign_transaction, std.result.bind_eq_ok_iff] at hsign
  obtain ⟨witnesses, _, htx⟩ := hsign
  cases htx
  exact attach_witnesses_outpoints unsigned.input witnesses

theorem sign_transaction_lock_time {secpInst : secp256k1.Api} {btcInst : bitcoin.Api}
    {unsigned tx : Transaction} {selected : List SpendableCoin} {keys : List SecretKey}
    (hsign : sign_transaction secpInst btcInst unsigned selected keys = .ok tx) :
    tx.lock_time = unsigned.lock_time := by
  simp only [sign_transaction, std.result.bind_eq_ok_iff] at hsign
  obtain ⟨witnesses, _, htx⟩ := hsign
  cases htx
  rfl

/-- The keys are those of the coins, index by index. -/
theorem getElem?_signing_keys {spend_secret : SecretKey} {selected : List SpendableCoin}
    {keys : List SecretKey} (hkeys : signing_keys spend_secret selected = .ok keys) {i : Nat}
    {spendable : SpendableCoin} (hspendable : selected[i]? = some spendable) :
    ∃ key, keys[i]? = some key ∧ spend_secret.add_tweak spendable.coin.tweak = some key := by
  obtain ⟨key, hkey, htweak⟩ := std.result.getElem?_of_mapM hkeys hspendable
  refine ⟨key, hkey, ?_⟩
  split at htweak
  · rename_i hsum
    cases htweak
    exact hsum
  · cases htweak

/-- Input by input, a signed transaction spends a selected coin and carries the
    signature of the coin's own key. -/
theorem sign_transaction_input {secpInst : secp256k1.Api} {btcInst : bitcoin.Api}
    {unsigned tx : Transaction} {selected : List SpendableCoin} {spend_secret : SecretKey}
    {keys : List SecretKey} (hkeys : signing_keys spend_secret selected = .ok keys)
    (hinput : unsigned.input = selected.map SpendableCoin.input)
    (hsign : sign_transaction secpInst btcInst unsigned selected keys = .ok tx)
    {i : Nat} {txin : TxIn} (htxin : tx.input[i]? = some txin) :
    ∃ spendable key digest, selected[i]? = some spendable ∧
      spend_secret.add_tweak spendable.coin.tweak = some key ∧
      btcInst.taproot_key_spend_signature_hash unsigned i (selected.map SpendableCoin.prevout) =
        .ok digest ∧
      txin = { spendable.input with witness := [(secpInst.sign_schnorr digest key).toList] } := by
  simp only [sign_transaction, std.result.bind_eq_ok_iff] at hsign
  obtain ⟨witnesses, hwitnesses, htx⟩ := hsign
  cases htx
  simp only [getElem?_attach_witnesses, hinput, List.getElem?_map, Option.map_map,
    Option.map_eq_some_iff] at htxin
  obtain ⟨spendable, hspendable, rfl⟩ := htxin
  obtain ⟨key, hkey, hsum⟩ := getElem?_signing_keys hkeys hspendable
  have hindexed : keys.zipIdx[i]? = some (key, i) := by simp [hkey]
  obtain ⟨witness, hwitness, hsigned⟩ := std.result.getElem?_of_mapM hwitnesses hindexed
  refine ⟨spendable, key, ?_⟩
  simp only [sign_input] at hsigned
  split at hsigned
  · cases hsigned
  · rename_i digest hdigest
    cases hsigned
    exact ⟨digest, hspendable, hsum, hdigest, by simp [hwitness]⟩

/-- What the wallet builds, it builds with its spend secret from the coins it
    may spend. -/
theorem Wallet.build_transaction_spec {secpInst : secp256k1.Api} {spInst : silentpayments.Api}
    {csInst : bdk_coin_select.Api} {btcInst : bitcoin.Api} {rng : Rng} {self : Wallet}
    {recipient : Recipient} {amount : Amount} {fee_rate long_term_fee_rate : FeeRate}
    {tx : Transaction}
    (hbuild : self.build_transaction secpInst spInst csInst btcInst rng recipient amount fee_rate
      long_term_fee_rate = .ok tx) :
    ∃ secret selected keys unsigned, self.spend_secret = some secret ∧
      (∀ spendable ∈ selected, spendable ∈ self.spendable_coins rng.utxos) ∧
      signing_keys secret selected = .ok keys ∧
      unsigned.input = selected.map SpendableCoin.input ∧
      unsigned.lock_time = (lock_time_from_height self.scan_height).getD 0 ∧
      sign_transaction secpInst btcInst unsigned selected keys = .ok tx := by
  simp only [Wallet.build_transaction] at hbuild
  split at hbuild
  · rename_i secret _ hsecret _
    obtain ⟨selected, keys, unsigned, hspec⟩ := wallet.build_transaction_spec hbuild
    exact ⟨secret, selected, keys, unsigned, hsecret, hspec⟩
  · cases hbuild

/-- A built transaction spends coins of the wallet that are unspent and not
    reserved. -/
theorem Wallet.build_transaction_outpoints {secpInst : secp256k1.Api} {spInst : silentpayments.Api}
    {csInst : bdk_coin_select.Api} {btcInst : bitcoin.Api} {rng : Rng} {self : Wallet}
    {recipient : Recipient} {amount : Amount} {fee_rate long_term_fee_rate : FeeRate}
    {tx : Transaction}
    (hbuild : self.build_transaction secpInst spInst csInst btcInst rng recipient amount fee_rate
      long_term_fee_rate = .ok tx) {outpoint : OutPoint} (houtpoint : outpoint ∈ tx.outpoints) :
    (∃ coin, self.utxos.lookup outpoint = some coin ∧ coin.spent_by = none) ∧
      outpoint ∉ self.reserved := by
  obtain ⟨_, selected, _, unsigned, _, hselected, _, hinput, _, hsign⟩ :=
    Wallet.build_transaction_spec hbuild
  rw [sign_transaction_outpoints hsign, Transaction.outpoints, hinput, List.map_map] at houtpoint
  obtain ⟨spendable, hspendable, rfl⟩ := List.mem_map.mp houtpoint
  obtain ⟨hcoin, hunspent, hfree⟩ := mem_spendable_coins.mp (hselected spendable hspendable)
  exact ⟨⟨spendable.coin, hcoin, hunspent⟩, hfree⟩

end wallet

namespace regtest

/-- The coin selector where one coin pays for the amount with too little left
    for change: it takes the first. -/
def cs : bdk_coin_select.Api where
  run_bnb candidates _ _ := if candidates.isEmpty then none else some [0]
  select_until_target_met candidates _ := if candidates.isEmpty then .error 9700 else .ok [0]
  drain _ _ _ _ := ⟨false, 0⟩

/-- A coin of the receiver, by the transaction that created it and by its
    derivation. -/
def coin (tweak : Scalar) (output_key : XOnlyPublicKey) : wallet.Coin where
  value := ⟨10000⟩
  script_pubkey := p2tr output_key
  tweak
  label := none
  block_height := 2
  spent_by := none

def coins : List (Sigma fun _ : OutPoint => wallet.Coin) := [
  ⟨⟨txid 0xaa, 0⟩, coin 0x6667beaa99b4db115627001fb069e6f83469b9d1658458db6b179b50d21fb080
    ⟨std.bytes.to_be 32 0x0b07c80c1dc682ae6e10f38bd3996e154695f3edba886c8b988d8a9762bb007a⟩⟩,
  ⟨⟨txid 0xab, 0⟩, coin 0x10b7ea1cbac55c6397728b09cb02ae19c27fb734a1aa85ae6acb462996ddf151
    ⟨std.bytes.to_be 32 0x6add6f25965c6128539f95fb3f8c839a4f2621779ef5b5688633dd4cbb14b454⟩⟩]

/-- The receiver's wallet with the given coins. -/
def funded_wallet (coins : List (Sigma fun _ : OutPoint => wallet.Coin)) : wallet.Wallet :=
  { wallet.regtest_wallet with scan_height := 2, utxos := coins.toAList }

/-- The transaction and its consensus serialization. -/
def SendBack.tx (self : SendBack) : Transaction where
  version := 2
  lock_time := 2
  input := [⟨⟨regtest.txid self.byte, 0⟩, [], 0xfffffffd, [self.signature.toList]⟩]
  output := [⟨⟨9700⟩, sender_script⟩]

def SendBack.raw (self : SendBack) : List UInt8 :=
  [0x02, 0, 0, 0, 0, 1, 1] ++ List.replicate 32 self.byte ++
    [0, 0, 0, 0, 0, 0xfd, 0xff, 0xff, 0xff, 1] ++
    [0xe4, 0x25, 0, 0, 0, 0, 0, 0, 0x16] ++ sender_script ++ [1, 0x40] ++
      self.signature.toList ++ [2, 0, 0, 0]

/-- The sender's address. -/
def sender_address : String := "bcrt1qw508d6qejxtdg4y5r3zarvary0c5xw7kygt080"

def find_send_back (tx : Transaction) : Option SendBack :=
  send_backs.find? fun spend => tx.outpoints = spend.tx.outpoints

/-- The bitcoin library on the fixtures' address and transactions. -/
def btc : bitcoin.Api where
  address_from_str s :=
    if s = sender_address then .ok ⟨sender_script, fun network => network = .Regtest⟩
      else .error "unknown address"
  consensus_decode raw :=
    match send_backs.find? fun spend => raw = spend.raw with
    | some spend => .ok spend.tx
    | none => .error "unknown transaction"
  compute_txid_string tx := ((find_send_back tx).map SendBack.txid).getD ""
  minimal_non_dust script := if script.length = 34 then ⟨330⟩ else ⟨294⟩
  taproot_key_spend_signature_hash tx _ _ :=
    match find_send_back tx with
    | some spend => .ok spend.digest
    | none => .error "unknown transaction"

/-- Draws that leave the order as it is. -/
def rng : wallet.Rng := ⟨.id, .id, .id⟩

end regtest
