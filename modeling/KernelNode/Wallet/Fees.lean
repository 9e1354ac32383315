import Mathlib.Data.List.Sort
import Mathlib.Tactic.Positivity
import Mathlib.Tactic.Ring
import KernelNode.Collections.Float
import KernelNode.Wallet.Bip352
import KernelNode.Wallet.Signing

open bitcoin secp256k1 silentpayments std.collections

namespace bitcoin

/-- The bytes of a count in the consensus encoding. -/
def varint_size (count : Nat) : Nat :=
  if count < 0xfd then 1 else if count ≤ 0xffff then 3 else if count ≤ 0xffffffff then 5 else 9

/-- Outpoint, script and sequence. -/
def TxIn.base_size (self : TxIn) : Nat :=
  36 + (varint_size self.script_sig.length + self.script_sig.length) + 4

def TxIn.witness_size (self : TxIn) : Nat :=
  varint_size self.witness.length +
    (self.witness.map fun item => varint_size item.length + item.length).sum

def TxOut.size (self : TxOut) : Nat :=
  8 + (varint_size self.script_pubkey.length + self.script_pubkey.length)

namespace Transaction

variable (self : Transaction)

/-- The size without witnesses. -/
def base_size : Nat :=
  4 + varint_size self.input.length + (self.input.map TxIn.base_size).sum +
    varint_size self.output.length + (self.output.map TxOut.size).sum + 4

def uses_segwit_serialization : Bool :=
  self.input.any (fun txin => !txin.witness.isEmpty) || self.input.isEmpty

/-- With witnesses come the marker and the flag. -/
def total_size : Nat :=
  self.base_size +
    if self.uses_segwit_serialization then 2 + (self.input.map TxIn.witness_size).sum else 0

def weight : Nat := 3 * self.base_size + self.total_size

def output_value : Nat := (self.output.map fun out => out.value.sat.toNat).sum

end Transaction

example : (regtest.send_backs.map fun spend => spend.tx.total_size) =
    regtest.send_backs.map fun spend => spend.raw.length := by decide +kernel

/-- The fee of a weight at the rate. -/
def FeeRate.fee (self : FeeRate) (weight : Nat) : ℚ := self.sat_per_kwu.toNat / 1000 * weight

/-- A number of satoshis, cut off at the largest amount. -/
def capped (sat : ℚ) : ℚ := min (2 ^ 64 - 1) sat

theorem capped_le_capped {sat other : ℚ} (hle : sat ≤ other) : capped sat ≤ capped other :=
  min_le_min_left _ hle

end bitcoin

namespace bdk_coin_select

def TX_FIXED_FIELD_WEIGHT : Nat := (4 + 4) * 4

/-- Outpoint, sequence and the length of an empty script. -/
def TXIN_BASE_WEIGHT : Nat := (32 + 4 + 4 + 1) * 4

/-- A witness with one signature. -/
def TR_KEYSPEND_SATISFACTION_WEIGHT : Nat := 66

namespace Drain

def NONE : Drain := ⟨false, 0⟩

variable (self : Drain)

def n_outputs : Nat := if self.is_some then 1 else 0

def output_value : Nat := if self.is_some then self.value.toNat else 0

end Drain

/-- The weight of a transaction with so many taproot key spends that funds the
    outputs of the target and the drain. -/
def weight (inputs : Nat) (target : Target) (drain : Drain) : Nat :=
  TX_FIXED_FIELD_WEIGHT +
    (varint_size inputs * 4 + inputs * (TXIN_BASE_WEIGHT + TR_KEYSPEND_SATISFACTION_WEIGHT) +
      if inputs = 0 then 0 else 2) +
    (varint_size (target.outputs.length + drain.n_outputs) * 4 +
      (target.outputs.map fun out => out.1.toNat).sum +
      drain.n_outputs * TR_KEYSPEND_OUTPUT_WEIGHT.toNat)

def selected_value (candidates : List Candidate) (selector : List Nat) : Nat :=
  ((selector.filterMap fun index => candidates[index]?).map fun c => c.value.toNat).sum

/-- A selection of candidates that pays for the outputs of the target, for the
    drain and for the weight of the transaction. -/
structure Meets (implied_fee : FeeRate → Nat → Nat) (candidates : List Candidate)
    (selector : List Nat) (target : Target) (drain : Drain) : Prop where
  nodup : selector.Nodup
  in_range : ∀ index ∈ selector, index < candidates.length
  funded : (target.outputs.map fun out => out.2.toNat).sum + drain.output_value +
    implied_fee target.fee (weight selector.length target drain) ≤
      selected_value candidates selector

/-- A target of some value is not met without coins. -/
theorem Meets.ne_nil {implied_fee : FeeRate → Nat → Nat} {candidates : List Candidate}
    {selector : List Nat} {target : Target} {drain : Drain}
    (hmeets : Meets implied_fee candidates selector target drain)
    (hvalue : 0 < (target.outputs.map fun out => out.2.toNat).sum) : selector ≠ [] := by
  rintro rfl
  have hfunded := hmeets.funded
  have hnothing : selected_value candidates [] = 0 := rfl
  omega

/-- What the library promises: a selection that is returned meets the target, a
    drain is paid from what is left over, and it is worth what the policy asks
    for. -/
structure Api.Funds (csInst : Api) (implied_fee : FeeRate → Nat → Nat) : Prop where
  run_bnb : ∀ {candidates metric rounds selector},
    csInst.run_bnb candidates metric rounds = some selector →
      Meets implied_fee candidates selector metric.target .NONE
  select_until_target_met : ∀ {candidates target selector},
    csInst.select_until_target_met candidates target = .ok selector →
      Meets implied_fee candidates selector target .NONE
  drain : ∀ {candidates selector target} (policy : ChangePolicy),
    Meets implied_fee candidates selector target .NONE →
      Meets implied_fee candidates selector target (csInst.drain candidates selector target policy)
  min_value : ∀ {candidates selector target policy},
    Meets implied_fee candidates selector target .NONE →
      (csInst.drain candidates selector target policy).is_some →
        policy.min_value ≤ (csInst.drain candidates selector target policy).value

/-- A rate's fee for a weight, at most one part in `2 ^ 22` below their product:
    the library multiplies 32-bit floats and rounds the result up. It is capped
    at the largest amount. -/
def Precise (implied_fee : FeeRate → Nat → Nat) (rate : FeeRate) : Prop :=
  ∀ weight : Nat, capped ((1 - 1 / 2 ^ 22) * (rate.spwu / 2 ^ 90 * weight)) ≤
    implied_fee rate weight

end bdk_coin_select

namespace wallet

open std.time

/-- The value of the wallet's coin at an outpoint. -/
def Wallet.value_at (self : Wallet) (outpoint : OutPoint) : Nat :=
  ((self.utxos.lookup outpoint).map fun coin => coin.value.sat.toNat).getD 0

section

variable {secpInst : secp256k1.Api} {spInst : silentpayments.Api} {csInst : bdk_coin_select.Api}
    {btcInst : bitcoin.Api}

theorem sp_output_script_p2tr
    {derived : HashMap SilentPaymentKeyMaterial (List XOnlyPublicKey)}
    {address : SilentPaymentCode} {script : ScriptBuf}
    (hscript : sp_output_script derived address = .ok script) :
    ∃ key, script = p2tr_script key := by
  simp only [sp_output_script] at hscript
  split at hscript
  · rename_i key _
    exact ⟨key, (Except.ok.inj hscript).symm⟩
  · cases hscript

theorem p2tr_size (value : Amount) (key : XOnlyPublicKey) :
    (TxOut.mk value (p2tr_script key)).size = 43 := by
  simp [TxOut.size, p2tr_script, varint_size]

/-- The weight that the selector is told is that of the recipient's output. -/
theorem recipient_size {recipient : Recipient} {script : ScriptBuf}
    {derived : HashMap SilentPaymentKeyMaterial (List XOnlyPublicKey)}
    (hshort : ∀ script, recipient = .Address script → script.length < 0xfd)
    (hscript : recipient.output_script derived = .ok script) (amount : Amount) :
    (TxOut.mk amount script).size * 4 = recipient.weight.toNat := by
  cases recipient with
  | SilentPayment sp =>
    obtain ⟨key, rfl⟩ := sp_output_script_p2tr hscript
    rw [p2tr_size]
    rfl
  | Address address =>
    obtain rfl := Except.ok.inj hscript
    have hlength := hshort address rfl
    simp only [TxOut.size, varint_size, hlength, if_true, Recipient.weight, output_weight,
      UInt64.toNat_ofNat']
    omega

section

variable {recipient : Recipient} {amount : Amount} {change_address : SilentPaymentCode}
    {drain : bdk_coin_select.Drain}
    {derived : HashMap SilentPaymentKeyMaterial (List XOnlyPublicKey)} {output : List TxOut}
    (houtput : transaction_outputs recipient amount change_address (drain_change_value drain)
      derived = .ok output)

include houtput

/-- The outputs have the number, the weight and the value that the selector is
    told. -/
theorem transaction_outputs_sizes
    (hshort : ∀ script, recipient = .Address script → script.length < 0xfd) :
    output.length = 1 + drain.n_outputs ∧
    (output.map TxOut.size).sum * 4 = recipient.weight.toNat + drain.n_outputs * 172 ∧
    (output.map fun out => out.value.sat.toNat).sum = amount.sat.toNat + drain.output_value := by
  obtain ⟨script, hscript, houtput⟩ := transaction_outputs_eq_ok houtput
  have hrecipient := recipient_size hshort hscript amount
  rcases houtput with ⟨hdrain, rfl⟩ | ⟨hdrain, change_script, hchange, rfl⟩
  · simp [bdk_coin_select.Drain.n_outputs, bdk_coin_select.Drain.output_value, hdrain, hrecipient]
  · obtain ⟨key, rfl⟩ := sp_output_script_p2tr hchange
    simp [bdk_coin_select.Drain.n_outputs, bdk_coin_select.Drain.output_value, hdrain, add_mul,
      hrecipient, p2tr_size]

/-- None of the outputs is dust where the amount and the change are not. -/
theorem transaction_outputs_dust {spend_secret : SecretKey}
    (hdust : ∀ key other, btcInst.minimal_non_dust (p2tr_script key) =
      btcInst.minimal_non_dust (p2tr_script other))
    (hamount : (recipient.dust secpInst btcInst spend_secret).sat ≤ amount.sat)
    (hchange : drain.is_some → (p2tr_dust secpInst btcInst spend_secret).sat ≤ drain.value)
    {out : TxOut} (hout : out ∈ output) :
    (btcInst.minimal_non_dust out.script_pubkey).sat ≤ out.value.sat := by
  obtain ⟨script, hscript, houtput⟩ := transaction_outputs_eq_ok houtput
  have hrecipient : (btcInst.minimal_non_dust script).sat ≤ amount.sat := by
    cases recipient with
    | Address address =>
      obtain rfl := Except.ok.inj hscript
      exact hamount
    | SilentPayment sp =>
      obtain ⟨key, rfl⟩ := sp_output_script_p2tr hscript
      rw [hdust key (secpInst.public_key spend_secret).x]
      exact hamount
  rcases houtput with ⟨_, rfl⟩ | ⟨hdrain, change_script, hchange_script, rfl⟩
  · obtain rfl := List.mem_singleton.mp hout
    exact hrecipient
  · rcases List.mem_pair.mp hout with rfl | rfl
    · exact hrecipient
    · obtain ⟨key, rfl⟩ := sp_output_script_p2tr hchange_script
      rw [hdust key (secpInst.public_key spend_secret).x]
      exact hchange hdrain

end

/-- A signed input takes as much as the selector expects. -/
theorem signed_input_size {unsigned tx : Transaction} {selected : List SpendableCoin}
    {spend_secret : SecretKey} {keys : List SecretKey}
    (hkeys : signing_keys spend_secret selected = .ok keys)
    (hinput : unsigned.input = selected.map SpendableCoin.input)
    (hsign : sign_transaction secpInst btcInst unsigned selected keys = .ok tx) (txin : TxIn)
    (htxin : txin ∈ tx.input) :
    txin.base_size = 41 ∧ txin.witness_size = 66 ∧ txin.witness ≠ [] := by
  obtain ⟨i, hi⟩ := List.mem_iff_getElem?.mp htxin
  obtain ⟨_, key, digest, _, _, _, rfl⟩ := sign_transaction_input hkeys hinput hsign hi
  refine ⟨rfl, ?_, by simp⟩
  simp [TxIn.witness_size, varint_size]

theorem sum_map_const {A : Type} {f : A → Nat} {size : Nat} {list : List A}
    (hsize : ∀ a ∈ list, f a = size) : (list.map f).sum = list.length * size := by
  rw [List.sum_eq_card_nsmul _ size (by simpa using hsize), List.length_map, smul_eq_mul]

/-- The weight of a signed transaction, from the number of its inputs and the
    sizes of its outputs. -/
theorem signed_weight {unsigned tx : Transaction} {selected : List SpendableCoin}
    {spend_secret : SecretKey} {keys : List SecretKey}
    (hkeys : signing_keys spend_secret selected = .ok keys)
    (hinput : unsigned.input = selected.map SpendableCoin.input)
    (hsign : sign_transaction secpInst btcInst unsigned selected keys = .ok tx)
    (hselected : selected ≠ []) :
    tx.weight = 32 + (varint_size selected.length * 4 + selected.length * 230 + 2) +
      (varint_size unsigned.output.length * 4 + (unsigned.output.map TxOut.size).sum * 4) := by
  have hsize := signed_input_size hkeys hinput hsign
  have houtput : tx.output = unsigned.output := by
    rw [← sign_transaction_unsigned hinput hsign]
    rfl
  have hlength : tx.input.length = selected.length := by
    have houtpoints := congrArg List.length (sign_transaction_outpoints hsign)
    simpa [Transaction.outpoints, hinput] using houtpoints
  have hsegwit : tx.uses_segwit_serialization = true := by
    cases hinputs : tx.input with
    | nil =>
      rw [hinputs] at hlength
      exact absurd (List.length_eq_zero_iff.mp hlength.symm) hselected
    | cons txin rest =>
      have hwitness := (hsize txin (hinputs ▸ List.mem_cons_self)).2.2
      simp [Transaction.uses_segwit_serialization, hinputs, hwitness]
  have hbase := sum_map_const fun txin htxin => (hsize txin htxin).1
  have hwitness := sum_map_const fun txin htxin => (hsize txin htxin).2.1
  simp only [Transaction.weight, Transaction.total_size, Transaction.base_size, hsegwit, if_true,
    hbase, hwitness, houtput, hlength]
  omega

/-- The selector's weight is that of the signed transaction. -/
theorem built_weight {unsigned tx : Transaction} {selected : List SpendableCoin}
    {spend_secret : SecretKey} {keys : List SecretKey}
    (hkeys : signing_keys spend_secret selected = .ok keys)
    (hinput : unsigned.input = selected.map SpendableCoin.input)
    (hsign : sign_transaction secpInst btcInst unsigned selected keys = .ok tx)
    (hselected : selected ≠ []) {recipient : Recipient} {amount : Amount}
    {change_address : SilentPaymentCode} {drain : bdk_coin_select.Drain}
    {derived : HashMap SilentPaymentKeyMaterial (List XOnlyPublicKey)} {output : List TxOut}
    (houtput : transaction_outputs recipient amount change_address (drain_change_value drain)
      derived = .ok output)
    (hshort : ∀ script, recipient = .Address script → script.length < 0xfd)
    (hshuffled : unsigned.output.Perm output) (fee_rate : FeeRate) :
    tx.weight =
      bdk_coin_select.weight selected.length (recipient.target amount fee_rate) drain := by
  obtain ⟨hcount, hsizes, _⟩ := transaction_outputs_sizes houtput hshort
  rw [signed_weight hkeys hinput hsign hselected, (hshuffled.map TxOut.size).sum_eq,
    hshuffled.length_eq, hcount, hsizes, ← Nat.add_assoc (varint_size (1 + drain.n_outputs) * 4)]
  simp only [bdk_coin_select.weight, Recipient.target, List.length_eq_zero_iff, hselected, if_false]
  rfl

theorem spendable_coins_nodup (self : Wallet) (order : Reorder (Σ _ : OutPoint, Coin)) :
    ((self.spendable_coins order).map SpendableCoin.outpoint).Nodup := by
  have hkeys : (self.utxos.entries.map Sigma.fst).Nodup := self.utxos.nodupKeys
  have horder : ((order.apply self.utxos.entries).map Sigma.fst).Nodup :=
    ((order.perm _).map _).nodup_iff.mpr hkeys
  rw [Wallet.spendable_coins, List.map_map]
  exact horder.sublist (List.filter_sublist.map _)

theorem length_selected {A : Type} {list : List A} {selector : List Nat}
    (hrange : ∀ index ∈ selector, index < list.length) :
    (selector.filterMap fun index => list[index]?).length = selector.length := by
  induction selector with
  | nil => rfl
  | cons index selector ih =>
    obtain ⟨hindex, hrest⟩ := List.forall_mem_cons.mp hrange
    simp [hindex, ih hrest]

theorem nodup_selected {A B : Type} {key : A → B} {list : List A} (hkeys : (list.map key).Nodup)
    {selector : List Nat} (hselector : selector.Nodup) :
    ((selector.filterMap fun index => list[index]?).map key).Nodup := by
  rw [List.map_filterMap]
  refine hselector.filterMap fun i j value hi hj => ?_
  rw [← List.getElem?_map] at hi hj
  exact (List.getElem?_inj (List.getElem?_eq_some_iff.mp hi).1 hkeys).mp (hi.trans hj.symm)

/-- What the library promises, of the coins that the wallet selects. -/
theorem select_coins_meets {implied_fee : bdk_coin_select.FeeRate → Nat → Nat}
    (hfunds : csInst.Funds implied_fee) {coins chosen : List SpendableCoin}
    {target : bdk_coin_select.Target} {change_policy : bdk_coin_select.ChangePolicy}
    {long_term_fee_rate : FeeRate} {max_bnb_rounds : Nat} {drain : bdk_coin_select.Drain}
    (hselect : select_coins csInst coins target change_policy long_term_fee_rate max_bnb_rounds =
      .ok (chosen, drain)) :
    ∃ selector, chosen = (selector.filterMap fun index => coins[index]?) ∧
      bdk_coin_select.Meets implied_fee (coins.map fun c => ⟨c.coin.value.sat⟩) selector target
        drain ∧
      (drain.is_some → change_policy.min_value ≤ drain.value) := by
  simp only [select_coins, std.result.bind_eq_ok_iff] at hselect
  obtain ⟨selector, hselector, hresult⟩ := hselect
  cases hresult
  have hmeets : bdk_coin_select.Meets implied_fee (coins.map fun c => ⟨c.coin.value.sat⟩) selector
      target .NONE := by
    simp only [run_selector] at hselector
    split at hselector
    · rename_i hbnb
      cases hselector
      exact hfunds.run_bnb hbnb
    · split at hselector
      · rename_i hgreedy
        cases hselector
        exact hfunds.select_until_target_met hgreedy
      · cases hselector
  exact ⟨selector, rfl, hfunds.drain _ hmeets, hfunds.min_value hmeets⟩

theorem build_transaction_dust {rng : Rng} {spend_secret : SecretKey} {recipient : Recipient}
    {amount : Amount} {fee_rate long_term_fee_rate : FeeRate} {tip_height : UInt32}
    {change_address : SilentPaymentCode} {coins : List SpendableCoin} {tx : Transaction}
    (hbuild : build_transaction secpInst spInst csInst btcInst rng spend_secret recipient
      amount fee_rate long_term_fee_rate tip_height change_address coins = .ok tx) :
    (recipient.dust secpInst btcInst spend_secret).sat ≤ amount.sat := by
  simp only [build_transaction] at hbuild
  split at hbuild
  · cases hbuild
  · split at hbuild
    · cases hbuild
    · rename_i hdust
      exact UInt64.not_lt.mp hdust

/-- The selected coins are worth what the selector counts. -/
theorem value_selected {self : Wallet} {order : Reorder (Σ _ : OutPoint, Coin)}
    {selector : List Nat} :
    (((selector.filterMap fun index => (self.spendable_coins order)[index]?).map
      SpendableCoin.outpoint).map self.value_at).sum =
      bdk_coin_select.selected_value
        ((self.spendable_coins order).map fun c => ⟨c.coin.value.sat⟩) selector := by
  simp only [bdk_coin_select.selected_value, List.map_filterMap, List.getElem?_map]
  congr 1
  refine List.filterMap_congr fun index _ => ?_
  cases hcoin : (self.spendable_coins order)[index]? with
  | none => rfl
  | some spendable =>
    have hlookup := (mem_spendable_coins.mp (List.mem_of_getElem? hcoin)).1
    simp [Wallet.value_at, hlookup]

end

/-- The wallet's rate is not far below the one that is asked for. -/
theorem cs_feerate_lower (fee_rate : FeeRate) :
    f32_part ^ 2 * (fee_rate.sat_per_kwu.toNat / 1000) ≤ (cs_feerate fee_rate).spwu / 2 ^ 90 := by
  simp only [cs_feerate]
  generalize fee_rate.sat_per_kwu.toNat = rate
  have hplaces := round_f32_one_large rate
  rw [sq, mul_assoc, ← mul_div_assoc]
  refine round_f32_lower (by decide) (by omega) ?_
  calc f32_part * (rate : ℚ) / 1000
    _ ≤ round_f32 rate 1 / 2 ^ 90 / 1000 := by
      gcongr
      exact round_f32_one_lower rate
    _ = round_f32 rate 1 / ((1000 * 2 ^ 90 : Nat) : ℚ) := by
      rw [div_div]
      norm_num

/-- Where the library's fee is that of its rate, it is that of the rate that is
    asked for, up to one part in `2 ^ 21`. -/
theorem asked_fee_le {implied_fee : bdk_coin_select.FeeRate → Nat → Nat} {fee_rate : FeeRate}
    (hprecise : bdk_coin_select.Precise implied_fee (cs_feerate fee_rate)) (weight : Nat) :
    capped ((1 - 1 / 2 ^ 21) * fee_rate.fee weight) ≤
      implied_fee (cs_feerate fee_rate) weight := by
  refine (capped_le_capped ?_).trans (hprecise weight)
  have hparts : (1 - 1 / 2 ^ 21 : ℚ) ≤ (1 - 1 / 2 ^ 22) * f32_part ^ 2 := by norm_num [f32_part]
  have hpart : (0 : ℚ) ≤ 1 - 1 / 2 ^ 22 := by norm_num
  have hfee : 0 ≤ fee_rate.fee weight := by
    rw [FeeRate.fee]
    positivity
  calc (1 - 1 / 2 ^ 21) * fee_rate.fee weight
    _ ≤ (1 - 1 / 2 ^ 22) * f32_part ^ 2 * fee_rate.fee weight := by gcongr
    _ = (1 - 1 / 2 ^ 22) * (f32_part ^ 2 * (fee_rate.sat_per_kwu.toNat / 1000) * weight) := by
      rw [FeeRate.fee, mul_assoc, mul_assoc (f32_part ^ 2)]
    _ ≤ (1 - 1 / 2 ^ 22) * ((cs_feerate fee_rate).spwu / 2 ^ 90 * weight) := by
      gcongr
      exact cs_feerate_lower fee_rate

section

variable (secpInst : secp256k1.Api) (spInst : silentpayments.Api) (csInst : bdk_coin_select.Api)
    (btcInst : bitcoin.Api)

/-- A transaction that the wallet builds spends no coin twice, pays the recipient
    the amount, and none of its outputs is dust. What it spends beyond its outputs
    is the library's fee for its own weight, and so the rate that is asked for,
    up to one part in `2 ^ 21`: the rate and the fee are rounded to 32-bit floats. -/
theorem built_pays_fee (implied_fee : bdk_coin_select.FeeRate → Nat → Nat)
    (hfunds : csInst.Funds implied_fee)
    (hdust : ∀ key other, btcInst.minimal_non_dust (p2tr_script key) =
      btcInst.minimal_non_dust (p2tr_script other))
    {rng : Rng} {self : Wallet} {recipient : Recipient} {amount : Amount}
    {fee_rate long_term_fee_rate : FeeRate} {tx : Transaction}
    (hprecise : bdk_coin_select.Precise implied_fee (cs_feerate fee_rate))
    (hamount : 0 < amount.sat)
    (hshort : ∀ script, recipient = .Address script → script.length < 0xfd)
    (hbuild : self.build_transaction secpInst spInst csInst btcInst rng recipient amount fee_rate
      long_term_fee_rate = .ok tx) :
    tx.outpoints.Nodup ∧ (∃ script, TxOut.mk amount script ∈ tx.output) ∧
    tx.output_value + implied_fee (cs_feerate fee_rate) tx.weight ≤
      (tx.outpoints.map self.value_at).sum ∧
    tx.output_value + capped ((1 - 1 / 2 ^ 21) * fee_rate.fee tx.weight) ≤
      (tx.outpoints.map self.value_at).sum ∧
    ∀ out ∈ tx.output, (btcInst.minimal_non_dust out.script_pubkey).sat ≤ out.value.sat := by
  simp only [Wallet.build_transaction] at hbuild
  split at hbuild
  case h_2 => cases hbuild
  rename_i spend_secret keys _ _
  have hrecipient_dust := build_transaction_dust hbuild
  obtain ⟨chosen, drain, signers, derived, output, hselect, hsigners, _, houtput, hsign⟩ :=
    build_transaction_calls hbuild
  obtain ⟨selector, hchosen, hmeets, hmin⟩ := select_coins_meets hfunds hselect
  have houtputs : tx.output.Perm output := by
    have hsame := congrArg Transaction.output (sign_transaction_unsigned rfl hsign)
    exact hsame ▸ rng.outputs.perm output
  have hspent : tx.outpoints.Perm (chosen.map SpendableCoin.outpoint) := by
    rw [sign_transaction_outpoints hsign, Transaction.outpoints, List.map_map]
    exact (rng.coins.perm chosen).map _
  obtain ⟨_, _, hvalues⟩ := transaction_outputs_sizes houtput hshort
  have hfunded : tx.output_value + implied_fee (cs_feerate fee_rate) tx.weight ≤
      (tx.outpoints.map self.value_at).sum := by
    have hvalue : (tx.outpoints.map self.value_at).sum =
        bdk_coin_select.selected_value
          ((self.spendable_coins rng.utxos).map fun c => ⟨c.coin.value.sat⟩) selector := by
      rw [(hspent.map _).sum_eq, hchosen, value_selected]
    have hlength : (rng.coins.apply chosen).length = selector.length := by
      rw [(rng.coins.perm chosen).length_eq, hchosen]
      exact length_selected (by simpa using hmeets.in_range)
    have hselected_value : amount.sat.toNat + drain.output_value + implied_fee (cs_feerate fee_rate)
        (bdk_coin_select.weight selector.length (recipient.target amount fee_rate) drain) ≤
          (tx.outpoints.map self.value_at).sum := hvalue ▸ hmeets.funded
    have hsome : selector ≠ [] := by
      refine hmeets.ne_nil ?_
      simpa [Recipient.target] using UInt64.lt_iff_toNat_lt.mp hamount
    have hselected : rng.coins.apply chosen ≠ [] := by
      rwa [← List.length_pos_iff_ne_nil, hlength, List.length_pos_iff_ne_nil]
    have hweight := built_weight hsigners rfl hsign hselected houtput hshort
      (rng.outputs.perm output) fee_rate
    rw [hlength] at hweight
    rw [hweight, Transaction.output_value, (houtputs.map _).sum_eq, hvalues]
    exact hselected_value
  refine ⟨?_, ?_, hfunded, ?_, ?_⟩
  · rw [hspent.nodup_iff, hchosen]
    exact nodup_selected (spendable_coins_nodup self rng.utxos) hmeets.nodup
  · obtain ⟨script, _, hcases⟩ := transaction_outputs_eq_ok houtput
    refine ⟨script, houtputs.mem_iff.mpr ?_⟩
    rcases hcases with ⟨_, rfl⟩ | ⟨_, _, _, rfl⟩ <;> exact List.mem_cons_self
  · have hasked := asked_fee_le hprecise tx.weight
    have hcast : (tx.output_value : ℚ) + implied_fee (cs_feerate fee_rate) tx.weight ≤
        (tx.outpoints.map self.value_at).sum := by
      exact_mod_cast hfunded
    exact (add_le_add_right hasked _).trans hcast
  · intro out hout
    exact transaction_outputs_dust houtput hdust hrecipient_dust hmin (houtputs.mem_iff.mp hout)

end

/-- The product of two 32-bit floats, rounded up to whole satoshis. -/
def ceil_fee (rate : bdk_coin_select.FeeRate) (weight : Nat) : Nat :=
  min (2 ^ 64 - 1)
    ((round_f32 (round_f32 weight 1 * rate.spwu) (2 ^ 180) + (2 ^ 90 - 1)) / 2 ^ 90)

theorem cs_feerate_large (fee_rate : FeeRate) :
    (cs_feerate fee_rate).spwu = 0 ∨ 2 ^ 79 ≤ (cs_feerate fee_rate).spwu := by
  simp only [cs_feerate]
  rcases round_f32_one_large fee_rate.sat_per_kwu.toNat with hzero | hlarge
  · rw [hzero]
    exact .inl (by decide)
  · generalize round_f32 fee_rate.sat_per_kwu.toNat 1 = first at hlarge ⊢
    have hround : 2 ^ 24 * (first * 2 ^ 90) ≤
        2 ^ 24 * (1000 * 2 ^ 90 * round_f32 first (1000 * 2 ^ 90)) + first * 2 ^ 90 :=
      le_round_float (by decide) (by omega)
    omega

theorem ceil_fee_precise (fee_rate : FeeRate) :
    bdk_coin_select.Precise ceil_fee (cs_feerate fee_rate) := by
  intro weight
  have hplaces : round_f32 weight 1 * (cs_feerate fee_rate).spwu = 0 ∨ 2 ^ 23 * 2 ^ 180 ≤
      round_f32 weight 1 * (cs_feerate fee_rate).spwu * 2 ^ 90 := by
    rcases round_f32_one_large weight with hzero | hweight
    · rw [hzero, Nat.zero_mul]
      exact .inl rfl
    rcases cs_feerate_large fee_rate with hzero | hrate
    · rw [hzero, Nat.mul_zero]
      exact .inl rfl
    · have hproduct := Nat.mul_le_mul hweight hrate
      omega
  simp only [ceil_fee]
  generalize (cs_feerate fee_rate).spwu = spwu at hplaces ⊢
  have hproduct : f32_part * (f32_part * weight * (spwu / 2 ^ 90)) ≤
      round_f32 (round_f32 weight 1 * spwu) (2 ^ 180) / 2 ^ 90 := by
    refine round_f32_lower (by decide) hplaces ?_
    calc f32_part * weight * ((spwu : ℚ) / 2 ^ 90)
      _ ≤ round_f32 weight 1 / 2 ^ 90 * (spwu / 2 ^ 90) := by
        gcongr
        exact round_f32_one_lower weight
      _ = ((round_f32 weight 1 * spwu : Nat) : ℚ) / ((2 ^ 180 : Nat) : ℚ) := by
        rw [div_mul_div_comm, Nat.cast_mul]
        norm_num
  generalize round_f32 (round_f32 weight 1 * spwu) (2 ^ 180) = product at hproduct ⊢
  have hceil : (product : ℚ) / 2 ^ 90 ≤ ((product + (2 ^ 90 - 1)) / 2 ^ 90 : Nat) := by
    rw [div_le_iff₀ (by positivity)]
    exact_mod_cast (by omega : product ≤ (product + (2 ^ 90 - 1)) / 2 ^ 90 * 2 ^ 90)
  have hpart : (1 - 1 / 2 ^ 22 : ℚ) ≤ f32_part * f32_part := by norm_num [f32_part]
  rw [Nat.cast_min]
  refine min_le_min (by norm_num) ?_
  calc (1 - 1 / 2 ^ 22) * ((spwu : ℚ) / 2 ^ 90 * weight)
    _ ≤ f32_part * f32_part * (spwu / 2 ^ 90 * weight) := by gcongr
    _ = f32_part * (f32_part * weight * (spwu / 2 ^ 90)) := by ring
    _ ≤ ((product + (2 ^ 90 - 1)) / 2 ^ 90 : Nat) := hproduct.trans hceil

/-- What the outputs and a drain of nothing cost. -/
def funding (inputs : Nat) (target : bdk_coin_select.Target) (drain : bdk_coin_select.Drain) :
    Nat :=
  (target.outputs.map fun out => out.2.toNat).sum +
    ceil_fee target.fee (bdk_coin_select.weight inputs target drain)

/-- Whether a selection meets its target without a drain. -/
def is_target_met (candidates : List bdk_coin_select.Candidate) (target : bdk_coin_select.Target)
    (selector : List Nat) : Bool :=
  funding selector.length target .NONE ≤ bdk_coin_select.selected_value candidates selector

/-- The candidates from the most valuable one on. -/
def by_descending_value (candidates : List bdk_coin_select.Candidate) : List Nat :=
  (List.range candidates.length).insertionSort fun i j =>
    bdk_coin_select.selected_value candidates [j] ≤ bdk_coin_select.selected_value candidates [i]

/-- Select one after the other until the target is met. -/
def select_next (candidates : List bdk_coin_select.Candidate) (target : bdk_coin_select.Target) :
    List Nat → List Nat → Option (List Nat)
  | selector, [] => if is_target_met candidates target selector then some selector else none
  | selector, index :: rest =>
    if is_target_met candidates target selector then some selector
    else select_next candidates target (selector ++ [index]) rest

theorem select_next_eq_some {candidates : List bdk_coin_select.Candidate}
    {target : bdk_coin_select.Target} {selector rest found : List Nat}
    (hfound : select_next candidates target selector rest = some found) :
    found <+: selector ++ rest ∧ is_target_met candidates target found := by
  fun_induction select_next candidates target selector rest with
  | case1 selector hmet =>
    cases hfound
    exact ⟨List.prefix_append _ _, hmet⟩
  | case2 => cases hfound
  | case3 selector index rest hmet =>
    cases hfound
    exact ⟨List.prefix_append _ _, hmet⟩
  | case4 selector index rest _ ih => simpa using ih hfound

/-- A selector without branch and bound, that drains what its selection leaves
    over. -/
def greedy_cs : bdk_coin_select.Api where
  run_bnb _ _ _ := none
  select_until_target_met candidates target :=
    match select_next candidates target [] (by_descending_value candidates) with
    | some selector => .ok selector
    | none => .error (.ofNat (funding candidates.length target .NONE -
        bdk_coin_select.selected_value candidates (List.range candidates.length)))
  drain candidates selector target policy :=
    let value := bdk_coin_select.selected_value candidates selector
    let excess := value - funding selector.length target ⟨true, 0⟩
    if policy.min_value.toNat < excess ∧ excess < 2 ^ 64 then ⟨true, .ofNat excess⟩ else .NONE

theorem greedy_cs_funds : greedy_cs.Funds ceil_fee where
  run_bnb hnone := by cases hnone
  select_until_target_met {candidates target selector} hselect := by
    simp only [greedy_cs] at hselect
    split at hselect
    · rename_i hfound
      cases hselect
      obtain ⟨ hprefix, hmet⟩ := select_next_eq_some hfound
      have hperm := List.perm_insertionSort (fun i j =>
        bdk_coin_select.selected_value candidates [j] ≤
          bdk_coin_select.selected_value candidates [i]) (List.range candidates.length)
      have hsublist := hprefix.sublist
      rw [List.nil_append] at hsublist
      refine ⟨(hperm.nodup_iff.mpr List.nodup_range).sublist hsublist, fun index hindex => ?_, ?_⟩
      · exact List.mem_range.mp (hperm.mem_iff.mp (hsublist.subset hindex))
      · have hfunded : funding selector.length target .NONE ≤
            bdk_coin_select.selected_value candidates selector := of_decide_eq_true hmet
        simpa [bdk_coin_select.Drain.output_value, bdk_coin_select.Drain.NONE, funding]
          using hfunded
    · cases hselect
  drain {candidates selector target} policy hmeets := by
    simp only [greedy_cs]
    split
    · rename_i hexcess
      refine ⟨hmeets.nodup, hmeets.in_range, ?_⟩
      have hweight : ∀ value, bdk_coin_select.weight selector.length target ⟨true, value⟩ =
          bdk_coin_select.weight selector.length target ⟨true, 0⟩ := fun _ => rfl
      simp only [bdk_coin_select.Drain.output_value, if_true, UInt64.toNat_ofNat', hweight]
      rw [Nat.mod_eq_of_lt hexcess.2]
      simp only [funding] at hexcess ⊢
      omega
    · exact hmeets
  min_value {candidates selector target policy} _ hsome := by
    simp only [greedy_cs] at hsome ⊢
    split at hsome
    · rename_i hexcess
      rw [if_pos hexcess, UInt64.le_iff_toNat_le, UInt64.toNat_ofNat', Nat.mod_eq_of_lt hexcess.2]
      exact hexcess.1.le
    · cases hsome

/-- The receiver's coins, the second one of ten million satoshis. -/
def rich_wallet : Wallet :=
  regtest.funded_wallet (regtest.coins.take 1 ++
    (regtest.coins.drop 1).map fun entry => ⟨entry.1, { entry.2 with value := ⟨10000000⟩ }⟩)

/-- The larger of two coins pays an address and leaves change. The fee is less than
    the rate that is asked for, though by less than one part in `2 ^ 21`. -/
theorem built_pays_fee_below_rate : ∃ tx,
    rich_wallet.build_transaction regtest.secp regtest.payment_sp greedy_cs sweep_btc sweep_rng
      (.Address regtest.sender_script) ⟨5000000⟩ ⟨230831⟩ ⟨2500⟩ = .ok tx ∧
    (tx.outpoints.map rich_wallet.value_at).sum <
      tx.output_value + FeeRate.fee ⟨230831⟩ tx.weight ∧
    tx.output_value + capped ((1 - 1 / 2 ^ 21) * FeeRate.fee ⟨230831⟩ tx.weight) ≤
      (tx.outpoints.map rich_wallet.value_at).sum := by
  obtain ⟨tx, hbuild, hinputs, hweight, houtputs⟩ : ∃ tx,
      rich_wallet.build_transaction regtest.secp regtest.payment_sp greedy_cs sweep_btc sweep_rng
        (.Address regtest.sender_script) ⟨5000000⟩ ⟨230831⟩ ⟨2500⟩ = .ok tx ∧
      (tx.outpoints.map rich_wallet.value_at).sum = 10000000 ∧ tx.weight = 568 ∧
      tx.output_value = 9868888 :=
    std.result.exists_ok_of_any (by decide +kernel)
  have hshort : ∀ script, Recipient.Address regtest.sender_script = .Address script →
      script.length < 0xfd := by
    rintro _ ⟨⟩
    decide
  have hbelow : (tx.outpoints.map rich_wallet.value_at).sum <
      tx.output_value + FeeRate.fee ⟨230831⟩ tx.weight := by
    have hrate : (230831 : UInt64).toNat = 230831 := rfl
    rw [hinputs, houtputs, hweight, FeeRate.fee, hrate]
    norm_num
  exact ⟨tx, hbuild, hbelow, (built_pays_fee regtest.secp regtest.payment_sp greedy_cs sweep_btc
    ceil_fee greedy_cs_funds (fun _ _ => by simp [sweep_btc, regtest.btc, p2tr_script])
    (ceil_fee_precise _) (by decide) hshort hbuild).2.2.2.1⟩

end wallet
