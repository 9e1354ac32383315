import KernelNode.Node.KeyImport
import KernelNode.Wallet.Bip352
import KernelNode.Wallet.InputHash
import KernelNode.Wallet.Signing

open bitcoin secp256k1 silentpayments std.collections wallet xonly

namespace wallet

/-- The keys of a wallet as an import leaves them: the scan point is that of the
    scan key, and the spend key is the given point. -/
structure SilentPaymentKeys.Valid {G : Type} [AddCommGroup G] (secpInst : secp256k1.Api)
    (curve : Curve CURVE_ORDER G XOnlyPublicKey) (keys : SilentPaymentKeys) (spend : G) : Prop where
  scan_pubkey : keys.receiver.scan_pubkey = secpInst.public_key keys.scan_key
  spend_ne_zero : spend ≠ 0
  spend_pubkey : keys.receiver.spend_pubkey = .of_point curve spend

/-- A transaction of the wallet as the kernel reads it from a block, with the
    undo data of the coins that it spends. -/
structure Mined (tx : bitcoin.Transaction) (coins : List SpendableCoin)
    (kernel_tx : bitcoinkernel.Transaction) (tx_spent : bitcoinkernel.TransactionSpentOutputs) :
    Prop where
  inputs : kernel_tx.inputs =
    tx.input.map fun txin => ⟨txin.previous_output, txin.script_sig, txin.witness⟩
  outputs : kernel_tx.outputs =
    tx.output.map fun out => ⟨out.value.sat.toInt64, out.script_pubkey⟩
  spent : ∀ i txin spendable, tx.input[i]? = some txin → spendable ∈ coins →
    spendable.outpoint = txin.previous_output →
      ∃ out, tx_spent.coin i = some out ∧ out.script_pubkey = spendable.coin.script_pubkey

/-- The coins that a transaction spends as undo data. -/
def mined_spent (payer : Wallet) (tx : bitcoin.Transaction) :
    bitcoinkernel.TransactionSpentOutputs where
  coins := tx.input.map fun txin =>
    match payer.utxos.lookup txin.previous_output with
    | some coin => ⟨coin.value.sat.toInt64, coin.script_pubkey⟩
    | none => ⟨0, []⟩

theorem mined_self (payer : Wallet) (order : Reorder (Σ _ : OutPoint, Coin))
    (tx : bitcoin.Transaction) (txid : Txid) (h : tx.output.length < 2 ^ 32) :
    Mined tx (payer.spendable_coins order) (tx.read_by_kernel txid h) (mined_spent payer tx) where
  inputs := rfl
  outputs := rfl
  spent i txin spendable htxin hmem houtpoint := by
    obtain ⟨hcoin, _, _⟩ := mem_spendable_coins.mp hmem
    refine ⟨⟨spendable.coin.value.sat.toInt64, spendable.coin.script_pubkey⟩, ?_, rfl⟩
    rw [houtpoint] at hcoin
    simp [mined_spent, bitcoinkernel.TransactionSpentOutputs.coin, htxin, hcoin]

/-- An import leaves valid keys, with the even point of the spend secret. -/
theorem Wallet.import_signing_keys_valid {G : Type} [AddCommGroup G] {secpInst : secp256k1.Api}
    {spInst : silentpayments.Api} {curve : Curve CURVE_ORDER G XOnlyPublicKey}
    {input_hash : silentpayments.utils.OutPoint → G → Scalar} {tweak_hash : G → Scalar}
    (hcurve : secpInst.Computes curve) (hbip : spInst.Bip352 curve input_hash tweak_hash)
    {self imported : Wallet} {scan_key spend_secret : SecretKey}
    (himport : self.import_signing_keys secpInst spInst scan_key spend_secret = .ok imported) :
    ∃ keys, imported.keys = some keys ∧
      keys.Valid secpInst curve (curve.even_point spend_secret.scalar.val) := by
  obtain ⟨watching, hwatching, rfl⟩ :=
    (Wallet.import_signing_keys_eq_ok_iff secpInst spInst).mp himport
  obtain ⟨receiver, hreceiver, rfl⟩ :=
    (Wallet.import_keys_eq_ok_iff secpInst spInst).mp hwatching
  have hfields := hbip.receiver_new hreceiver
  have hpos := spend_secret.val_pos
  have hlt := spend_secret.scalar.isLt
  refine ⟨_, rfl, by rw [hfields], curve.even_point_ne_zero hpos hlt, ?_⟩
  simp only [hfields, PublicKey.from_x_only_public_key, PublicKey.of_point,
    curve.even_even_point hpos hlt, curve.x_even_point hpos hlt, hcurve.public_key, if_true]

def Recipient.materials : Recipient → List SilentPaymentKeyMaterial
  | .SilentPayment sp => [sp.into]
  | .Address _ => []

/-- The calls behind the derived output keys, where any are needed. -/
theorem derive_outputs_calls {spInst : silentpayments.Api} {recipient : Recipient}
    {change_address : SilentPaymentCode} {change_value : Option Amount} {keys : List SecretKey}
    {selected : List SpendableCoin}
    {derived : HashMap SilentPaymentKeyMaterial (List XOnlyPublicKey)}
    (hderived : derive_outputs spInst recipient change_address change_value keys selected =
      .ok derived)
    (hneeded : recipient.materials ≠ [] ∨ change_value.isSome) :
    ∃ secret, spInst.calculate_partial_secret (keys.map fun key => (key, true))
        (selected.map fun spendable => .from_outpoint spendable.outpoint) = .ok secret ∧
      spInst.generate_recipient_pubkeys (recipient.materials ++
        if change_value.isSome then [change_address.into] else []) secret = .ok derived := by
  cases hsecret : spInst.calculate_partial_secret (keys.map fun key => (key, true))
      (selected.map fun spendable => .from_outpoint spendable.outpoint) with
  | error e =>
    cases recipient <;> cases change_value <;>
      simp_all [derive_outputs, Recipient.materials]
  | ok secret =>
    refine ⟨secret, rfl, ?_⟩
    cases hgenerate : spInst.generate_recipient_pubkeys (recipient.materials ++
        if change_value.isSome then [change_address.into] else []) secret with
    | error e =>
      cases recipient <;> cases change_value <;>
        simp_all [derive_outputs, Recipient.materials]
    | ok result =>
      cases recipient <;> cases change_value <;>
        simp_all [derive_outputs, Recipient.materials]

section

variable {secpInst : secp256k1.Api} {spInst : silentpayments.Api} {btcInst : bitcoin.Api}
    {G : Type} [AddCommGroup G] {curve : Curve CURVE_ORDER G XOnlyPublicKey}
    {input_hash : silentpayments.utils.OutPoint → G → Scalar} {tweak_hash : G → Scalar}

section

variable (hcurve : secpInst.Computes curve) (hbip : spInst.Bip352 curve input_hash tweak_hash)
    {spend_secret : SecretKey} {coins selected : List SpendableCoin} {keys : List SecretKey}
    {before tx : Transaction}
    (howned : ∀ spendable ∈ coins, spendable.coin.OwnedBy secpInst spend_secret)
    (hselected : ∀ spendable ∈ selected, spendable ∈ coins)
    (hkeys : signing_keys spend_secret selected = .ok keys)
    (hinput : before.input = selected.map SpendableCoin.input)
    (hsign : sign_transaction secpInst btcInst before selected keys = .ok tx)
    {kernel_tx : bitcoinkernel.Transaction} {tx_spent : bitcoinkernel.TransactionSpentOutputs}
    (hmined : Mined tx coins kernel_tx tx_spent)

include hcurve hbip howned hselected hkeys hinput hsign hmined

/-- A mined input spends the coin that was selected at its index, and yields the
    even point of the key that signed. -/
theorem mined_input_key {i : Nat} {input : bitcoinkernel.TxIn}
    (hi : kernel_tx.inputs[i]? = some input) : ∃ spendable key out,
      selected[i]? = some spendable ∧ keys[i]? = some key ∧ tx_spent.coin i = some out ∧
      input.outpoint = spendable.outpoint ∧
      spInst.get_pubkey_from_input input.script_sig input.witness_stack out.script_pubkey =
        .ok (some (.of_point curve (curve.even_point key.scalar.val))) := by
  rw [hmined.inputs, List.getElem?_map, Option.map_eq_some_iff] at hi
  obtain ⟨txin, htxin, rfl⟩ := hi
  obtain ⟨spendable, key, digest, hspendable, hkey, hsum, _, rfl⟩ :=
    sign_transaction_aligned hkeys hinput hsign htxin
  have hmem := hselected spendable (List.mem_of_getElem? hspendable)
  obtain ⟨out, hout, hscript⟩ := hmined.spent i _ spendable htxin hmem rfl
  obtain ⟨owner, howner, hcoin⟩ := howned spendable hmem
  obtain rfl := Option.some.inj (hsum.symm.trans howner)
  refine ⟨spendable, key, out, hspendable, hkey, hout, rfl, ?_⟩
  -- the script's key is that of the even point
  have hx : (secpInst.public_key key).x = curve.x (curve.even_point key.scalar.val) := by
    rw [curve.x_even_point key.val_pos key.scalar.isLt, hcurve.public_key]
    rfl
  rw [hscript, hcoin, hx]
  exact hbip.get_pubkey_from_input _ (curve.even_point_ne_zero key.val_pos key.scalar.isLt)
    (curve.even_even_point key.val_pos key.scalar.isLt)

/-- The inputs as they are scanned, index by index. -/
theorem mined_input_data : ∃ inputs, input_data kernel_tx tx_spent = some inputs ∧
    inputs.length = selected.length ∧
    ∀ (i : Nat) data, inputs[i]? = some data → ∃ spendable key, selected[i]? = some spendable ∧
      keys[i]? = some key ∧ data.outpoint = .from_outpoint spendable.outpoint ∧
      data.pubkey spInst = some (.of_point curve (curve.even_point key.scalar.val)) := by
  have hkey := @mined_input_key _ _ _ _ _ _ _ _ hcurve hbip _ _ _ _ _ _ howned hselected hkeys
    hinput hsign _ _ hmined
  obtain ⟨inputs, hinputs⟩ : ∃ inputs, input_data kernel_tx tx_spent = some inputs := by
    apply std.option.exists_mapM_eq_some
    rintro ⟨input, i⟩ hi
    obtain ⟨_, _, out, _, _, hout, _⟩ := hkey (List.mem_zipIdx_iff_getElem?.mp hi)
    dsimp only at hout
    simp only [hout]
    exact ⟨_, rfl⟩
  refine ⟨inputs, hinputs, ?_, ?_⟩
  · have houtpoints := congrArg List.length (sign_transaction_outpoints hsign)
    simp only [Transaction.outpoints, List.length_map, hinput] at houtpoints
    have hlength := (std.option.forall₂_of_mapM hinputs).length_eq
    rw [List.length_zipIdx, hmined.inputs, List.length_map, houtpoints] at hlength
    exact hlength.symm
  · intro i data hdata
    obtain ⟨⟨input, index⟩, hindexed, hread⟩ := std.option.getElem?_of_mapM_eq_some hinputs hdata
    obtain ⟨hi, rfl⟩ : kernel_tx.inputs[i]? = some input ∧ i = index := by
      simpa [List.getElem?_zipIdx, Option.map_eq_some_iff] using hindexed
    obtain ⟨spendable, key, out, hspendable, hkey, hout, houtpoint, hpubkey⟩ := hkey hi
    simp only [hout, Option.bind_eq_bind, Option.bind_some, Option.pure_def,
      Option.some.injEq] at hread
    subst hread
    exact ⟨spendable, key, hspendable, hkey, by rw [houtpoint], by simp [InputData.pubkey, hpubkey]⟩

/-- The input loop collects the even points of the keys that signed and the
    outpoints of the coins that were selected, as the sender did. -/
theorem collect_inputs_mined : ∃ inputs, input_data kernel_tx tx_spent = some inputs ∧
    collect_inputs spInst inputs =
      ((keys.map fun key => curve.even_point key.scalar.val).map (.of_point curve),
        selected.map fun spendable => .from_outpoint spendable.outpoint) := by
  obtain ⟨inputs, hinputs, hlength, hat⟩ :=
    mined_input_data hcurve hbip howned hselected hkeys hinput hsign hmined
  have hkeys_length : keys.length = selected.length :=
    (std.result.mapM_eq_ok_iff.mp hkeys).length_eq.symm
  have hpubkeys : inputs.map (InputData.pubkey spInst) = keys.map fun key =>
      some (.of_point curve (curve.even_point key.scalar.val)) := by
    refine std.option.map_eq_map_of_getElem? (hlength.trans hkeys_length.symm) ?_
    intro i data hdata
    obtain ⟨_, key, _, hkey, _, hpubkey⟩ := hat i data hdata
    exact ⟨key, hkey, hpubkey⟩
  have houtpoints : inputs.map InputData.outpoint =
      selected.map fun spendable => .from_outpoint spendable.outpoint := by
    refine std.option.map_eq_map_of_getElem? hlength ?_
    intro i data hdata
    obtain ⟨spendable, _, hspendable, _, houtpoint, _⟩ := hat i data hdata
    exact ⟨spendable, hspendable, houtpoint⟩
  have heligible : inputs.filter (fun data => data.Eligible spInst) = inputs := by
    refine List.filter_eq_self.mpr fun data hdata => ?_
    obtain ⟨i, hi⟩ := List.mem_iff_getElem?.mp hdata
    obtain ⟨_, _, _, _, _, hpubkey⟩ := hat i data hi
    simp [InputData.Eligible, hpubkey]
  refine ⟨inputs, hinputs, ?_⟩
  rw [collect_inputs_eq, heligible, houtpoints]
  have hfilter : inputs.filterMap (InputData.pubkey spInst) =
      (inputs.map (InputData.pubkey spInst)).filterMap id := by
    rw [List.filterMap_map]
    rfl
  rw [hfilter, hpubkeys]
  simp [List.filterMap_map, Function.comp_def]

end

/-- The secret that the inputs of a transaction share with a scan key, as a receiver
    computes it. -/
def shared_secret (spInst : silentpayments.Api) (kernel_tx : bitcoinkernel.Transaction)
    (tx_spent : bitcoinkernel.TransactionSpentOutputs) (scan_key : SecretKey) :
    Option PublicKey := do
  let inputs ← input_data kernel_tx tx_spent
  let (input_pub_keys, outpoints) := collect_inputs spInst inputs
  let tweak_data ← (spInst.calculate_tweak_data input_pub_keys outpoints).toOption
  return spInst.calculate_ecdh_shared_secret tweak_data scan_key

/-- The receiver's scan on inputs that the sender collected in the same way: it
    looks for the first output of the secret that both share. -/
theorem receiver_scan_first (hbip : spInst.Bip352 curve input_hash tweak_hash)
    {wallet_keys : SilentPaymentKeys} {spend : G} (hvalid : wallet_keys.Valid secpInst curve spend)
    {inputs : List InputData} (outputs : List (Nat × XOnlyPublicKey)) {keys : List SecretKey}
    {outpoints : List silentpayments.utils.OutPoint} {secret : SecretKey} {shared : G}
    (hcollect : collect_inputs spInst inputs =
      ((keys.map fun key => curve.even_point key.scalar.val).map (.of_point curve), outpoints))
    (hsender : spInst.calculate_partial_secret (keys.map fun key => (key, true)) outpoints =
      .ok secret)
    (hshared : shared = secret.scalar.val • wallet_keys.scan_key.scalar.val • curve.base)
    (hfinite : shared ≠ 0) (hfirst : first_point curve tweak_hash spend shared ≠ 0) :
    ∃ found, receiver_scan spInst wallet_keys.receiver wallet_keys.scan_key inputs outputs =
        some found ∧
      (curve.x (first_point curve tweak_hash spend shared) ∈ outputs.map Prod.snd →
        (found.tweak none (curve.x (first_point curve tweak_hash spend shared))).isSome) ∧
      (curve.x (first_point curve tweak_hash spend shared) ∉ outputs.map Prod.snd →
        ∀ labelled,
        labelled = spend + wallet_keys.receiver.change_label.inner.val • curve.base →
        first_point curve tweak_hash labelled shared ≠ 0 →
        curve.x (first_point curve tweak_hash labelled shared) ∈ outputs.map Prod.snd →
          (found.tweak (some wallet_keys.receiver.change_label)
            (curve.x (first_point curve tweak_hash labelled shared))).isSome) := by
  subst hshared
  obtain ⟨tweak_data, htweak, hecdh⟩ := hbip.shared_secret hsender hfinite
  obtain ⟨found, hscan, hfound⟩ := hbip.scan_transaction hvalid.spend_ne_zero hvalid.spend_pubkey
    hfinite hfirst
  refine ⟨found, ?_, hfound⟩
  -- without keys the partial secret would have no point
  have hsome : keys ≠ [] := by
    rintro rfl
    obtain ⟨_, _, hsecret⟩ := hbip.calculate_partial_secret hsender
    simp only [input_point, List.map_nil, List.sum_nil, smul_zero] at hsecret
    exact secret.nsmul_base_ne_zero curve hsecret
  have hkeys : ((keys.map fun key => curve.even_point key.scalar.val).map
      (PublicKey.of_point curve)).isEmpty = false := by
    simpa [List.isEmpty_eq_false_iff] using hsome
  simp only [receiver_scan, find_keys, hcollect, hkeys, Bool.false_eq_true, if_false, htweak,
    hecdh, hscan, Except.toOption]

end

section

variable {secpInst : secp256k1.Api} {spInst : silentpayments.Api}

/-- Outputs with different scripts have different keys. -/
theorem carried_once_of_nodup {kernel_tx : bitcoinkernel.Transaction}
    (hnodup : (kernel_tx.outputs.map bitcoinkernel.TxOut.script_pubkey).Nodup)
    (found : FoundKeys) : found.CarriedOnce (taproot_outputs secpInst kernel_tx) := by
  intro index other pk _ _ _ hindex hother
  obtain ⟨out, hout, hparse⟩ := mem_taproot_outputs.mp hindex
  obtain ⟨other_out, hother_out, hother_parse⟩ := mem_taproot_outputs.mp hother
  have hscript : (kernel_tx.outputs.map bitcoinkernel.TxOut.script_pubkey)[index]? =
      (kernel_tx.outputs.map bitcoinkernel.TxOut.script_pubkey)[other]? := by
    rw [List.getElem?_map, List.getElem?_map, hout, hother_out, Option.map_some, Option.map_some,
      parse_p2tr_eq_some hparse, parse_p2tr_eq_some hother_parse]
  have hlt := (List.getElem?_eq_some_iff.mp hout).1
  exact (List.getElem?_inj (by simpa using hlt) hnodup).mp hscript

/-- The wallet has a coin for an output, of the output's value and script, and the
    script's key is the spend key plus the coin's tweak. -/
def Wallet.Records (secpInst : secp256k1.Api) (self : Wallet) (keys : SilentPaymentKeys)
    (txid : Txid) (index : Nat) (out : TxOut) : Prop :=
  ∃ coin, self.utxos.lookup ⟨txid, UInt32.ofNat index⟩ = some coin ∧ coin.value = out.value ∧
    coin.script_pubkey = out.script_pubkey ∧
    ∃ point, secpInst.add_exp_tweak keys.receiver.spend_pubkey coin.tweak = some point ∧
      coin.script_pubkey = p2tr_script point.x

/-- What a scan reports for an output of one of the block's transactions. -/
theorem scan_block_inner_coin (hsp : spInst.Lawful secpInst) {receiver : Receiver}
    {b_scan : SecretKey} {kernel_block : bitcoinkernel.Block}
    {spent_outputs : bitcoinkernel.BlockSpentOutputs} {block_height : UInt32}
    {reported : List (OutPoint × Coin)}
    (hreported : scan_block_inner secpInst spInst receiver b_scan kernel_block spent_outputs
      block_height = some reported)
    (htxids : kernel_block.txids.Nodup) {kernel_tx : bitcoinkernel.Transaction}
    (htx : kernel_tx ∈ kernel_block.transactions) {index : Nat} {out : bitcoinkernel.TxOut}
    (hout : kernel_tx.outputs[index]? = some out) {coin : Coin}
    (hmem : (⟨kernel_tx.txid, UInt32.ofNat index⟩, coin) ∈ reported) :
    coin.value = ⟨out.value.toUInt64⟩ ∧ coin.script_pubkey = out.script_pubkey ∧
      ∃ point, secpInst.add_exp_tweak receiver.spend_pubkey coin.tweak = some point ∧
        coin.script_pubkey = p2tr_script point.x := by
  obtain ⟨_, _, _, pk, hparse, _, _, _, _, _, hscan, hlabel, hkey⟩ :=
    scan_block_inner_spec hreported hmem
  obtain ⟨point, hpoint, rfl⟩ := hsp.scan_transaction_key hscan hlabel hkey
  obtain ⟨other_tx, hother_tx, _, other, _, _, _, hcoin⟩ := mem_scan_block_inner hreported hmem
  obtain ⟨other_out, hother, houtpoint, rfl⟩ := found_coin_eq_some_iff.mp hcoin
  obtain ⟨htxid, hvout⟩ := OutPoint.mk.inj houtpoint
  obtain rfl := List.inj_on_of_nodup_map htxids htx hother_tx htxid
  -- the index of an output fits into its 32 bits
  have hsize : ∀ position output, kernel_tx.outputs[position]? = some output →
      position < UInt32.size := fun position output houtput =>
    (List.getElem?_eq_some_iff.mp houtput).1.trans kernel_tx.outputs_indexed
  have hindex := congrArg UInt32.toNat hvout
  rw [UInt32.toNat_ofNat_of_lt' (hsize _ _ hout), UInt32.toNat_ofNat_of_lt' (hsize _ _ hother)]
    at hindex
  obtain rfl : out = other_out := by
    rw [hindex, hother] at hout
    exact (Option.some.inj hout).symm
  exact ⟨rfl, rfl, point, hpoint, parse_p2tr_eq_some hparse⟩

/-- A scan records every output whose key the receiver's scan finds, where the
    transactions of the block and the scripts of the transaction are distinct. -/
theorem Wallet.scan_block_records (hsp : spInst.Lawful secpInst) {self after : Wallet}
    {keys : SilentPaymentKeys} (hkeys : self.keys = some keys)
    {kernel_block : bitcoinkernel.Block} {spent_outputs : bitcoinkernel.BlockSpentOutputs}
    {block_height : UInt32} {count : Nat}
    (hscan : self.scan_block secpInst spInst kernel_block spent_outputs block_height =
      some (after, count))
    (htxids : kernel_block.txids.Nodup) {kernel_tx : bitcoinkernel.Transaction}
    {tx_spent : bitcoinkernel.TransactionSpentOutputs}
    (htx : (kernel_tx, tx_spent) ∈ (kernel_block.transactions.drop 1).zip
      spent_outputs.transactions)
    {tx : Transaction} {coins : List SpendableCoin} (hmined : Mined tx coins kernel_tx tx_spent)
    (hdistinct : (tx.output.map TxOut.script_pubkey).Nodup)
    {inputs : List InputData} (hinputs : input_data kernel_tx tx_spent = some inputs)
    {found : FoundKeys}
    (hfound : receiver_scan spInst keys.receiver keys.scan_key inputs
      (taproot_outputs secpInst kernel_tx) = some found)
    {index : Nat} {out : TxOut} (hout : tx.output[index]? = some out) {pk : XOnlyPublicKey}
    (hpk : (index, pk) ∈ taproot_outputs secpInst kernel_tx) {label : Option Label}
    (htweak : (found.tweak label pk).isSome) :
    after.Records secpInst keys kernel_tx.txid index out := by
  obtain ⟨tweak, htweak⟩ := Option.isSome_iff_exists.mp htweak
  obtain ⟨reported, hreported, hafter⟩ :=
    (Wallet.scan_block_eq_some_iff secpInst spInst hkeys).mp hscan
  cases hafter
  have hkernel_out : kernel_tx.outputs[index]? =
      some ⟨out.value.sat.toInt64, out.script_pubkey⟩ := by
    rw [hmined.outputs, List.getElem?_map, hout]
    rfl
  have hmem : owned_coin kernel_tx block_height index ⟨out.value.sat.toInt64, out.script_pubkey⟩
      tweak label ∈ reported := by
    have hnodup : (kernel_tx.outputs.map bitcoinkernel.TxOut.script_pubkey).Nodup := by
      rw [hmined.outputs, List.map_map]
      exact hdistinct
    simp only [scan_block_inner, Option.bind_eq_bind, Option.bind_eq_some_iff, Option.pure_def,
      Option.some.injEq] at hreported
    obtain ⟨parts, hparts, rfl⟩ := hreported
    obtain ⟨part, hpart, htx_part⟩ := std.option.exists_mem_of_mapM hparts htx
    have hcoins := (scan_block_tx_complete_iff htx_part hinputs hfound).mpr
      (carried_once_of_nodup hnodup found)
    exact List.mem_flatten.mpr ⟨part, hpart, hcoins index pk _ label tweak hpk hkernel_out htweak⟩
  obtain ⟨coin, hlast⟩ := HashMap.exists_last_value hmem
  have htransaction : kernel_tx ∈ kernel_block.transactions :=
    List.mem_of_mem_drop (List.of_mem_zip htx).1
  obtain ⟨hvalue, hscript, howned⟩ := scan_block_inner_coin hsp hreported htxids htransaction
    hkernel_out (HashMap.last_value_mem hlast)
  refine ⟨coin.spend_last (last_spender kernel_block.transactions
    ⟨kernel_tx.txid, UInt32.ofNat index⟩) block_height, ?_, ?_⟩
  · rw [lookup_scanned, hlast]
    rfl
  · have hamount : coin.value = out.value := by simpa using hvalue
    cases last_spender kernel_block.transactions ⟨kernel_tx.txid, UInt32.ofNat index⟩ <;>
      exact ⟨hamount, hscript, howned⟩

theorem mined_taproot_output {tx : Transaction} {coins : List SpendableCoin}
    {kernel_tx : bitcoinkernel.Transaction} {tx_spent : bitcoinkernel.TransactionSpentOutputs}
    (hmined : Mined tx coins kernel_tx tx_spent) {index : Nat} {value : Amount}
    {pk : XOnlyPublicKey} (hout : tx.output[index]? = some ⟨value, p2tr_script pk⟩)
    (hpoint : secpInst.is_x_coordinate pk.bytes) :
    (index, pk) ∈ taproot_outputs secpInst kernel_tx := by
  refine mem_taproot_outputs.mpr ⟨⟨value.sat.toInt64, p2tr_script pk⟩, ?_,
    parse_p2tr_p2tr_script hpoint⟩
  rw [hmined.outputs, List.getElem?_map, hout]
  rfl

theorem sp_output_script_eq_ok {derived : HashMap SilentPaymentKeyMaterial (List XOnlyPublicKey)}
    {address : SilentPaymentCode} {pk : XOnlyPublicKey} {rest : List XOnlyPublicKey}
    (hlookup : derived.lookup address.into = some (pk :: rest)) :
    sp_output_script derived address = .ok (p2tr_script pk) := by
  simp [sp_output_script, hlookup]

end

/-- Where the scripts are distinct, a script has one index. -/
theorem output_index_unique {output : List TxOut}
    (hdistinct : (output.map TxOut.script_pubkey).Nodup) {index other : Nat}
    {out other_out : TxOut} (hout : output[index]? = some out)
    (hother : output[other]? = some other_out)
    (hscript : out.script_pubkey = other_out.script_pubkey) : index = other := by
  have hlt := (List.getElem?_eq_some_iff.mp hout).1
  refine (List.getElem?_inj (by simpa using hlt) hdistinct).mp ?_
  rw [List.getElem?_map, List.getElem?_map, hout, hother, Option.map_some, Option.map_some, hscript]

/-- Of a payment and its change, where one is recorded it is the change or it is
    the payment. -/
theorem change_or_payment {output : List TxOut} {payment change : TxOut}
    (hperm : output.Perm [payment, change]) (hdistinct : (output.map TxOut.script_pubkey).Nodup)
    {recorded : Nat → TxOut → Prop} {index : Nat} {out : TxOut} (hout : output[index]? = some out)
    (hrecorded : recorded index out) {paid : Nat} (hpaid : output[paid]? = some payment) :
    (∀ other other_out, output[other]? = some other_out → other ≠ paid →
      recorded other other_out) ∨ recorded paid payment := by
  have hrest : ∀ other other_out, output[other]? = some other_out → other ≠ paid →
      other_out = change := by
    intro other other_out hother hne
    rcases List.mem_cons.mp (hperm.mem_iff.mp (List.mem_of_getElem? hother)) with rfl | hmem
    · exact absurd (output_index_unique hdistinct hother hpaid rfl) hne
    · exact List.mem_singleton.mp hmem
  by_cases hindex : index = paid
  · subst hindex
    obtain rfl := Option.some.inj (hout.symm.trans hpaid)
    exact .inr hrecorded
  · left
    intro other other_out hother hne
    obtain rfl := hrest other other_out hother hne
    obtain rfl := hrest index out hout hindex
    obtain rfl := output_index_unique hdistinct hother hout rfl
    exact hrecorded

/-- The sender's side of a mined transaction: its outputs and, where silent
    payment outputs are among them, the partial secret that they are derived from
    and that belongs to the inputs as a receiver collects them. -/
theorem built_outputs {secpInst : secp256k1.Api} {spInst : silentpayments.Api}
    {csInst : bdk_coin_select.Api} {btcInst : bitcoin.Api} {G : Type} [AddCommGroup G]
    {curve : Curve CURVE_ORDER G XOnlyPublicKey}
    {input_hash : silentpayments.utils.OutPoint → G → Scalar} {tweak_hash : G → Scalar}
    (hcurve : secpInst.Computes curve) (hbip : spInst.Bip352 curve input_hash tweak_hash)
    {rng : Rng} {spend_secret : SecretKey} {recipient : Recipient} {amount : Amount}
    {fee_rate long_term_fee_rate : FeeRate} {tip_height : UInt32}
    {change_address : SilentPaymentCode} {coins : List SpendableCoin} {tx : Transaction}
    (howned : ∀ spendable ∈ coins, spendable.coin.OwnedBy secpInst spend_secret)
    (hbuild : build_transaction secpInst spInst csInst btcInst rng spend_secret recipient amount
      fee_rate long_term_fee_rate tip_height change_address coins = .ok tx)
    {kernel_tx : bitcoinkernel.Transaction} {tx_spent : bitcoinkernel.TransactionSpentOutputs}
    (hmined : Mined tx coins kernel_tx tx_spent) :
    ∃ drain derived output, tx.output.Perm output ∧
      transaction_outputs recipient amount change_address (drain_change_value drain) derived =
        .ok output ∧
      (recipient.materials ≠ [] ∨ drain.is_some → ∃ (keys : List SecretKey)
          (outpoints : List silentpayments.utils.OutPoint) (inputs : List InputData)
          (secret : SecretKey),
        input_data kernel_tx tx_spent = some inputs ∧
        collect_inputs spInst inputs =
          ((keys.map fun key => curve.even_point key.scalar.val).map (.of_point curve),
            outpoints) ∧
        spInst.calculate_partial_secret (keys.map fun key => (key, true)) outpoints =
          .ok secret ∧
        spInst.generate_recipient_pubkeys (recipient.materials ++
          if drain.is_some then [change_address.into] else []) secret = .ok derived) := by
  obtain ⟨chosen, drain, keys, derived, output, hselect, hkeys, hderived, houtput, hsign⟩ :=
    build_transaction_calls hbuild
  have hselected : ∀ spendable ∈ rng.coins.apply chosen, spendable ∈ coins := fun _ hmem =>
    select_coins_mem hselect ((rng.coins.perm chosen).mem_iff.mp hmem)
  have houtputs : tx.output = rng.outputs.apply output :=
    congrArg Transaction.output (sign_transaction_unsigned rfl hsign)
  refine ⟨drain, derived, output, houtputs ▸ rng.outputs.perm output, houtput, ?_⟩
  intro hneeded
  obtain ⟨inputs, hinputs, hcollect⟩ :=
    collect_inputs_mined hcurve hbip howned hselected hkeys rfl hsign hmined
  have hchange : (drain_change_value drain).isSome = drain.is_some := by
    cases hdrain : drain.is_some <;> simp [drain_change_value, hdrain]
  obtain ⟨secret, hsender, hgenerate⟩ := derive_outputs_calls hderived (by rwa [hchange])
  rw [hchange] at hgenerate
  exact ⟨keys, _, inputs, secret, hinputs, hcollect, hsender, hgenerate⟩

end wallet

namespace node

section

variable (secpInst : secp256k1.Api) (spInst : silentpayments.Api) (csInst : bdk_coin_select.Api)
    (btcInst : bitcoin.Api) {G : Type} [AddCommGroup G]
    {curve : Curve CURVE_ORDER G XOnlyPublicKey}
    {input_hash : silentpayments.utils.OutPoint → G → Scalar} {tweak_hash : G → Scalar}

/-- A silent payment arrives: whatever coins a wallet selects and however it
    shuffles, when its transaction to another wallet's code is mined, the other
    wallet's scan of the block has a coin of the amount, under a key it can
    derive. -/
theorem payment_received (hcurve : secpInst.Computes curve)
    (hpoints : ∀ {point : G}, point ≠ 0 → secpInst.is_x_coordinate (curve.x point).bytes)
    (hsp : spInst.Lawful secpInst) (hbip : spInst.Bip352 curve input_hash tweak_hash)
    {payer payee after : Wallet} {secret : SecretKey} (hsecret : payer.spend_secret = some secret)
    (howned : ∀ outpoint coin, payer.utxos.lookup outpoint = some coin →
      coin.OwnedBy secpInst secret)
    {keys : SilentPaymentKeys} (hkeys : payee.keys = some keys) {spend : G}
    (hvalid : keys.Valid secpInst curve spend) {rng : Rng} {amount : Amount}
    {fee_rate long_term_fee_rate : FeeRate} {tx : Transaction}
    (hbuild : payer.build_transaction secpInst spInst csInst btcInst rng
      (.SilentPayment (spInst.receiving_code keys.receiver)) amount fee_rate long_term_fee_rate =
        .ok tx)
    (hdistinct : (tx.output.map TxOut.script_pubkey).Nodup)
    {kernel_block : bitcoinkernel.Block} {spent_outputs : bitcoinkernel.BlockSpentOutputs}
    {block_height : UInt32} {count : Nat} (htxids : kernel_block.txids.Nodup)
    {kernel_tx : bitcoinkernel.Transaction} {tx_spent : bitcoinkernel.TransactionSpentOutputs}
    (htx : (kernel_tx, tx_spent) ∈ (kernel_block.transactions.drop 1).zip
      spent_outputs.transactions)
    (hmined : Mined tx (payer.spendable_coins rng.utxos) kernel_tx tx_spent)
    (hscan : payee.scan_block secpInst spInst kernel_block spent_outputs block_height =
      some (after, count)) :
    ∃ (index : Nat) (script_pubkey : ScriptBuf), tx.output[index]? = some ⟨amount, script_pubkey⟩ ∧
      after.Records secpInst keys kernel_tx.txid index ⟨amount, script_pubkey⟩ := by
  simp only [Wallet.build_transaction, hsecret] at hbuild
  split at hbuild
  · rename_i secret' payer_keys hsecret' _
    cases hsecret'
    have hcoins : ∀ spendable ∈ payer.spendable_coins rng.utxos,
        spendable.coin.OwnedBy secpInst secret :=
      fun spendable hmem => howned _ _ (mem_spendable_coins.mp hmem).1
    obtain ⟨drain, derived, output, hperm, houtput, hneeded⟩ :=
      built_outputs hcurve hbip hcoins hbuild hmined
    obtain ⟨signers, outpoints, inputs, partial_secret, hinputs, hcollect, hsender, hgenerate⟩ :=
      hneeded (.inl (List.cons_ne_nil _ _))
    have hcode := hbip.receiving_code keys.receiver
    have hscan_point : (spInst.receiving_code keys.receiver).into.scan_pubkey =
        .of_point curve (keys.scan_key.scalar.val • curve.base) := by
      rw [hcode, hvalid.scan_pubkey, hcurve.public_key]
    have hspend_point : (spInst.receiving_code keys.receiver).into.m_pubkey =
        .of_point curve spend := by
      rw [hcode, hvalid.spend_pubkey]
    -- the payee's code is the first of its scan key
    obtain ⟨hfinite, hfirst, rest, hlookup⟩ := hbip.generate_recipient_pubkeys
      [] hgenerate (fun _ hmem => absurd hmem List.not_mem_nil)
      (keys.scan_key.nsmul_base_ne_zero curve) hscan_point hvalid.spend_ne_zero hspend_point
    obtain ⟨script_pubkey, hscript, houtput⟩ := transaction_outputs_eq_ok houtput
    obtain rfl := Except.ok.inj ((sp_output_script_eq_ok hlookup).symm.trans hscript)
    have hmem : ⟨amount, _⟩ ∈ tx.output := hperm.mem_iff.mpr (by
      rcases houtput with ⟨_, rfl⟩ | ⟨_, _, _, rfl⟩ <;> exact List.mem_cons_self)
    obtain ⟨index, hindex⟩ := List.mem_iff_getElem?.mp hmem
    have htaproot := mined_taproot_output hmined hindex (hpoints hfirst)
    obtain ⟨found, hfound, hplain, _⟩ := receiver_scan_first hbip hvalid
      (taproot_outputs secpInst kernel_tx) hcollect hsender rfl hfinite hfirst
    have htweak := hplain (List.mem_map_of_mem htaproot)
    exact ⟨index, _, hindex, Wallet.scan_block_records hsp hkeys hscan htxids htx hmined hdistinct
      hinputs hfound hindex htaproot htweak⟩
  · cases hbuild

/-- A coin selection that leaves change. -/
def payment_cs : bdk_coin_select.Api :=
  { sweep_cs with drain _ _ _ _ := ⟨true, 5000⟩ }

def regtest_payer : Wallet := regtest.funded_wallet regtest.coins

/-- Keys of another wallet. -/
def payee_scan_key : SecretKey := regtest.secret 4 (by decide)
def payee_spend_secret : SecretKey := regtest.secret 5 (by decide)

def payee_keys : SilentPaymentKeys where
  receiver :=
    { regtest.receiver with
      scan_pubkey := regtest.public_key payee_scan_key
      spend_pubkey := regtest.public_key payee_spend_secret
      change_label := regtest.payment_sp.label_new payee_scan_key 0 }
  scan_key := payee_scan_key

def regtest_payee : Wallet :=
  { Wallet.new .Regtest with
    keys := some payee_keys
    spend_key := some (regtest.public_key payee_spend_secret)
    spend_secret := some payee_spend_secret }

/-- Both coins of the payer, the second first, pay the other wallet and leave
    change. The keys are those of BIP-352 for the two codes. -/
def regtest_payment : Transaction where
  version := 2
  lock_time := 2
  input := [⟨⟨regtest.txid 0xab, 0⟩, [], 0xfffffffd, [List.replicate 64 0]⟩,
    ⟨⟨regtest.txid 0xaa, 0⟩, [], 0xfffffffd, [List.replicate 64 0]⟩]
  output := [
    ⟨⟨9000⟩, p2tr_script (regtest.x_only
      0xee8b2dabc908cd1ef820682c13c7d009c0d253fdc52af62d2a4487f479e07f94)⟩,
    ⟨⟨5000⟩, p2tr_script (regtest.x_only
      0x969fafb15e127108c9ec2d6d33e4bea4306e1b88b3e1a146c862fa64d3e69343)⟩]

theorem regtest_payment_built :
    regtest_payer.build_transaction regtest.secp regtest.payment_sp payment_cs sweep_btc sweep_rng
      (.SilentPayment (regtest.payment_sp.receiving_code payee_keys.receiver)) ⟨9000⟩ ⟨250⟩ ⟨2500⟩ =
        .ok regtest_payment :=
  std.result.eq_ok_of_to_option (by decide +kernel)

theorem regtest_payment_distinct : (regtest_payment.output.map TxOut.script_pubkey).Nodup := by
  decide +kernel

/-- The payment as the kernel reads it, and the next block with it. -/
def mined_payment : bitcoinkernel.Transaction :=
  regtest_payment.read_by_kernel (regtest.txid 0xdd) (by decide)

def paying_block : bitcoinkernel.Block :=
  ⟨regtest.spending_block.header, regtest.spending_block.transactions.take 1 ++ [mined_payment]⟩

def paying_spent : bitcoinkernel.BlockSpentOutputs :=
  ⟨[mined_spent regtest_payer regtest_payment]⟩

theorem regtest_payer_owned (outpoint : OutPoint) (coin : Coin)
    (hcoin : regtest_payer.utxos.lookup outpoint = some coin) :
    coin.OwnedBy regtest.secp regtest.spend_secret := by
  have hscripts : ∀ entry ∈ regtest_payer.utxos.entries,
      (regtest.spend_secret.add_tweak entry.2.tweak).map
        (fun key => p2tr_script (regtest.secp.public_key key).x) =
          some entry.2.script_pubkey := by
    decide +kernel
  obtain ⟨key, htweak, hscript⟩ := Option.map_eq_some_iff.mp
    (hscripts _ (AList.mem_lookup_iff.mp hcoin))
  exact ⟨key, htweak, hscript.symm⟩

theorem regtest_payee_valid : payee_keys.Valid regtest.secp regtest.curve
    (regtest.curve.even_point payee_spend_secret.scalar.val) := by
  have himport : (Wallet.new .Regtest).import_signing_keys regtest.secp regtest.payment_sp
      payee_scan_key payee_spend_secret = .ok regtest_payee := rfl
  obtain ⟨keys, hkeys, hvalid⟩ := Wallet.import_signing_keys_valid regtest.secp_computes
    regtest.payment_sp_bip352 himport
  cases hkeys
  exact hvalid

theorem paying_block_txids : paying_block.txids.Nodup := by
  decide +kernel

/-- Both coins of the payer pay another wallet, with change. -/
theorem payment_received_regtest : ∃ after count,
    regtest_payer.build_transaction regtest.secp regtest.payment_sp payment_cs sweep_btc sweep_rng
      (.SilentPayment (regtest.payment_sp.receiving_code payee_keys.receiver)) ⟨9000⟩ ⟨250⟩ ⟨2500⟩ =
        .ok regtest_payment ∧
    regtest_payee.scan_block regtest.secp regtest.payment_sp paying_block paying_spent 3 =
      some (after, count) ∧
    ∃ (index : Nat) (script_pubkey : ScriptBuf),
      regtest_payment.output[index]? = some ⟨⟨9000⟩, script_pubkey⟩ ∧
      after.Records regtest.secp payee_keys (regtest.txid 0xdd) index ⟨⟨9000⟩, script_pubkey⟩ := by
  obtain ⟨⟨after, count⟩, hscan⟩ : ∃ scanned, regtest_payee.scan_block regtest.secp
      regtest.payment_sp paying_block paying_spent 3 = some scanned :=
    Option.isSome_iff_exists.mp (by decide +kernel)
  exact ⟨after, count, regtest_payment_built, hscan, payment_received regtest.secp
    regtest.payment_sp payment_cs sweep_btc regtest.secp_computes regtest.secp_is_x_coordinate
    regtest.payment_sp_lawful regtest.payment_sp_bip352 rfl regtest_payer_owned rfl
    regtest_payee_valid regtest_payment_built regtest_payment_distinct paying_block_txids
    List.mem_cons_self (mined_self regtest_payer _ regtest_payment _ _) hscan⟩

/-- The change of a payment returns: when a wallet's transaction to an address or
    to another scan key is mined, its own scan of the block records every output
    but the payment, unless the payment itself is to the wallet's own key. The
    unlabelled key that the scan derives for the transaction must be a point. -/
theorem change_returned (hcurve : secpInst.Computes curve)
    (hpoints : ∀ {point : G}, point ≠ 0 → secpInst.is_x_coordinate (curve.x point).bytes)
    (hsp : spInst.Lawful secpInst) (hbip : spInst.Bip352 curve input_hash tweak_hash)
    {payer later after : Wallet} {secret : SecretKey} (hsecret : payer.spend_secret = some secret)
    (howned : ∀ outpoint coin, payer.utxos.lookup outpoint = some coin →
      coin.OwnedBy secpInst secret)
    {keys : SilentPaymentKeys} (hkeys : payer.keys = some keys) (hlater : later.keys = some keys)
    {spend : G} (hvalid : keys.Valid secpInst curve spend)
    (hlabel : spend + keys.receiver.change_label.inner.val • curve.base ≠ 0)
    {recipient : Recipient}
    (hother : ∀ material ∈ recipient.materials,
      material.scan_pubkey ≠ keys.receiver.scan_pubkey)
    {rng : Rng} {amount : Amount} {fee_rate long_term_fee_rate : FeeRate} {tx : Transaction}
    (hbuild : payer.build_transaction secpInst spInst csInst btcInst rng recipient amount fee_rate
      long_term_fee_rate = .ok tx)
    (hdistinct : (tx.output.map TxOut.script_pubkey).Nodup)
    {kernel_block : bitcoinkernel.Block} {spent_outputs : bitcoinkernel.BlockSpentOutputs}
    {block_height : UInt32} {count : Nat} (htxids : kernel_block.txids.Nodup)
    {kernel_tx : bitcoinkernel.Transaction} {tx_spent : bitcoinkernel.TransactionSpentOutputs}
    (htx : (kernel_tx, tx_spent) ∈ (kernel_block.transactions.drop 1).zip
      spent_outputs.transactions)
    (hmined : Mined tx (payer.spendable_coins rng.utxos) kernel_tx tx_spent)
    (hfirst : ∀ shared, shared ≠ 0 → shared_secret spInst kernel_tx tx_spent keys.scan_key =
      some (.of_point curve shared) → first_point curve tweak_hash spend shared ≠ 0)
    (hscan : later.scan_block secpInst spInst kernel_block spent_outputs block_height =
      some (after, count)) :
    ∃ (paid : Nat) (script_pubkey : ScriptBuf), tx.output[paid]? = some ⟨amount, script_pubkey⟩ ∧
      (∀ address, recipient = .Address address → script_pubkey = address) ∧
      ((∀ index out, tx.output[index]? = some out → index ≠ paid →
          after.Records secpInst keys kernel_tx.txid index out) ∨
        after.Records secpInst keys kernel_tx.txid paid ⟨amount, script_pubkey⟩) := by
  simp only [Wallet.build_transaction, hsecret, hkeys] at hbuild
  have hcoins : ∀ spendable ∈ payer.spendable_coins rng.utxos,
      spendable.coin.OwnedBy secpInst secret :=
    fun spendable hmem => howned _ _ (mem_spendable_coins.mp hmem).1
  obtain ⟨drain, derived, output, hperm, houtput, hneeded⟩ :=
    built_outputs hcurve hbip hcoins hbuild hmined
  obtain ⟨script_pubkey, hscript, houtput⟩ := transaction_outputs_eq_ok houtput
  have haddress : ∀ address, recipient = .Address address → script_pubkey = address := by
    rintro address rfl
    exact (Except.ok.inj hscript).symm
  rcases houtput with ⟨_, rfl⟩ | ⟨hdrain, change_script, hchange, rfl⟩
  · -- without change the payment is the only output
    have hsingle := List.perm_singleton.mp hperm
    refine ⟨0, script_pubkey, by rw [hsingle]; rfl, haddress, .inl ?_⟩
    intro index out hout hindex
    rw [hsingle] at hout
    cases index with
    | zero => exact absurd rfl hindex
    | succ index => cases hout
  · obtain ⟨signers, outpoints, inputs, partial_secret, hinputs, hcollect, hsender, hgenerate⟩ :=
      hneeded (.inr hdrain)
    rw [if_pos hdrain] at hgenerate
    have hcode := hbip.change_code hvalid.spend_ne_zero hvalid.spend_pubkey hlabel
    have hscan_point : (spInst.change_code keys.receiver).into.scan_pubkey =
        .of_point curve (keys.scan_key.scalar.val • curve.base) := by
      rw [hcode, hvalid.scan_pubkey, hcurve.public_key]
    obtain ⟨hfinite, hlabelled, rest, hlookup⟩ := hbip.generate_recipient_pubkeys
      recipient.materials hgenerate (by simpa only [hcode] using hother)
      (keys.scan_key.nsmul_base_ne_zero curve) hscan_point hlabel (by rw [hcode])
    have hchange_script := Except.ok.inj ((sp_output_script_eq_ok hlookup).symm.trans hchange)
    obtain ⟨tweak_data, htweak, hecdh⟩ := hbip.shared_secret hsender hfinite
    have hshared : shared_secret spInst kernel_tx tx_spent keys.scan_key = some (.of_point curve
        (partial_secret.scalar.val • keys.scan_key.scalar.val • curve.base)) := by
      simp only [shared_secret, hinputs, hcollect, htweak, hecdh, Except.toOption,
        Option.bind_eq_bind, Option.bind_some, Option.pure_def]
    obtain ⟨found, hfound, hplain, hchanged⟩ := receiver_scan_first hbip hvalid
      (taproot_outputs secpInst kernel_tx) hcollect hsender rfl hfinite (hfirst _ hfinite hshared)
    generalize partial_secret.scalar.val • keys.scan_key.scalar.val • curve.base = shared at *
    have hrecords := @Wallet.scan_block_records _ _ hsp _ _ _ hlater _ _ _ _ hscan htxids _ _ htx
      _ _ hmined hdistinct _ hinputs _ hfound
    obtain ⟨paid, hpaid⟩ := List.mem_iff_getElem?.mp (hperm.mem_iff.mpr List.mem_cons_self)
    refine ⟨paid, script_pubkey, hpaid, haddress, ?_⟩
    -- the scan finds the unlabelled key if an output has it, and the change otherwise
    by_cases hmem : curve.x (first_point curve tweak_hash spend shared) ∈
        (taproot_outputs secpInst kernel_tx).map Prod.snd
    · obtain ⟨⟨index, pk⟩, htaproot, rfl⟩ := List.mem_map.mp hmem
      obtain ⟨_, hkernel_out, _⟩ := mem_taproot_outputs.mp htaproot
      rw [hmined.outputs, List.getElem?_map, Option.map_eq_some_iff] at hkernel_out
      obtain ⟨out, hout, _⟩ := hkernel_out
      exact change_or_payment hperm hdistinct hout (hrecords hout htaproot (hplain hmem)) hpaid
    · obtain ⟨index, hindex⟩ := List.mem_iff_getElem?.mp
        (hperm.mem_iff.mpr (List.mem_cons_of_mem _ (List.mem_singleton_self _)))
      rw [← hchange_script] at hindex
      have htaproot := mined_taproot_output hmined hindex (hpoints hlabelled)
      have hfind := hchanged hmem _ rfl hlabelled (List.mem_map_of_mem htaproot)
      exact change_or_payment hperm hdistinct hindex (hrecords hindex htaproot hfind) hpaid

end

theorem regtest_payer_valid :
    SilentPaymentKeys.Valid regtest.secp regtest.curve ⟨regtest.receiver, regtest.scan_key⟩
      (regtest.spend_secret.scalar.val • regtest.curve.base) where
  scan_pubkey := rfl
  spend_ne_zero := regtest.spend_secret.nsmul_base_ne_zero regtest.curve
  spend_pubkey := regtest.secp_computes.public_key regtest.spend_secret

/-- The payer's change is in its own scan of the same block. -/
theorem change_returned_regtest : ∃ after count,
    regtest_payer.build_transaction regtest.secp regtest.payment_sp payment_cs sweep_btc sweep_rng
      (.SilentPayment (regtest.payment_sp.receiving_code payee_keys.receiver)) ⟨9000⟩ ⟨250⟩ ⟨2500⟩ =
        .ok regtest_payment ∧
    regtest_payer.scan_block regtest.secp regtest.payment_sp paying_block paying_spent 3 =
      some (after, count) ∧
    ∃ (paid : Nat) (script_pubkey : ScriptBuf),
      regtest_payment.output[paid]? = some ⟨⟨9000⟩, script_pubkey⟩ ∧
      ((∀ index out, regtest_payment.output[index]? = some out → index ≠ paid →
          after.Records regtest.secp ⟨regtest.receiver, regtest.scan_key⟩ (regtest.txid 0xdd) index
            out) ∨
        after.Records regtest.secp ⟨regtest.receiver, regtest.scan_key⟩ (regtest.txid 0xdd) paid
          ⟨⟨9000⟩, script_pubkey⟩) := by
  obtain ⟨⟨after, count⟩, hscan⟩ : ∃ scanned, regtest_payer.scan_block regtest.secp
      regtest.payment_sp paying_block paying_spent 3 = some scanned :=
    Option.isSome_iff_exists.mp (by decide +kernel)
  have hlabel : regtest.spend_secret.scalar.val • regtest.curve.base +
      regtest.receiver.change_label.inner.val • regtest.curve.base ≠ 0 := by
    rw [← SecretKey.nsmul_base_add]
    exact SecretKey.nsmul_base_ne_zero regtest.curve
      ⟨regtest.spend_secret.scalar + regtest.receiver.change_label.inner, by decide +kernel⟩
  have hlog : (shared_secret regtest.payment_sp mined_payment
      (mined_spent regtest_payer regtest_payment) regtest.scan_key).bind regtest.key_log =
        some 0xfcd76c1ce7a1129c69785ab13faf3dabfd7c03df867555a44de2f5fd898e3208 := by
    decide +kernel
  have hfirst : ∀ shared, shared ≠ 0 → shared_secret regtest.payment_sp mined_payment
      (mined_spent regtest_payer regtest_payment) regtest.scan_key =
        some (.of_point regtest.curve shared) →
      first_point regtest.curve (fun point => regtest.tweak_hash (regtest.point_log point))
        (regtest.spend_secret.scalar.val • regtest.curve.base) shared ≠ 0 := by
    intro shared hshared hsecret hzero
    rw [hsecret, Option.bind_some, regtest.key_log_of_point hshared, Option.some.injEq] at hlog
    rw [← regtest.point_log_eq_zero_iff, first_point, regtest.point_log_add,
      regtest.point_log_nsmul_base, regtest.point_log_nsmul_base, hlog] at hzero
    revert hzero
    decide +kernel
  have hother : ∀ material ∈ (Recipient.SilentPayment
      (regtest.payment_sp.receiving_code payee_keys.receiver)).materials,
      material.scan_pubkey ≠ regtest.receiver.scan_pubkey := by
    decide +kernel
  obtain ⟨paid, script_pubkey, hpaid, _, hrecords⟩ := change_returned regtest.secp
    regtest.payment_sp payment_cs sweep_btc regtest.secp_computes regtest.secp_is_x_coordinate
    regtest.payment_sp_lawful regtest.payment_sp_bip352 rfl regtest_payer_owned rfl rfl
    regtest_payer_valid hlabel hother regtest_payment_built regtest_payment_distinct
    paying_block_txids List.mem_cons_self (mined_self regtest_payer _ regtest_payment _ _) hfirst
    hscan
  exact ⟨after, count, regtest_payment_built, hscan, paid, script_pubkey, hpaid, hrecords⟩

end node
