import KernelNode.Bitcoin.Curve
import KernelNode.Wallet.Sending

open bitcoin secp256k1 silentpayments std.collections xonly

namespace bitcoin

/-- The transaction without its witnesses, which is what signatures are on. -/
def Transaction.unsigned (self : Transaction) : Transaction :=
  { self with input := self.input.map fun txin => { txin with witness := [] } }

end bitcoin

namespace wallet

section

variable {secpInst : secp256k1.Api} {btcInst : bitcoin.Api} {tx : Transaction}
    {selected : List SpendableCoin} {keys : List SecretKey}

theorem attach_witnesses_unsigned (input : List TxIn) (witnesses : List (List (List UInt8))) :
    ((attach_witnesses input witnesses).map fun txin => { txin with witness := [] }) =
      input.map fun txin => { txin with witness := [] } := by
  fun_induction attach_witnesses input witnesses with
  | case1 txin input witness witnesses ih => simp [ih]
  | case2 => rfl

/-- Signing changes the witnesses only. -/
theorem sign_transaction_unsigned {before : Transaction}
    (hinput : before.input = selected.map SpendableCoin.input)
    (hsign : sign_transaction secpInst btcInst before selected keys = .ok tx) :
    tx.unsigned = before := by
  simp only [sign_transaction, std.result.bind_eq_ok_iff] at hsign
  obtain ⟨witnesses, _, htx⟩ := hsign
  cases htx
  have hfresh : before.input.map (fun txin => { txin with witness := [] }) = before.input := by
    rw [hinput, List.map_map]
    rfl
  simp only [Transaction.unsigned, attach_witnesses_unsigned, hfresh]

/-- Coins, keys, prevouts and inputs of a signed transaction are aligned: at every
    index the key of the coin there signs, for the transaction as it is sent. -/
theorem sign_transaction_aligned {before : Transaction} {spend_secret : SecretKey}
    (hkeys : signing_keys spend_secret selected = .ok keys)
    (hinput : before.input = selected.map SpendableCoin.input)
    (hsign : sign_transaction secpInst btcInst before selected keys = .ok tx)
    {i : Nat} {txin : TxIn} (htxin : tx.input[i]? = some txin) :
    ∃ spendable key digest, selected[i]? = some spendable ∧ keys[i]? = some key ∧
      spend_secret.add_tweak spendable.coin.tweak = some key ∧
      btcInst.taproot_key_spend_signature_hash tx.unsigned i
        (selected.map SpendableCoin.prevout) = .ok digest ∧
      txin = { spendable.input with witness := [(secpInst.sign_schnorr digest key).toList] } := by
  obtain ⟨spendable, key, digest, hspendable, hsum, hdigest, htxin⟩ :=
    sign_transaction_input hkeys hinput hsign htxin
  obtain ⟨_, hkey, hsame⟩ := getElem?_signing_keys hkeys hspendable
  obtain rfl := Option.some.inj (hsum.symm.trans hsame)
  rw [sign_transaction_unsigned hinput hsign]
  exact ⟨spendable, key, digest, hspendable, hkey, hsum, hdigest, htxin⟩

end

section

variable {secpInst : secp256k1.Api} {G : Type} [AddCommGroup G]
    {curve : Curve CURVE_ORDER G XOnlyPublicKey} {spend_secret : SecretKey} {B : G}

/-- The stored secret is that of the even point of the x-only key. -/
theorem normalized_secret_point (hcurve : secpInst.Computes curve) (hpoint : B ≠ 0)
    (hx : curve.x B = (secpInst.public_key spend_secret).x) (heven : curve.even B = true) :
    (normalized_secret spend_secret (secpInst.public_key spend_secret).parity).scalar.val •
      curve.base = B := by
  have hnormalized := public_key_normalized_secret hcurve.lawful spend_secret
  rw [hcurve.public_key (normalized_secret _ _)] at hnormalized
  have hparity := (PublicKey.of_point_parity_eq_even curve).mp
    (congrArg PublicKey.parity hnormalized)
  refine curve.eq_of_x_of_even (SecretKey.nsmul_base_ne_zero curve _) hpoint ?_ ?_
  · rw [hx]
    exact congrArg PublicKey.x hnormalized
  · rw [hparity, heven]

/-- The key that signs for a coin has the coin's x-only key, whatever the parity
    of the imported secret. -/
theorem signing_key_x (hcurve : secpInst.Computes curve) (hpoint : B ≠ 0)
    (hx : curve.x B = (secpInst.public_key spend_secret).x) (heven : curve.even B = true)
    {tweak : Scalar} {key : SecretKey}
    (hkey : (normalized_secret spend_secret (secpInst.public_key spend_secret).parity).add_tweak
      tweak = some key) :
    (secpInst.public_key key).x = curve.x (B + tweak.val • curve.base) := by
  rw [SecretKey.add_tweak] at hkey
  split at hkey
  · cases hkey
    rw [hcurve.public_key, SecretKey.nsmul_base_add curve,
      normalized_secret_point hcurve hpoint hx heven]
    rfl
  · cases hkey

end

/-- Every input of a built transaction is signed by the key of the coin it
    spends, for a secret key of either parity and any selection and shuffles. -/
theorem built_inputs_signed (secpInst : secp256k1.Api) (spInst : silentpayments.Api)
    (csInst : bdk_coin_select.Api) (btcInst : bitcoin.Api) {G : Type} [AddCommGroup G]
    {curve : Curve CURVE_ORDER G XOnlyPublicKey} (hcurve : secpInst.Computes curve)
    {self imported : Wallet} {scan_key spend_secret secret : SecretKey}
    (himport : self.import_signing_keys secpInst spInst scan_key spend_secret = .ok imported)
    (hsecret : imported.spend_secret = some secret)
    {B : G} (hpoint : B ≠ 0) (hx : curve.x B = (secpInst.public_key spend_secret).x)
    (heven : curve.even B = true) {coins : List SpendableCoin}
    (hcoins : ∀ spendable ∈ coins, spendable.coin.script_pubkey =
      p2tr_script (curve.x (B + spendable.coin.tweak.val • curve.base)))
    {rng : Rng} {recipient : Recipient} {amount : Amount} {fee_rate long_term_fee_rate : FeeRate}
    {tip_height : UInt32} {change_address : SilentPaymentCode} {tx : Transaction}
    (hbuild : build_transaction secpInst spInst csInst btcInst rng secret recipient amount
      fee_rate long_term_fee_rate tip_height change_address coins = .ok tx) :
    ∃ chosen drain selected keys derived recipient_script,
      select_coins csInst coins (recipient.target amount fee_rate)
        (send_change_policy secpInst btcInst secret fee_rate long_term_fee_rate)
        long_term_fee_rate 100000 = .ok (chosen, drain) ∧
      selected.Perm chosen ∧ tx.input.length = selected.length ∧
      (∀ i txin, tx.input[i]? = some txin → ∃ spendable key digest,
        selected[i]? = some spendable ∧ txin.previous_output = spendable.outpoint ∧
        (selected.map SpendableCoin.prevout)[i]? =
          some ⟨spendable.coin.value, spendable.coin.script_pubkey⟩ ∧
        keys[i]? = some key ∧
        spendable.coin.script_pubkey = p2tr_script (secpInst.public_key key).x ∧
        btcInst.taproot_key_spend_signature_hash tx.unsigned i
          (selected.map SpendableCoin.prevout) = .ok digest ∧
        txin.witness = [(secpInst.sign_schnorr digest key).toList]) ∧
      derive_outputs spInst recipient change_address (drain_change_value drain) keys selected =
        .ok derived ∧
      recipient.output_script derived = .ok recipient_script ∧
      ((drain.is_some = false ∧ tx.output.Perm [⟨amount, recipient_script⟩]) ∨
        (drain.is_some = true ∧ ∃ change_script,
          sp_output_script derived change_address = .ok change_script ∧
          tx.output.Perm [⟨amount, recipient_script⟩, ⟨⟨drain.value⟩, change_script⟩])) := by
  obtain ⟨_, _, rfl⟩ := (Wallet.import_signing_keys_eq_ok_iff secpInst spInst).mp himport
  obtain rfl := Option.some.inj hsecret
  obtain ⟨chosen, drain, keys, derived, output, hselect, hkeys, hderived, houtput, hsign⟩ :=
    build_transaction_calls hbuild
  obtain ⟨recipient_script, hrecipient, houtput⟩ := transaction_outputs_eq_ok houtput
  have hunsigned := sign_transaction_unsigned rfl hsign
  have houtputs : tx.output = rng.outputs.apply output := congrArg Transaction.output hunsigned
  have hinputs : tx.input.length = (rng.coins.apply chosen).length := by
    have hinput := congrArg (fun tx => tx.input.length) hunsigned
    simpa [Transaction.unsigned] using hinput
  refine ⟨chosen, drain, rng.coins.apply chosen, keys, derived, recipient_script, hselect,
    rng.coins.perm chosen, hinputs, ?_, hderived, hrecipient, ?_⟩
  · intro i txin htxin
    obtain ⟨spendable, key, digest, hspendable, hkey, hsum, hdigest, rfl⟩ :=
      sign_transaction_aligned hkeys rfl hsign htxin
    have hmem : spendable ∈ coins := select_coins_mem hselect
      ((rng.coins.perm chosen).mem_iff.mp (List.mem_of_getElem? hspendable))
    refine ⟨spendable, key, digest, hspendable, rfl, ?_, hkey, ?_, hdigest, rfl⟩
    · rw [List.getElem?_map, hspendable]
      rfl
    · rw [signing_key_x hcurve hpoint hx heven hsum]
      exact hcoins spendable hmem
  · -- the second shuffle
    have hperm := rng.outputs.perm output
    rw [← houtputs] at hperm
    rcases houtput with ⟨hdrain, rfl⟩ | ⟨hdrain, change_script, hchange, rfl⟩
    · exact .inl ⟨hdrain, hperm⟩
    · exact .inr ⟨hdrain, change_script, hchange, hperm⟩

/-- Both coins of the receiver are sent back in one transaction, the second coin
    first: the digest of each input and its signature under the coin's key. -/
def sweep_signatures : List (List.Vector UInt8 32 × List.Vector UInt8 64) := [
  (std.bytes.to_be 32 0xaf645e58a4dbae278d235f0a26e9e92cd8fb8fadeb159e0b28aba8b1b1138f35,
    std.bytes.to_be 64
      0xc6f89e57fbd441ea0b037d30353da736f5644c8c1995d817c4ab2f0594e0cebaa29ac6f04cf3a9ebe58c1713d5a7091af4159eb4e5131c1dd8e2dd4b85607cf8),
  (std.bytes.to_be 32 0xf0de4c141e8edcba472db53dfa8e66876360a4c0aaae92375e05b93a9403580e,
    std.bytes.to_be 64
      0x118fbb1414fd9537f2b2ea5a9d2242bab33609bc939aa544c004b00c12a1a43b215532e9b5d06a52186969b814b40aba587edc693cce61576c87a52e81d04698)]

def sweep_secp : secp256k1.Api :=
  { regtest.secp with
    sign_schnorr digest key :=
      ((sweep_signatures.find? fun signed => signed.1 = digest).map Prod.snd).getD
        (regtest.secp.sign_schnorr digest key) }

def sweep_btc : bitcoin.Api :=
  { regtest.btc with
    taproot_key_spend_signature_hash _ i _ :=
      match sweep_signatures[i]? with
      | some signed => .ok signed.1
      | none => .error "unknown input" }

/-- The coin selector where all coins are needed. -/
def sweep_cs : bdk_coin_select.Api :=
  { regtest.cs with run_bnb candidates _ _ := some (List.range candidates.length) }

/-- A shuffle that turns the coins around. -/
def sweep_rng : Rng := ⟨.id, ⟨List.reverse, List.reverse_perm⟩, .id⟩

def sweep_coins : List SpendableCoin := (regtest.funded_wallet regtest.coins).spendable_coins .id

theorem sweep_secp_computes : sweep_secp.Computes regtest.curve :=
  regtest.secp_computes.with_sign_schnorr _

/-- A secret key with an odd public key is imported, and both coins are spent in
    the other order, each with the signature of its own key. -/
theorem built_inputs_signed_odd_key : ∃ imported secret, ∃ tx : Transaction,
    (Wallet.new .Regtest).import_signing_keys sweep_secp regtest.sp regtest.scan_key
      regtest.spend_secret.negate = .ok imported ∧
    (sweep_secp.public_key regtest.spend_secret.negate).parity = .Odd ∧
    imported.spend_secret = some secret ∧
    build_transaction sweep_secp regtest.sp sweep_cs sweep_btc sweep_rng secret
      (.Address regtest.sender_script) ⟨19700⟩ ⟨250⟩ ⟨2500⟩ 2
      (regtest.sp.change_code regtest.receiver) sweep_coins = .ok tx ∧
    tx.outpoints = [⟨regtest.txid 0xab, 0⟩, ⟨regtest.txid 0xaa, 0⟩] ∧
    ∀ txin ∈ tx.input, ∃ spendable ∈ sweep_coins, ∃ key digest,
      txin.previous_output = spendable.outpoint ∧
      spendable.coin.script_pubkey = p2tr_script (sweep_secp.public_key key).x ∧
      txin.witness = [(sweep_secp.sign_schnorr digest key).toList] := by
  obtain ⟨imported, himport, hsecret⟩ : ∃ imported,
      (Wallet.new .Regtest).import_signing_keys sweep_secp regtest.sp regtest.scan_key
        regtest.spend_secret.negate = .ok imported ∧
      imported.spend_secret = some (normalized_secret regtest.spend_secret.negate .Odd) :=
    ⟨_, rfl, rfl⟩
  obtain ⟨tx, hbuild, houtpoints⟩ : ∃ tx,
      build_transaction sweep_secp regtest.sp sweep_cs sweep_btc sweep_rng
        (normalized_secret regtest.spend_secret.negate .Odd)
        (.Address regtest.sender_script) ⟨19700⟩ ⟨250⟩ ⟨2500⟩ 2
        (regtest.sp.change_code regtest.receiver) sweep_coins = .ok tx ∧
      tx.outpoints = [⟨regtest.txid 0xab, 0⟩, ⟨regtest.txid 0xaa, 0⟩] := ⟨_, rfl, rfl⟩
  have hodd : (sweep_secp.public_key regtest.spend_secret.negate).parity = .Odd := by decide +kernel
  have hpoint := regtest.spend_secret.nsmul_base_ne_zero regtest.curve
  have hkey := sweep_secp_computes.public_key regtest.spend_secret
  have hx : regtest.curve.x (regtest.spend_secret.scalar.val • regtest.curve.base) =
      (sweep_secp.public_key regtest.spend_secret.negate).x := by
    rw [sweep_secp_computes.lawful.negate_x, hkey]
    rfl
  have heven :
      regtest.curve.even (regtest.spend_secret.scalar.val • regtest.curve.base) = true := by
    rw [← PublicKey.of_point_parity_eq_even, ← hkey]
    decide +kernel
  have hscripts : ∀ spendable ∈ sweep_coins,
      ((normalized_secret regtest.spend_secret.negate .Odd).add_tweak spendable.coin.tweak).map
        (fun key => p2tr_script (sweep_secp.public_key key).x) =
          some spendable.coin.script_pubkey := by
    decide +kernel
  have hcoins : ∀ spendable ∈ sweep_coins, spendable.coin.script_pubkey =
      p2tr_script (regtest.curve.x (regtest.spend_secret.scalar.val • regtest.curve.base +
        spendable.coin.tweak.val • regtest.curve.base)) := by
    intro spendable hmem
    obtain ⟨key, htweak, hscript⟩ := Option.map_eq_some_iff.mp (hscripts spendable hmem)
    rw [← hodd] at htweak
    rw [← hscript, signing_key_x sweep_secp_computes hpoint hx heven htweak]
  obtain ⟨chosen, _, selected, _, _, _, hselect, hperm, _, hinputs, _⟩ :=
    built_inputs_signed sweep_secp regtest.sp sweep_cs sweep_btc sweep_secp_computes himport hsecret
      hpoint hx heven hcoins hbuild
  refine ⟨imported, _, tx, himport, hodd, hsecret, hbuild, houtpoints, ?_⟩
  intro txin htxin
  obtain ⟨i, hi⟩ := List.mem_iff_getElem?.mp htxin
  obtain ⟨spendable, key, digest, hspendable, hprevious, _, _, hscript, _, hwitness⟩ :=
    hinputs i txin hi
  have hmem := select_coins_mem hselect (hperm.mem_iff.mp (List.mem_of_getElem? hspendable))
  exact ⟨spendable, hmem, key, digest, hprevious, hscript, hwitness⟩

end wallet
