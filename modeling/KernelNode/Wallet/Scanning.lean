import KernelNode.Collections.Traverse
import KernelNode.Wallet.State

open bitcoin secp256k1 silentpayments std.collections

namespace wallet

structure InputData where
  script_sig : List UInt8
  witness : List (List UInt8)
  prevout_script : List UInt8
  outpoint : silentpayments.utils.OutPoint

/-- The keys and the outpoints that the input loop of `scan_transaction` pushes:
    those of the inputs that yield a public key, in input order. -/
def collect_inputs (spInst : silentpayments.Api) :
    List InputData → List PublicKey × List silentpayments.utils.OutPoint
  | [] => ([], [])
  | input :: inputs =>
    let (input_pub_keys, outpoints) := collect_inputs spInst inputs
    match spInst.get_pubkey_from_input input.script_sig input.witness input.prevout_script with
    | .ok (some pk) => (pk :: input_pub_keys, input.outpoint :: outpoints)
    | _ => (input_pub_keys, outpoints)

/-- What the receiver's scan finds: by label, the keys with their tweaks. -/
abbrev FoundKeys := HashMap (Option Label) (HashMap XOnlyPublicKey Scalar)

/-- The receiver's scan in `scan_transaction`, `none` where it is not reached or
    fails. -/
def find_keys (spInst : silentpayments.Api) (receiver : Receiver) (b_scan : SecretKey)
    (input_pub_keys : List PublicKey) (outpoints : List silentpayments.utils.OutPoint)
    (taproot_outputs : List (Nat × XOnlyPublicKey)) : Option FoundKeys :=
  if input_pub_keys.isEmpty then none else
  match spInst.calculate_tweak_data input_pub_keys outpoints with
  | .error _ => none
  | .ok tweak_data =>
    let shared_secret := spInst.calculate_ecdh_shared_secret tweak_data b_scan
    (spInst.scan_transaction receiver shared_secret (taproot_outputs.map Prod.snd)).toOption

/-- The part of `scan_transaction` after the input loop. -/
def scan_outputs (spInst : silentpayments.Api) (receiver : Receiver) (b_scan : SecretKey)
    (input_pub_keys : List PublicKey) (outpoints : List silentpayments.utils.OutPoint)
    (taproot_outputs : List (Nat × XOnlyPublicKey)) : List (Nat × Scalar × Option Label) :=
  match find_keys spInst receiver b_scan input_pub_keys outpoints taproot_outputs with
  | none => []
  | some found => found.entries.flatMap fun ⟨label, pubkey_map⟩ =>
      pubkey_map.entries.filterMap fun ⟨pk, tweak⟩ =>
        (taproot_outputs.find? fun output => output.2 = pk).map fun output =>
          (output.1, tweak, label)

def scan_transaction (spInst : silentpayments.Api) (receiver : Receiver) (b_scan : SecretKey)
    (inputs : List InputData) (taproot_outputs : List (Nat × XOnlyPublicKey)) :
    List (Nat × Scalar × Option Label) :=
  let (input_pub_keys, outpoints) := collect_inputs spInst inputs
  scan_outputs spInst receiver b_scan input_pub_keys outpoints taproot_outputs

/-- `Script::is_p2tr`: a version 1 witness program of 32 bytes. -/
def is_p2tr (script : List UInt8) : Bool :=
  script.length = 34 && script[0]? = some 0x51 && script[1]? = some 0x20

def parse_p2tr (secpInst : secp256k1.Api) (script : List UInt8) : Option XOnlyPublicKey :=
  if is_p2tr script then secpInst.x_only_from_slice (script.drop 2) else none

/-- The taproot outputs of a transaction with their indices. -/
def taproot_outputs (secpInst : secp256k1.Api) (kernel_tx : bitcoinkernel.Transaction) :
    List (Nat × XOnlyPublicKey) :=
  kernel_tx.outputs.zipIdx.filterMap fun (out, i) =>
    (parse_p2tr secpInst out.script_pubkey).map fun pk => (i, pk)

/-- The inputs of a transaction with the scripts they spend. A missing undo
    entry is a panic, here `none`. -/
def input_data (kernel_tx : bitcoinkernel.Transaction)
    (tx_spent : bitcoinkernel.TransactionSpentOutputs) : Option (List InputData) :=
  kernel_tx.inputs.zipIdx.mapM fun (input, idx) => do
    let coin ← tx_spent.coin idx
    return {
      script_sig := input.script_sig
      witness := input.witness_stack
      prevout_script := coin.script_pubkey
      outpoint := silentpayments.utils.OutPoint.from_outpoint input.outpoint }

/-- The coin of an output that was found. -/
def owned_coin (kernel_tx : bitcoinkernel.Transaction) (block_height : UInt32) (index : Nat)
    (out : bitcoinkernel.TxOut) (tweak : Scalar) (label : Option Label) : OutPoint × Coin :=
  ({ txid := kernel_tx.txid, vout := UInt32.ofNat index }, {
    value := ⟨out.value.toUInt64⟩
    script_pubkey := out.script_pubkey
    tweak
    label := label.map Label.inner
    block_height
    spent_by := none })

/-- The coin recorded for one match, which is the output at its index. -/
def found_coin (kernel_tx : bitcoinkernel.Transaction) (block_height : UInt32) :
    Nat × Scalar × Option Label → Option (OutPoint × Coin)
  | (output_index, tweak, label) => do
    let out ← kernel_tx.outputs[output_index]?
    return owned_coin kernel_tx block_height output_index out tweak label

/-- The body of the transaction loop of `scan_block_inner`. -/
def scan_block_tx (secpInst : secp256k1.Api) (spInst : silentpayments.Api) (receiver : Receiver)
    (b_scan : SecretKey) (block_height : UInt32) (kernel_tx : bitcoinkernel.Transaction)
    (tx_spent : bitcoinkernel.TransactionSpentOutputs) : Option (List (OutPoint × Coin)) := do
  let taproot := taproot_outputs secpInst kernel_tx
  if taproot.isEmpty then
    return []
  let inputs ← input_data kernel_tx tx_spent
  (scan_transaction spInst receiver b_scan inputs taproot).mapM (found_coin kernel_tx block_height)

/-- The coins a block pays to the receiver, in transaction order. The coinbase
    has no undo data and is skipped. A panic is `none`. -/
def scan_block_inner (secpInst : secp256k1.Api) (spInst : silentpayments.Api) (receiver : Receiver)
    (b_scan : SecretKey) (kernel_block : bitcoinkernel.Block)
    (spent_outputs : bitcoinkernel.BlockSpentOutputs) (block_height : UInt32) :
    Option (List (OutPoint × Coin)) := do
  let found ← ((kernel_block.transactions.drop 1).zip spent_outputs.transactions).mapM
    fun (kernel_tx, tx_spent) =>
    scan_block_tx secpInst spInst receiver b_scan block_height kernel_tx tx_spent
  return found.flatten

theorem found_coin_eq_some_iff {kernel_tx : bitcoinkernel.Transaction} {block_height : UInt32}
    {output_index : Nat} {tweak : Scalar} {label : Option Label} {outpoint : OutPoint}
    {coin : Coin} :
    found_coin kernel_tx block_height (output_index, tweak, label) = some (outpoint, coin) ↔
      ∃ out, kernel_tx.outputs[output_index]? = some out ∧
        outpoint = ⟨kernel_tx.txid, UInt32.ofNat output_index⟩ ∧
        coin = ⟨⟨out.value.toUInt64⟩, out.script_pubkey, tweak, label.map Label.inner,
          block_height, none⟩ := by
  simp only [found_coin, owned_coin, Option.bind_eq_bind, Option.bind_eq_some_iff,
    Option.pure_def, Option.some.injEq, Prod.mk.injEq]
  constructor
  · rintro ⟨out, hout, rfl, rfl⟩
    exact ⟨out, hout, rfl, rfl⟩
  · rintro ⟨out, hout, rfl, rfl⟩
    exact ⟨out, hout, rfl, rfl⟩

/-- Every coin a block scan reports is a match of one of its transactions,
    recorded with that transaction's output. -/
theorem mem_scan_block_inner {secpInst : secp256k1.Api} {spInst : silentpayments.Api}
    {receiver : Receiver} {b_scan : SecretKey} {kernel_block : bitcoinkernel.Block}
    {spent_outputs : bitcoinkernel.BlockSpentOutputs} {block_height : UInt32}
    {found : List (OutPoint × Coin)}
    (hfound : scan_block_inner secpInst spInst receiver b_scan kernel_block spent_outputs
      block_height = some found)
    {outpoint : OutPoint} {coin : Coin} (hmem : (outpoint, coin) ∈ found) :
    ∃ kernel_tx ∈ kernel_block.transactions, ∃ inputs output_index tweak label,
      (output_index, tweak, label) ∈
        scan_transaction spInst receiver b_scan inputs (taproot_outputs secpInst kernel_tx) ∧
      found_coin kernel_tx block_height (output_index, tweak, label) = some (outpoint, coin) := by
  simp only [scan_block_inner, Option.bind_eq_bind, Option.bind_eq_some_iff, Option.pure_def,
    Option.some.injEq] at hfound
  obtain ⟨parts, hparts, rfl⟩ := hfound
  obtain ⟨part, hpart, hmem⟩ := List.mem_flatten.mp hmem
  obtain ⟨⟨kernel_tx, tx_spent⟩, hzip, htx⟩ := std.option.exists_of_mem_mapM hparts hpart
  have htransaction : kernel_tx ∈ kernel_block.transactions :=
    List.mem_of_mem_drop (List.of_mem_zip hzip).1
  simp only [scan_block_tx] at htx
  split at htx
  · simp only [Option.pure_def, Option.some.injEq] at htx
    subst part
    simp at hmem
  · simp only [Option.bind_eq_bind, Option.bind_eq_some_iff] at htx
    obtain ⟨inputs, _, hmatches⟩ := htx
    obtain ⟨⟨output_index, tweak, label⟩, hmatch, hcoin⟩ :=
      std.option.exists_of_mem_mapM hmatches hmem
    exact ⟨kernel_tx, htransaction, inputs, output_index, tweak, label, hmatch, hcoin⟩

/-- A reported coin has the height of the scanned block. -/
theorem scan_block_inner_height {secpInst : secp256k1.Api} {spInst : silentpayments.Api}
    {receiver : Receiver} {b_scan : SecretKey} {kernel_block : bitcoinkernel.Block}
    {spent_outputs : bitcoinkernel.BlockSpentOutputs} {block_height : UInt32}
    {found : List (OutPoint × Coin)}
    (hfound : scan_block_inner secpInst spInst receiver b_scan kernel_block spent_outputs
      block_height = some found)
    {outpoint : OutPoint} {coin : Coin} (hmem : (outpoint, coin) ∈ found) :
    coin.block_height = block_height := by
  obtain ⟨_, _, _, _, _, _, _, hcoin⟩ := mem_scan_block_inner hfound hmem
  obtain ⟨_, _, _, rfl⟩ := found_coin_eq_some_iff.mp hcoin
  rfl

theorem find_keys_eq_some {spInst : silentpayments.Api} {receiver : Receiver}
    {b_scan : SecretKey} {input_pub_keys : List PublicKey}
    {outpoints : List silentpayments.utils.OutPoint} {outputs : List (Nat × XOnlyPublicKey)}
    {found : FoundKeys}
    (hfound : find_keys spInst receiver b_scan input_pub_keys outpoints outputs = some found) :
    ∃ shared_secret, spInst.scan_transaction receiver shared_secret (outputs.map Prod.snd) =
      .ok found := by
  simp only [find_keys] at hfound
  split at hfound
  · cases hfound
  · split at hfound
    · cases hfound
    · rename_i tweak_data _
      refine ⟨spInst.calculate_ecdh_shared_secret tweak_data b_scan, ?_⟩
      cases hscan : spInst.scan_transaction receiver
        (spInst.calculate_ecdh_shared_secret tweak_data b_scan) (outputs.map Prod.snd) with
      | error e => simp [hscan, Except.toOption] at hfound
      | ok result => simpa [hscan, Except.toOption] using hfound

/-- A match is an output whose key the receiver's scan reports with its tweak. -/
theorem mem_scan_transaction {spInst : silentpayments.Api} {receiver : Receiver}
    {b_scan : SecretKey} {inputs : List InputData} {outputs : List (Nat × XOnlyPublicKey)}
    {output_index : Nat} {tweak : Scalar} {label : Option Label}
    (hmem : (output_index, tweak, label) ∈ scan_transaction spInst receiver b_scan inputs outputs) :
    ∃ pk shared_secret found pubkey_map, (output_index, pk) ∈ outputs ∧
      spInst.scan_transaction receiver shared_secret (outputs.map Prod.snd) = .ok found ∧
      (⟨label, pubkey_map⟩ : Σ _ : Option Label, HashMap XOnlyPublicKey Scalar) ∈ found.entries ∧
      (⟨pk, tweak⟩ : Σ _ : XOnlyPublicKey, Scalar) ∈ pubkey_map.entries := by
  simp only [scan_transaction, scan_outputs] at hmem
  split at hmem
  · simp at hmem
  · rename_i found hfound
    obtain ⟨shared_secret, hscan⟩ := find_keys_eq_some hfound
    simp only [List.mem_flatMap, List.mem_filterMap, Option.map_eq_some_iff,
      Prod.mk.injEq] at hmem
    obtain ⟨⟨_, pubkey_map⟩, hlabel, ⟨pk, _⟩, hkey, ⟨index, output_key⟩, hfind, rfl,
      rfl, rfl⟩ := hmem
    have hpk : output_key = pk := by simpa using List.find?_some hfind
    subst hpk
    exact ⟨output_key, shared_secret, found, pubkey_map, List.mem_of_find?_eq_some hfind,
      hscan, hlabel, hkey⟩

theorem mem_taproot_outputs {secpInst : secp256k1.Api} {kernel_tx : bitcoinkernel.Transaction}
    {output_index : Nat} {pk : XOnlyPublicKey} :
    (output_index, pk) ∈ taproot_outputs secpInst kernel_tx ↔
      ∃ out, kernel_tx.outputs[output_index]? = some out ∧
        parse_p2tr secpInst out.script_pubkey = some pk := by
  simp only [taproot_outputs, List.mem_filterMap, Option.map_eq_some_iff, Prod.mk.injEq]
  constructor
  · rintro ⟨⟨out, i⟩, hout, _, hparse, rfl, rfl⟩
    exact ⟨out, List.mem_zipIdx_iff_getElem?.mp hout, hparse⟩
  · rintro ⟨out, hout, hparse⟩
    exact ⟨(out, output_index), List.mem_zipIdx_iff_getElem?.mpr hout, pk, hparse, rfl, rfl⟩

theorem parse_p2tr_length {secpInst : secp256k1.Api} {script : List UInt8} {pk : XOnlyPublicKey}
    (hparse : parse_p2tr secpInst script = some pk) : script.length = 34 := by
  simp only [parse_p2tr] at hparse
  split at hparse
  · rename_i htaproot
    simp only [is_p2tr, Bool.and_eq_true, decide_eq_true_eq] at htaproot
    exact htaproot.1.1
  · cases hparse

/-- Every coin a block scan reports is a taproot output of one of the block's
    transactions, with a key and a tweak that the receiver's scan reports. -/
theorem scan_block_inner_spec {secpInst : secp256k1.Api} {spInst : silentpayments.Api}
    {receiver : Receiver} {b_scan : SecretKey} {kernel_block : bitcoinkernel.Block}
    {spent_outputs : bitcoinkernel.BlockSpentOutputs} {block_height : UInt32}
    {found : List (OutPoint × Coin)}
    (hfound : scan_block_inner secpInst spInst receiver b_scan kernel_block spent_outputs
      block_height = some found)
    {outpoint : OutPoint} {coin : Coin} (hmem : (outpoint, coin) ∈ found) :
    outpoint.txid ∈ kernel_block.txids ∧ outpoint ≠ .null ∧ coin.spent_by = none ∧
      ∃ pk, parse_p2tr secpInst coin.script_pubkey = some pk ∧
        ∃ shared_secret outputs matches_found label pubkey_map,
          spInst.scan_transaction receiver shared_secret outputs = .ok matches_found ∧
          (⟨label, pubkey_map⟩ : Σ _ : Option Label, HashMap XOnlyPublicKey Scalar) ∈
            matches_found.entries ∧
          (⟨pk, coin.tweak⟩ : Σ _ : XOnlyPublicKey, Scalar) ∈ pubkey_map.entries := by
  obtain ⟨kernel_tx, htx, inputs, output_index, tweak, label, hmatch, hcoin⟩ :=
    mem_scan_block_inner hfound hmem
  obtain ⟨out, hout, rfl, rfl⟩ := found_coin_eq_some_iff.mp hcoin
  obtain ⟨pk, shared_secret, matches_found, pubkey_map, houtput, hscan, hlabel, hkey⟩ :=
    mem_scan_transaction hmatch
  obtain ⟨out', hout', hparse⟩ := mem_taproot_outputs.mp houtput
  obtain rfl : out' = out := Option.some.inj (hout'.symm.trans hout)
  refine ⟨List.mem_map_of_mem htx, ?_, rfl, pk, hparse, shared_secret, _, matches_found, label,
    pubkey_map, hscan,
    hlabel, hkey⟩
  -- the null outpoint's index is out of range for a transaction's outputs
  intro hnull
  have hvout : (UInt32.ofNat output_index).toNat = 0xffffffff := by
    rw [show UInt32.ofNat output_index = 0xffffffff from congrArg OutPoint.vout hnull]
    rfl
  have hindex := (List.getElem?_eq_some_iff.mp hout).1
  have hbound := kernel_tx.outputs_indexed
  rw [UInt32.toNat_ofNat_of_lt' (by simpa [UInt32.size] using hindex.trans hbound)] at hvout
  omega

end wallet
