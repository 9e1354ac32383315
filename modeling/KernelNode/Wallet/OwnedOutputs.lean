import KernelNode.Bitcoin.Regtest
import KernelNode.Wallet.Scanning

open bitcoin secp256k1 silentpayments std.collections

namespace wallet

/-- The tweak of a key under a label. -/
def FoundKeys.tweak (self : FoundKeys) (label : Option Label) (pk : XOnlyPublicKey) :
    Option Scalar :=
  (self.lookup label).bind fun pubkey_map => pubkey_map.lookup pk

/-- The result of the receiver's scan in `scan_transaction`, `none` where it
    returns before or instead. -/
def receiver_scan (spInst : silentpayments.Api) (receiver : Receiver) (b_scan : SecretKey)
    (inputs : List InputData) (outputs : List (Nat × XOnlyPublicKey)) : Option FoundKeys :=
  let (input_pub_keys, outpoints) := collect_inputs spInst inputs
  find_keys spInst receiver b_scan input_pub_keys outpoints outputs

/-- No key that was found is the key of two outputs. -/
def FoundKeys.CarriedOnce (self : FoundKeys) (outputs : List (Nat × XOnlyPublicKey)) : Prop :=
  ∀ index other pk label tweak, self.tweak label pk = some tweak → (index, pk) ∈ outputs →
    (other, pk) ∈ outputs → index = other

section

variable {spInst : silentpayments.Api} {receiver : Receiver} {b_scan : SecretKey}
  {inputs : List InputData} {outputs : List (Nat × XOnlyPublicKey)} {found : FoundKeys}

theorem FoundKeys.tweak_eq_some_iff {label : Option Label} {pk : XOnlyPublicKey} {tweak : Scalar} :
    found.tweak label pk = some tweak ↔ ∃ pubkey_map,
      (⟨label, pubkey_map⟩ : Σ _ : Option Label, HashMap XOnlyPublicKey Scalar) ∈ found.entries ∧
      (⟨pk, tweak⟩ : Σ _ : XOnlyPublicKey, Scalar) ∈ pubkey_map.entries := by
  simp only [FoundKeys.tweak, Option.bind_eq_some_iff, ← AList.mem_lookup_iff, Option.mem_def]

/-- The matches of a scan: for every key that was found, the first output that
    carries it. -/
theorem mem_scan_transaction_iff
    (hfound : receiver_scan spInst receiver b_scan inputs outputs = some found) {index : Nat}
    {tweak : Scalar} {label : Option Label} :
    (index, tweak, label) ∈ scan_transaction spInst receiver b_scan inputs outputs ↔
      ∃ pk, found.tweak label pk = some tweak ∧
        outputs.find? (fun output => output.2 = pk) = some (index, pk) := by
  simp only [receiver_scan] at hfound
  simp only [scan_transaction, scan_outputs, hfound, List.mem_flatMap, List.mem_filterMap,
    Option.map_eq_some_iff, Prod.mk.injEq, FoundKeys.tweak_eq_some_iff]
  constructor
  · rintro ⟨⟨_, pubkey_map⟩, hlabel, ⟨pk, _⟩, hkey, ⟨_, output_key⟩, hfind, rfl, rfl, rfl⟩
    obtain rfl : output_key = pk := by simpa using List.find?_some hfind
    exact ⟨output_key, ⟨pubkey_map, hlabel, hkey⟩, hfind⟩
  · rintro ⟨pk, ⟨pubkey_map, hlabel, hkey⟩, hfind⟩
    exact ⟨_, hlabel, _, hkey, (index, pk), hfind, rfl, rfl, rfl⟩

/-- Every output whose key was found is matched exactly where no such key is
    carried twice. -/
theorem scan_transaction_complete_iff
    (hfound : receiver_scan spInst receiver b_scan inputs outputs = some found)
    (hindex : ∀ index pk other, (index, pk) ∈ outputs → (index, other) ∈ outputs → pk = other) :
    (∀ index pk label tweak, (index, pk) ∈ outputs → found.tweak label pk = some tweak →
      (index, tweak, label) ∈ scan_transaction spInst receiver b_scan inputs outputs) ↔
      found.CarriedOnce outputs := by
  simp only [mem_scan_transaction_iff hfound]
  constructor
  · intro hcomplete index other pk label tweak htweak houtput hother
    -- both outputs are the first one with the key
    obtain ⟨first, _, hfirst⟩ := hcomplete index pk label tweak houtput htweak
    obtain ⟨second, _, hsecond⟩ := hcomplete other pk label tweak hother htweak
    obtain rfl := hindex index pk first houtput (List.mem_of_find?_eq_some hfirst)
    obtain rfl := hindex other pk second hother (List.mem_of_find?_eq_some hsecond)
    rw [hfirst, Option.some.injEq, Prod.mk.injEq] at hsecond
    exact hsecond.1
  · intro honce index pk label tweak houtput htweak
    refine ⟨pk, htweak, ?_⟩
    cases hfind : outputs.find? fun output => output.2 = pk with
    | none => simpa using List.find?_eq_none.mp hfind _ houtput
    | some output =>
      obtain ⟨other, output_key⟩ := output
      obtain rfl : output_key = pk := by simpa using List.find?_some hfind
      rw [honce index other output_key label tweak htweak houtput (List.mem_of_find?_eq_some hfind)]

end

section

variable {secpInst : secp256k1.Api} {spInst : silentpayments.Api} {receiver : Receiver}
  {b_scan : SecretKey} {block_height : UInt32} {kernel_tx : bitcoinkernel.Transaction}
  {tx_spent : bitcoinkernel.TransactionSpentOutputs} {inputs : List InputData}

theorem taproot_outputs_index {index : Nat} {pk other : XOnlyPublicKey}
    (hpk : (index, pk) ∈ taproot_outputs secpInst kernel_tx)
    (hother : (index, other) ∈ taproot_outputs secpInst kernel_tx) : pk = other := by
  obtain ⟨out, hout, hparse⟩ := mem_taproot_outputs.mp hpk
  obtain ⟨out', hout', hparse'⟩ := mem_taproot_outputs.mp hother
  obtain rfl : out = out' := Option.some.inj (hout.symm.trans hout')
  exact Option.some.inj (hparse.symm.trans hparse')

/-- A match determines its coin and the coin its match. -/
theorem found_coin_eq_owned_iff {index other : Nat} {out : bitcoinkernel.TxOut}
    {tweak other_tweak : Scalar} {label other_label : Option Label}
    (hout : kernel_tx.outputs[index]? = some out) :
    found_coin kernel_tx block_height (other, other_tweak, other_label) =
        some (owned_coin kernel_tx block_height index out tweak label) ↔
      (other, other_tweak, other_label) = (index, tweak, label) := by
  rw [owned_coin, found_coin_eq_some_iff]
  constructor
  · rintro ⟨other_out, hother, houtpoint, hcoin⟩
    simp only [OutPoint.mk.injEq, true_and] at houtpoint
    simp only [Coin.mk.injEq] at hcoin
    obtain ⟨_, _, rfl, hlabel, _⟩ := hcoin
    have hsize : ∀ position output, kernel_tx.outputs[position]? = some output →
        position < UInt32.size := by
      intro position output houtput
      exact (List.getElem?_eq_some_iff.mp houtput).1.trans kernel_tx.outputs_indexed
    have hindex : index = other := by
      have hnat := congrArg UInt32.toNat houtpoint
      rwa [UInt32.toNat_ofNat_of_lt' (hsize _ _ hout), UInt32.toNat_ofNat_of_lt'
        (hsize _ _ hother)] at hnat
    have hinner : Function.Injective Label.inner := by
      rintro ⟨left⟩ ⟨right⟩ hsame
      exact congrArg Label.mk hsame
    rw [hindex, Option.map_injective hinner hlabel]
  · rintro ⟨⟩
    exact ⟨out, hout, rfl, rfl⟩

/-- A transaction's coins are those of its matches. -/
theorem owned_coin_mem_iff {part : List (OutPoint × Coin)}
    (hpart : scan_block_tx secpInst spInst receiver b_scan block_height kernel_tx tx_spent =
      some part) (hinputs : input_data kernel_tx tx_spent = some inputs) {index : Nat}
    {pk : XOnlyPublicKey} (houtput : (index, pk) ∈ taproot_outputs secpInst kernel_tx)
    {out : bitcoinkernel.TxOut} (hout : kernel_tx.outputs[index]? = some out) {tweak : Scalar}
    {label : Option Label} :
    owned_coin kernel_tx block_height index out tweak label ∈ part ↔ (index, tweak, label) ∈
      scan_transaction spInst receiver b_scan inputs (taproot_outputs secpInst kernel_tx) := by
  have hsome : (taproot_outputs secpInst kernel_tx).isEmpty = false :=
    List.isEmpty_eq_false_iff.mpr (List.ne_nil_of_mem houtput)
  simp only [scan_block_tx, hsome, Bool.false_eq_true, if_false, hinputs, Option.bind_eq_bind,
    Option.bind_some] at hpart
  constructor
  · intro hcoin
    obtain ⟨⟨other, other_tweak, other_label⟩, hmatch, hfound⟩ :=
      std.option.exists_of_mem_mapM hpart hcoin
    exact (found_coin_eq_owned_iff hout).mp hfound ▸ hmatch
  · intro hmatch
    exact std.option.mem_of_mapM hpart hmatch ((found_coin_eq_owned_iff hout).mpr rfl)

/-- A transaction has a coin for every output whose key was found exactly where
    no such key is carried twice. -/
theorem scan_block_tx_complete_iff {part : List (OutPoint × Coin)} {found : FoundKeys}
    (hpart : scan_block_tx secpInst spInst receiver b_scan block_height kernel_tx tx_spent =
      some part) (hinputs : input_data kernel_tx tx_spent = some inputs)
    (hfound : receiver_scan spInst receiver b_scan inputs (taproot_outputs secpInst kernel_tx) =
      some found) :
    (∀ index pk out label tweak, (index, pk) ∈ taproot_outputs secpInst kernel_tx →
      kernel_tx.outputs[index]? = some out → found.tweak label pk = some tweak →
      owned_coin kernel_tx block_height index out tweak label ∈ part) ↔
      found.CarriedOnce (taproot_outputs secpInst kernel_tx) := by
  rw [← scan_transaction_complete_iff hfound fun _ _ _ => taproot_outputs_index]
  constructor
  · intro hcoins index pk label tweak houtput htweak
    obtain ⟨out, hout, _⟩ := mem_taproot_outputs.mp houtput
    exact (owned_coin_mem_iff hpart hinputs houtput hout).mp
      (hcoins index pk out label tweak houtput hout htweak)
  · intro hmatches index pk out label tweak houtput hout htweak
    exact (owned_coin_mem_iff hpart hinputs houtput hout).mpr
      (hmatches index pk label tweak houtput htweak)

end

/-- `scan_transaction` matches every output whose key the receiver's scan found,
    and `scan_block_inner` records a coin for each of them, exactly where no such
    key is carried by two outputs of the transaction. -/
theorem owned_outputs_found_iff (secpInst : secp256k1.Api) (spInst : silentpayments.Api)
    (receiver : Receiver) (b_scan : SecretKey) :
    (∀ (kernel_tx : bitcoinkernel.Transaction) inputs found,
      receiver_scan spInst receiver b_scan inputs (taproot_outputs secpInst kernel_tx) =
        some found →
      ((∀ index pk label tweak, (index, pk) ∈ taproot_outputs secpInst kernel_tx →
        found.tweak label pk = some tweak → (index, tweak, label) ∈
          scan_transaction spInst receiver b_scan inputs (taproot_outputs secpInst kernel_tx)) ↔
        found.CarriedOnce (taproot_outputs secpInst kernel_tx))) ∧
    ∀ (kernel_block : bitcoinkernel.Block) spent_outputs block_height coins,
      scan_block_inner secpInst spInst receiver b_scan kernel_block spent_outputs block_height =
        some coins →
      ∃ parts, coins = parts.flatten ∧ List.Forall₂ (fun scanned part =>
        ∀ inputs found, input_data scanned.1 scanned.2 = some inputs →
          receiver_scan spInst receiver b_scan inputs (taproot_outputs secpInst scanned.1) =
            some found →
          ((∀ index pk out label tweak, (index, pk) ∈ taproot_outputs secpInst scanned.1 →
            scanned.1.outputs[index]? = some out → found.tweak label pk = some tweak →
            owned_coin scanned.1 block_height index out tweak label ∈ part) ↔
            found.CarriedOnce (taproot_outputs secpInst scanned.1)))
        ((kernel_block.transactions.drop 1).zip spent_outputs.transactions) parts := by
  constructor
  · intro kernel_tx inputs found hfound
    exact scan_transaction_complete_iff hfound fun _ _ _ => taproot_outputs_index
  · intro kernel_block spent_outputs block_height coins hcoins
    simp only [scan_block_inner, Option.bind_eq_bind, Option.bind_eq_some_iff, Option.pure_def,
      Option.some.injEq] at hcoins
    obtain ⟨parts, hparts, rfl⟩ := hcoins
    refine ⟨parts, rfl, (std.option.forall₂_of_mapM hparts).imp ?_⟩
    intro scanned part hpart inputs found hinputs hfound
    exact scan_block_tx_complete_iff hpart hinputs hfound

/-- A payment of the sender's coin at an outpoint in outputs with the given values
    and keys. -/
def regtest_paid (spent : OutPoint) (outputs : List (Int64 × XOnlyPublicKey))
    (h : outputs.length < 2 ^ 32) : bitcoinkernel.Transaction :=
  ⟨regtest.txid 0xaa, [⟨spent, [], regtest.sender_witness⟩],
    outputs.map fun output => ⟨output.1, regtest.p2tr output.2⟩, by rwa [List.length_map]⟩

/-- The inputs of the payment as they are scanned. -/
def regtest_paid_inputs (spent : OutPoint) : List InputData :=
  [⟨[], regtest.sender_witness, regtest.sender_script, .from_outpoint spent⟩]

/-- The keys and the tweaks of the two outputs that BIP-352 derives from the second
    coin of the sender. -/
def regtest_first_key : XOnlyPublicKey :=
  regtest.x_only 0x6add6f25965c6128539f95fb3f8c839a4f2621779ef5b5688633dd4cbb14b454

def regtest_second_key : XOnlyPublicKey :=
  regtest.x_only 0x4307fad518b0c0cf20c6aa4f6a53e2908c376f8c9d9d045efac952b1812a0ce6

def regtest_first_tweak : Scalar :=
  0x10b7ea1cbac55c6397728b09cb02ae19c27fb734a1aa85ae6acb462996ddf151

def regtest_second_tweak : Scalar :=
  0xf1fa7a67a49dedae8e96d90e60188ae9640b5314f5ceefe96166d0ecc2853da9

def regtest_two_keys : bitcoinkernel.Transaction :=
  regtest_paid ⟨regtest.txid 0x03, 0⟩ [(4000, regtest_second_key), (6000, regtest_first_key)]
    (by decide)

def regtest_two_found : FoundKeys :=
  AList.singleton none [⟨regtest_first_key, regtest_first_tweak⟩,
    ⟨regtest_second_key, regtest_second_tweak⟩].toAList

/-- Two outputs with different keys are both found. -/
theorem owned_outputs_found_iff_two_keys :
    ∀ expected ∈ [(0, regtest_second_tweak, none), (1, regtest_first_tweak, none)], expected ∈
      scan_transaction regtest.sp regtest.receiver regtest.scan_key
        (regtest_paid_inputs ⟨regtest.txid 0x03, 0⟩)
        (taproot_outputs regtest.secp regtest_two_keys) := by
  have hfound : receiver_scan regtest.sp regtest.receiver regtest.scan_key
      (regtest_paid_inputs ⟨regtest.txid 0x03, 0⟩)
      (taproot_outputs regtest.secp regtest_two_keys) = some regtest_two_found := by
    rfl
  have houtputs : taproot_outputs regtest.secp regtest_two_keys =
      [(0, regtest_second_key), (1, regtest_first_key)] := by
    decide +kernel
  have hne : regtest_first_key ≠ regtest_second_key := by decide
  have honce : regtest_two_found.CarriedOnce
      (taproot_outputs regtest.secp regtest_two_keys) := by
    rw [houtputs]
    intro index other pk label tweak _ hindex hother
    simp only [List.mem_cons, List.not_mem_nil, or_false, Prod.mk.injEq] at hindex hother
    rcases hindex with ⟨rfl, rfl⟩ | ⟨rfl, rfl⟩ <;>
      rcases hother with ⟨rfl, hkey⟩ | ⟨rfl, hkey⟩
    · rfl
    · exact absurd hkey.symm hne
    · exact absurd hkey hne
    · rfl
  have hmatched := ((owned_outputs_found_iff regtest.secp regtest.sp regtest.receiver
    regtest.scan_key).1 _ _ _ hfound).mpr honce
  rw [houtputs] at hmatched
  rw [houtputs]
  intro expected hexpected
  rcases List.mem_cons.mp hexpected with rfl | hexpected
  · exact hmatched 0 regtest_second_key none _ List.mem_cons_self (by decide +kernel)
  · obtain rfl := List.mem_singleton.mp hexpected
    exact hmatched 1 regtest_first_key none _ (List.mem_cons_of_mem _ List.mem_cons_self)
      (by decide +kernel)

/-- The key and the tweak of the payment from the sender's first coin. -/
def regtest_paid_key : XOnlyPublicKey :=
  regtest.x_only 0x0b07c80c1dc682ae6e10f38bd3996e154695f3edba886c8b988d8a9762bb007a

def regtest_paid_found : FoundKeys :=
  AList.singleton none (AList.singleton regtest_paid_key
    0x6667beaa99b4db115627001fb069e6f83469b9d1658458db6b179b50d21fb080)

def regtest_paid_twice : bitcoinkernel.Transaction :=
  regtest_paid ⟨regtest.txid 0xcd, 0⟩ [(10000, regtest_paid_key), (7000, regtest_paid_key)]
    (by decide)

/-- The second of two outputs with the same key is owned but not found. -/
theorem second_output_missed :
    receiver_scan regtest.sp regtest.receiver regtest.scan_key
      (regtest_paid_inputs ⟨regtest.txid 0xcd, 0⟩)
      (taproot_outputs regtest.secp regtest_paid_twice) = some regtest_paid_found ∧
    (1, regtest_paid_key) ∈ taproot_outputs regtest.secp regtest_paid_twice ∧
    (regtest_paid_found.tweak none regtest_paid_key).isSome ∧
    1 ∉ (scan_transaction regtest.sp regtest.receiver regtest.scan_key
      (regtest_paid_inputs ⟨regtest.txid 0xcd, 0⟩)
      (taproot_outputs regtest.secp regtest_paid_twice)).map Prod.fst ∧
    ∃ coins, scan_block_inner regtest.secp regtest.sp regtest.receiver regtest.scan_key
        ⟨regtest.payment_block.header,
          regtest.payment_block.transactions.take 1 ++ [regtest_paid_twice]⟩
        regtest.payment_spent 2 = some coins ∧
      coins.map Prod.fst = [⟨regtest.txid 0xaa, 0⟩] := by
  refine ⟨rfl, by decide +kernel, by decide, by decide +kernel, _, rfl, by decide +kernel⟩

end wallet
