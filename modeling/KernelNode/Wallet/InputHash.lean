import KernelNode.Wallet.Scanning

open bitcoin secp256k1 silentpayments std.collections

namespace wallet

/-- The key an input contributes; an input without one is ineligible. -/
def InputData.pubkey (spInst : silentpayments.Api) (self : InputData) : Option PublicKey :=
  match spInst.get_pubkey_from_input self.script_sig self.witness self.prevout_script with
  | .ok (some pk) => some pk
  | _ => none

/-- Whether an input is one of those that BIP-352 derives a shared secret from. -/
def InputData.Eligible (spInst : silentpayments.Api) (self : InputData) : Prop :=
  (self.pubkey spInst).isSome

instance (spInst : silentpayments.Api) : DecidablePred (InputData.Eligible spInst) :=
  fun self => inferInstanceAs (Decidable ((self.pubkey spInst).isSome = true))

/-- The input loop keeps the keys and the outpoints of the eligible inputs. -/
theorem collect_inputs_eq (spInst : silentpayments.Api) (inputs : List InputData) :
    collect_inputs spInst inputs =
      (inputs.filterMap (InputData.pubkey spInst),
        (inputs.filter fun input => input.Eligible spInst).map InputData.outpoint) := by
  induction inputs with
  | nil => rfl
  | cons input inputs ih =>
    cases hkey : spInst.get_pubkey_from_input input.script_sig input.witness
      input.prevout_script with
    | error e => simp [collect_inputs, InputData.pubkey, InputData.Eligible, hkey, ih]
    | ok key => cases key <;> simp [collect_inputs, InputData.pubkey, InputData.Eligible, hkey, ih]

/-- The library's tweak depends on the outpoints through the smallest only. -/
def HashesSmallest (spInst : silentpayments.Api) : Prop :=
  ∃ hash : List PublicKey → Option silentpayments.utils.OutPoint →
    Except silentpayments.Error PublicKey,
    ∀ keys outpoints, spInst.calculate_tweak_data keys outpoints = hash keys outpoints.min?

/-- The receiver of BIP-352: the tweak hashes the smallest outpoint of all
    inputs, eligible or not, with the sum of the eligible keys. -/
def bip352_scan_transaction (spInst : silentpayments.Api) (receiver : Receiver) (b_scan : SecretKey)
    (inputs : List InputData) (taproot_outputs : List (Nat × XOnlyPublicKey)) :
    List (Nat × Scalar × Option Label) :=
  scan_outputs spInst receiver b_scan (inputs.filterMap (InputData.pubkey spInst))
    (inputs.map InputData.outpoint) taproot_outputs

/-- Some eligible input spends the smallest outpoint of the transaction. -/
def SmallestEligible (spInst : silentpayments.Api) (inputs : List InputData) : Prop :=
  ∃ input ∈ inputs, input.Eligible spInst ∧ ∀ other ∈ inputs, input.outpoint ≤ other.outpoint

theorem min?_collect_inputs_eq_iff (spInst : silentpayments.Api) {inputs : List InputData}
    (hsome : ∃ input ∈ inputs, input.Eligible spInst) :
    (collect_inputs spInst inputs).2.min? = (inputs.map InputData.outpoint).min? ↔
      SmallestEligible spInst inputs := by
  rw [collect_inputs_eq]
  constructor
  · intro hmin
    obtain ⟨input, hinput, heligible⟩ := hsome
    obtain ⟨smallest, hsmallest⟩ : ∃ smallest, (inputs.map InputData.outpoint).min? =
      some smallest := by
      cases hmin? : (inputs.map InputData.outpoint).min? with
      | some smallest => exact ⟨smallest, rfl⟩
      | none => simp_all
    rw [hsmallest] at hmin
    obtain ⟨hmem, _⟩ := List.min?_eq_some_iff.mp hmin
    obtain ⟨_, hle⟩ := List.min?_eq_some_iff.mp hsmallest
    obtain ⟨least, hleast, rfl⟩ := List.mem_map.mp hmem
    rw [List.mem_filter, decide_eq_true_eq] at hleast
    exact ⟨least, hleast.1, hleast.2, fun other hother => hle _ (List.mem_map_of_mem hother)⟩
  · rintro ⟨input, hinput, heligible, hle⟩
    have hall : (inputs.map InputData.outpoint).min? = some input.outpoint := by
      refine List.min?_eq_some_iff.mpr ⟨List.mem_map_of_mem hinput, ?_⟩
      intro other hother
      obtain ⟨source, hsource, rfl⟩ := List.mem_map.mp hother
      exact hle source hsource
    rw [hall]
    refine List.min?_eq_some_iff.mpr
      ⟨List.mem_map_of_mem (List.mem_filter.mpr ⟨hinput, by simpa using heligible⟩), ?_⟩
    intro other hother
    obtain ⟨source, hsource, rfl⟩ := List.mem_map.mp hother
    exact hle source (List.mem_of_mem_filter hsource)

/-- The input loop hands over the outpoint that BIP-352 hashes exactly when an
    eligible input spends it, and then the wallet scans as BIP-352 says, whatever
    ineligible inputs the transaction has. -/
theorem scan_transaction_smallest_iff (spInst : silentpayments.Api) (hhash : HashesSmallest spInst)
    (inputs : List InputData) (hsome : ∃ input ∈ inputs, input.Eligible spInst) :
    ((collect_inputs spInst inputs).2.min? = (inputs.map InputData.outpoint).min? ↔
      SmallestEligible spInst inputs) ∧
    (SmallestEligible spInst inputs → ∀ receiver b_scan taproot_outputs,
      scan_transaction spInst receiver b_scan inputs taproot_outputs =
        bip352_scan_transaction spInst receiver b_scan inputs taproot_outputs) := by
  refine ⟨min?_collect_inputs_eq_iff spInst hsome, ?_⟩
  intro hsmallest receiver b_scan taproot_outputs
  obtain ⟨hash, hhash⟩ := hhash
  have hmin := (min?_collect_inputs_eq_iff spInst hsome).mpr hsmallest
  rw [collect_inputs_eq] at hmin
  simp only [scan_transaction, bip352_scan_transaction, scan_outputs, find_keys,
    collect_inputs_eq, hhash, hmin]

theorem regtest_hashes_smallest : HashesSmallest regtest.sp :=
  ⟨regtest.tweak_data, fun _ _ => rfl⟩

/-- An input of the sender, with the key in its witness. -/
def sender_input (outpoint : OutPoint) : InputData where
  script_sig := []
  witness := regtest.sender_witness
  prevout_script := regtest.sender_script
  outpoint := .from_outpoint outpoint

/-- An input that spends a script hash, which yields no key. -/
def script_hash_input (outpoint : OutPoint) : InputData where
  script_sig := []
  witness := [[0x51]]
  prevout_script := 0x00 :: 0x20 :: List.replicate 32 0x07
  outpoint := .from_outpoint outpoint

/-- The output key of the sender's derivation from the smaller outpoint. -/
def mixed_output_key : XOnlyPublicKey :=
  regtest.x_only 0x6add6f25965c6128539f95fb3f8c839a4f2621779ef5b5688633dd4cbb14b454

/-- The smallest outpoint belongs to an eligible input: the payment is found. -/
theorem scan_transaction_smallest_eligible_found :
    scan_transaction regtest.sp regtest.receiver regtest.scan_key
        [script_hash_input ⟨regtest.txid 0xcd, 0⟩, sender_input ⟨regtest.txid 0x03, 0⟩]
          [(0, mixed_output_key)] =
      [(0, 0x10b7ea1cbac55c6397728b09cb02ae19c27fb734a1aa85ae6acb462996ddf151, none)] := by
  obtain ⟨_, hscan⟩ := scan_transaction_smallest_iff regtest.sp regtest_hashes_smallest
    [script_hash_input ⟨regtest.txid 0xcd, 0⟩, sender_input ⟨regtest.txid 0x03, 0⟩]
    (by decide +kernel)
  rw [hscan (by unfold SmallestEligible; decide +kernel)]
  decide +kernel

/-- The smallest outpoint belongs to an ineligible input: the sender hashes it,
    the input loop drops it, and the payment is missed. -/
theorem scan_transaction_smallest_ineligible_missed :
    HashesSmallest regtest.sp ∧
    (∃ input ∈ [sender_input ⟨regtest.txid 0xcd, 0⟩, script_hash_input ⟨regtest.txid 0x03, 0⟩],
      input.Eligible regtest.sp) ∧
    (collect_inputs regtest.sp
        [sender_input ⟨regtest.txid 0xcd, 0⟩, script_hash_input ⟨regtest.txid 0x03, 0⟩]).2.min? ≠
      ([sender_input ⟨regtest.txid 0xcd, 0⟩, script_hash_input ⟨regtest.txid 0x03, 0⟩].map
        InputData.outpoint).min? ∧
    bip352_scan_transaction regtest.sp regtest.receiver regtest.scan_key
        [sender_input ⟨regtest.txid 0xcd, 0⟩, script_hash_input ⟨regtest.txid 0x03, 0⟩]
          [(0, mixed_output_key)] =
      [(0, 0x10b7ea1cbac55c6397728b09cb02ae19c27fb734a1aa85ae6acb462996ddf151, none)] ∧
    scan_transaction regtest.sp regtest.receiver regtest.scan_key
        [sender_input ⟨regtest.txid 0xcd, 0⟩, script_hash_input ⟨regtest.txid 0x03, 0⟩]
          [(0, mixed_output_key)] =
      [] := by
  refine ⟨regtest_hashes_smallest, ?_⟩
  decide +kernel

end wallet
