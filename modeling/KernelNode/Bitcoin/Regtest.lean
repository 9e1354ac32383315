import Mathlib.Algebra.Group.End
import KernelNode.Bitcoin.Keys

open bitcoin secp256k1 silentpayments std.collections

namespace regtest

/-- Exchange the numbers of every pair. -/
def relabel (known : List (Nat × Nat)) : Equiv.Perm Nat :=
  (known.map fun pair => Equiv.swap pair.1 pair.2).prod

theorem relabel_lt {known : List (Nat × Nat)} {bound value : Nat}
    (hknown : ∀ pair ∈ known, pair.1 < bound ∧ pair.2 < bound) (hvalue : value < bound) :
    relabel known value < bound := by
  induction known with
  | nil => exact hvalue
  | cons pair known ih =>
    have hrest := ih fun other hother => hknown other (List.mem_cons_of_mem _ hother)
    obtain ⟨hfirst, hsecond⟩ := hknown pair List.mem_cons_self
    have hcons : relabel (pair :: known) value = Equiv.swap pair.1 pair.2 (relabel known value) :=
      rfl
    rw [hcons, Equiv.swap_apply_def]
    split_ifs <;> assumption

/-- The secret keys whose points the fixtures use, up to their sign, with the x
    coordinates of those points on the curve. All of them have an even y coordinate
    and lie in the lower half of the scalars. -/
def known_points : List (Nat × Nat) := [
  (1, 0x79be667ef9dcbbac55a06295ce870b07029bfcdb2dce28d959f2815b16f81798),
  (2, 0xc6047f9441ed7d6d3045406e95c07cd85c778e4b8cef3ca7abac09b95c709ee5),
  (3, 0xf9308a019258c31049344f85f89d5229b531c845836f99b08601f113bce036f9),
  (4, 0xe493dbf1c10d80f3581e4904930b1404cc6c13900ee0758474fa94abe8c4cd13),
  (5, 0x2f8bde4d1a07209355b4a7250a5c5128e88b84bddc619ab7cba8d569b240efe4),
  (0x6667beaa99b4db115627001fb069e6f83469b9d1658458db6b179b50d21fb082,
    0x0b07c80c1dc682ae6e10f38bd3996e154695f3edba886c8b988d8a9762bb007a),
  (0x10b7ea1cbac55c6397728b09cb02ae19c27fb734a1aa85ae6acb462996ddf153,
    0x6add6f25965c6128539f95fb3f8c839a4f2621779ef5b5688633dd4cbb14b454),
  (0x0e0585985b621251716926f19fe7751556a389d1b979b0525e6b8da00db10396,
    0x4307fad518b0c0cf20c6aa4f6a53e2908c376f8c9d9d045efac952b1812a0ce6),
  (0x685e505b8e8219e1515371514a393584b89fd8cfb3e7fedd38c11ec0470c6c72,
    0xee8b2dabc908cd1ef820682c13c7d009c0d253fdc52af62d2a4487f479e07f94),
  (0x0171bcaaf04fe3b467724031e998a8e7d3c4c889552e166a2b726b7661d96a5c,
    0x969fafb15e127108c9ec2d6d33e4bea4306e1b88b3e1a146c862fa64d3e69343)]

/-- The secret key or its negation, whichever is in the lower half. -/
def lower_half (scalar : Nat) : Nat :=
  if scalar ≤ CURVE_ORDER / 2 then scalar else CURVE_ORDER - scalar

/-- Points by their discrete logarithm: the x coordinate stands for the scalar
    up to its sign and the parity for the sign. The known points have their
    coordinates on the curve. -/
def public_key (key : SecretKey) : PublicKey where
  x := ⟨std.bytes.to_be 32 (relabel known_points (lower_half key.scalar.val))⟩
  parity := if key.scalar.val ≤ CURVE_ORDER / 2 then .Even else .Odd

/-- The secret key with the given scalar in the lower half. -/
def from_lower_half (scalar : Nat) (h : 0 < scalar ∧ scalar ≤ CURVE_ORDER / 2) : SecretKey where
  scalar := ⟨scalar, h.2.trans_lt (by decide)⟩
  ne_zero hzero := h.1.ne' (congrArg Fin.val hzero)

/-- The secret key of a point. -/
def discrete_log (point : PublicKey) : Option SecretKey :=
  let scalar := (relabel known_points).symm (std.bytes.of_be point.x.bytes.toList)
  if h : 0 < scalar ∧ scalar ≤ CURVE_ORDER / 2 then
    match point.parity with
    | .Even => some (from_lower_half scalar h)
    | .Odd => some (from_lower_half scalar h).negate
  else none

theorem lower_half_spec (key : SecretKey) :
    0 < lower_half key.scalar.val ∧ lower_half key.scalar.val ≤ CURVE_ORDER / 2 := by
  have hlt := key.scalar.isLt
  have hpos := key.val_pos
  have hodd : CURVE_ORDER % 2 = 1 := by decide
  simp only [lower_half]
  split <;> omega

theorem relabel_symm_x (key : SecretKey) :
    (relabel known_points).symm (std.bytes.of_be (public_key key).x.bytes.toList) =
      lower_half key.scalar.val := by
  have hlower := lower_half_spec key
  have hbound : lower_half key.scalar.val < 256 ^ 32 := hlower.2.trans_lt (by decide)
  have hrelabel : relabel known_points (lower_half key.scalar.val) < 256 ^ 32 :=
    relabel_lt (by decide) hbound
  simp only [public_key]
  rw [std.bytes.of_be_to_be, Nat.mod_eq_of_lt hrelabel, Equiv.symm_apply_apply]

theorem discrete_log_public_key (key : SecretKey) : discrete_log (public_key key) = some key := by
  have hlower := lower_half_spec key
  simp only [discrete_log, relabel_symm_x, hlower, and_self, dite_true]
  by_cases hhalf : key.scalar.val ≤ CURVE_ORDER / 2
  · simp only [public_key, hhalf, if_true, Option.some.injEq]
    exact SecretKey.eq_of_val (if_pos hhalf)
  · simp only [public_key, hhalf, if_false, Option.some.injEq]
    apply SecretKey.eq_of_val
    have hlt := key.scalar.isLt
    rw [SecretKey.val_negate]
    simp only [from_lower_half, lower_half, hhalf, if_false]
    omega

theorem negate_lower_half (key : SecretKey) :
    lower_half key.negate.scalar.val = lower_half key.scalar.val ∧
      (key.negate.scalar.val ≤ CURVE_ORDER / 2 ↔ ¬ key.scalar.val ≤ CURVE_ORDER / 2) := by
  have hlt := key.scalar.isLt
  have hpos := key.val_pos
  have hodd : CURVE_ORDER % 2 = 1 := by decide
  rw [SecretKey.val_negate]
  simp only [lower_half]
  split <;> split <;> omega

/-- A transaction that sends one coin of the receiver back to the sender: the
    byte that the coin's transaction id repeats, the digest and its signature
    under the coin's key, and the transaction id as it is displayed. -/
structure SendBack where
  byte : UInt8
  digest : List.Vector UInt8 32
  signature : List.Vector UInt8 64
  txid : String

def first_send_back : SendBack where
  byte := 0xaa
  digest := std.bytes.to_be 32 0x26b8d7f40b5678246b4e520fbac4fbc65f86dfb61eb988a855f693e081bd5b96
  signature := std.bytes.to_be 64
    0x6d91ed08da5815dbd15ff5badc60ab7cfcb4715290fd9ea5729a21994d6c52d264795f9d23040cb572782bdd3ccde146a81061e487fa76a17484e15642c62cbc
  txid := "066627eaada59ff37b49a2714852954fe3d86c5214d46994d30040c457bb8be8"

def second_send_back : SendBack where
  byte := 0xab
  digest := std.bytes.to_be 32 0xfe00e3cb5f358a30476d4d6fa59c18506da207c1a35d71899b935b75f8e5acc8
  signature := std.bytes.to_be 64
    0x2026ceca8256149806e3f3b42f2586230581b7df6d185786f0a3e9106154b4535ae913a973ff05694ff6042273dcacd06b22b7f313ed09e3d6956fcc533f4073
  txid := "b6c164c08b461f55a58c8c3dc387e0614a5a79b4d8dbd2ca18cfe629edc92cb7"

def send_backs : List SendBack := [first_send_back, second_send_back]

/-- The curve operations on points given by their discrete logarithm. -/
def secp : secp256k1.Api where
  public_key := public_key
  add_exp_tweak point tweak := (discrete_log point).bind fun key =>
    (key.add_tweak tweak).map public_key
  is_x_coordinate bytes := (discrete_log ⟨⟨bytes⟩, .Even⟩).isSome
  sign_schnorr digest _ :=
    ((send_backs.find? fun spend => spend.digest = digest).map SendBack.signature).getD
    (List.Vector.replicate 64 0)

theorem secp_lawful : secp.Lawful where
  add_exp_tweak_public_key key tweak := by simp [secp, discrete_log_public_key]
  negate_x key := by simp only [secp, public_key, negate_lower_half]
  negate_parity key := by
    obtain ⟨_, hparity⟩ := negate_lower_half key
    simp only [secp, public_key, hparity]
    by_cases hhalf : key.scalar.val ≤ CURVE_ORDER / 2 <;> simp [hhalf]

def secret (scalar : Scalar) (h : scalar ≠ 0) : SecretKey := ⟨scalar, h⟩

def point (x : Nat) (parity : Parity) : PublicKey := ⟨⟨std.bytes.to_be 32 x⟩, parity⟩

/-- The receiver's keys and the key of the sender's inputs. -/
def scan_key : SecretKey := secret 3 (by decide)
def spend_secret : SecretKey := secret 2 (by decide)
def sender_key : PublicKey := public_key (secret 1 (by decide))

def receiver : Receiver where
  version := 0
  scan_pubkey := public_key scan_key
  spend_pubkey := public_key spend_secret
  change_label := ⟨0x7237f61ea1761bc238d6dc420d77df567575dab14302d497a60b81df0a1cc0cd⟩
  network := .Regtest

def txid (byte : UInt8) : Txid := ⟨List.Vector.replicate 32 byte⟩
def block_hash (byte : UInt8) : BlockHash := ⟨List.Vector.replicate 32 byte⟩

/-- A sender's derivation for the receiver above from one input key and the
    smallest outpoint, as BIP-352 computes it, with the tweaks and the keys of its
    outputs in their order. -/
structure Derivation where
  smallest : OutPoint
  tweak_data : PublicKey
  shared_secret : PublicKey
  outputs : List (Scalar × XOnlyPublicKey)

def x_only (x : Nat) : XOnlyPublicKey := ⟨std.bytes.to_be 32 x⟩

def derivations : List Derivation := [
  { smallest := ⟨txid 0xcd, 0⟩
    tweak_data := point 0x671aeb3a49967abedbe68f3798fd068de674acadee125d2d255e9f3475fc4b9f .Odd
    shared_secret := point 0x6b26869d6fc7f4e8b7f899a80965ed7b731b3051ca18895daf75ce01316d59c4 .Even
    outputs := [(0x6667beaa99b4db115627001fb069e6f83469b9d1658458db6b179b50d21fb080,
      x_only 0x0b07c80c1dc682ae6e10f38bd3996e154695f3edba886c8b988d8a9762bb007a)] },
  { smallest := ⟨txid 0x03, 0⟩
    tweak_data := point 0x8fd6eae97e5c5da3abec4cd556276cab423d824a5f9c9ba9facd2730c61f6ce5 .Odd
    shared_secret := point 0x4a9b7c7e16dd8bc1407a1a4acf7191eabd2c1dc596c9cbf42d1acc70e2723b63 .Even
    outputs := [(0x10b7ea1cbac55c6397728b09cb02ae19c27fb734a1aa85ae6acb462996ddf151,
        x_only 0x6add6f25965c6128539f95fb3f8c839a4f2621779ef5b5688633dd4cbb14b454),
      (0xf1fa7a67a49dedae8e96d90e60188ae9640b5314f5ceefe96166d0ecc2853da9,
        x_only 0x4307fad518b0c0cf20c6aa4f6a53e2908c376f8c9d9d045efac952b1812a0ce6)] }]

/-- The scan goes on to the next output while it finds one. -/
def Derivation.found (self : Derivation) (outputs : List XOnlyPublicKey) :
    List (Σ _ : XOnlyPublicKey, Scalar) :=
  (self.outputs.takeWhile fun output => output.2 ∈ outputs).map fun output =>
    ⟨output.2, output.1⟩

def p2wpkh (program : List.Vector UInt8 20) : List UInt8 := 0x00 :: 0x14 :: program.toList
def p2tr (output_key : XOnlyPublicKey) : List UInt8 := 0x51 :: 0x20 :: output_key.bytes.toList

/-- The sender's output script and the witness that spends it. -/
def sender_script : List UInt8 :=
    p2wpkh (std.bytes.to_be 20 0x751e76e8199196d454941c45d1b3a323f1433bd6)
def sender_witness : List (List UInt8) := [[0x30], 0x02 :: sender_key.x.bytes.toList]

/-- The tweak data of the sender's key and the smallest outpoint. -/
def tweak_data (keys : List PublicKey) (smallest : Option utils.OutPoint) :
    Except silentpayments.Error PublicKey :=
  match derivations.find? fun derivation =>
    keys = [sender_key] ∧ smallest = some (.from_outpoint derivation.smallest) with
  | some derivation => .ok derivation.tweak_data
  | none => .error ⟨"unknown inputs"⟩

/-- The silent payments library on the fixtures' keys and transactions: a
    pay-to-witness-key-hash input has the key in its witness, and the values
    that hashes decide are looked up. -/
def sp : silentpayments.Api where
  silent_payment_code_from_str _ := none
  label_new _ _ := ⟨0x7237f61ea1761bc238d6dc420d77df567575dab14302d497a60b81df0a1cc0cd⟩
  receiver_new version scan_pubkey spend_pubkey change_label network :=
    .ok { version, scan_pubkey, spend_pubkey, change_label, network }
  receiving_code receiver := ⟨receiver.scan_pubkey, receiver.spend_pubkey, receiver.network⟩
  change_code receiver := ⟨receiver.scan_pubkey,
    point 0x92a291c3b40489876c258d54956a0b3d16e5bd30205c46ffc32b58e08d9547aa .Odd, receiver.network⟩
  get_pubkey_from_input _ witness prevout_script :=
    .ok (if prevout_script = sender_script ∧ witness = sender_witness then some sender_key
      else none)
  calculate_tweak_data keys outpoints := tweak_data keys outpoints.min?
  calculate_ecdh_shared_secret tweak_data key :=
    match derivations.find? fun derivation => derivation.tweak_data = tweak_data ∧
      key = scan_key with
    | some derivation => derivation.shared_secret
    | none => tweak_data
  scan_transaction receiver shared_secret outputs :=
    match derivations.find? fun derivation =>
      receiver.spend_pubkey = public_key spend_secret ∧ derivation.shared_secret = shared_secret ∧
        derivation.found outputs ≠ [] with
    | some derivation => .ok (AList.singleton none (derivation.found outputs).toAList)
    | none => .ok ∅
  calculate_partial_secret _ _ := .error ⟨"unknown inputs"⟩
  generate_recipient_pubkeys _ _ := .error ⟨"unknown recipient"⟩

theorem derivations_output_key : ∀ derivation ∈ derivations, ∀ output ∈ derivation.outputs,
    ∃ point, secp.add_exp_tweak (public_key spend_secret) output.1 = some point ∧
      point.x = output.2 := by
  have hkeys : ∀ derivation ∈ derivations, ∀ output ∈ derivation.outputs,
      (secp.add_exp_tweak (public_key spend_secret) output.1).map PublicKey.x =
      some output.2 := by
    decide +kernel
  exact fun derivation hmem output houtput =>
    Option.map_eq_some_iff.mp (hkeys derivation hmem output houtput)

theorem sp_lawful : sp.Lawful secp where
  receiver_new_spend_pubkey hreceiver := by
    cases hreceiver
    rfl
  scan_transaction_key {receiver shared_secret outputs found label pubkey_map pk tweak} hscan
    hlabel hkey := by
    simp only [sp] at hscan
    split at hscan
    · rename_i derivation hfind
      cases hscan
      obtain ⟨hspend, _⟩ : receiver.spend_pubkey = public_key spend_secret ∧ _ := by
        simpa using List.find?_some hfind
      cases List.mem_singleton.mp hlabel
      have hlookup := AList.mem_lookup_iff.mpr hkey
      rw [AList.lookup_to_alist] at hlookup
      have hfound := List.of_mem_dlookup hlookup
      obtain ⟨output, houtput, hpair⟩ := List.mem_map.mp hfound
      cases hpair
      rw [hspend]
      exact derivations_output_key derivation (List.mem_of_find?_eq_some hfind) output
        ((List.takeWhile_sublist _).subset houtput)
    · cases hscan
      cases hlabel

def coinbase (byte : UInt8) (outputs : List bitcoinkernel.TxOut) (h : outputs.length < 2 ^ 32) :
    bitcoinkernel.Transaction :=
  ⟨txid byte, [⟨.null, [], []⟩], outputs, h⟩

/-- The script of the payment's output. -/
def payment_script : List UInt8 :=
  p2tr (x_only 0x0b07c80c1dc682ae6e10f38bd3996e154695f3edba886c8b988d8a9762bb007a)

/-- A block that funds the sender, the block with the payment to the receiver,
    and a block that spends the payment. -/
def funding_block : bitcoinkernel.Block :=
  ⟨⟨block_hash 1, block_hash 0⟩, [coinbase 0xcd [⟨20000, sender_script⟩] (by decide)]⟩

def payment_block : bitcoinkernel.Block :=
  ⟨⟨block_hash 2, block_hash 1⟩, [coinbase 0xc2 [] (by decide),
    ⟨txid 0xaa, [⟨⟨txid 0xcd, 0⟩, [], sender_witness⟩], [⟨10000, payment_script⟩], by decide⟩]⟩

def spending_block : bitcoinkernel.Block :=
  ⟨⟨block_hash 3, block_hash 2⟩, [coinbase 0xc3 [] (by decide),
    ⟨txid 0xbb, [⟨⟨txid 0xaa, 0⟩, [], []⟩], [⟨9700, sender_script⟩], by decide⟩]⟩

def payment_spent : bitcoinkernel.BlockSpentOutputs := ⟨[⟨[⟨20000, sender_script⟩]⟩]⟩

def spending_spent : bitcoinkernel.BlockSpentOutputs := ⟨[⟨[⟨10000, payment_script⟩]⟩]⟩

end regtest
