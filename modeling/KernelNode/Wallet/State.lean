import KernelNode.Bitcoin.Regtest

open bitcoin secp256k1 silentpayments std.collections

namespace wallet

structure SilentPaymentKeys where
  receiver : Receiver
  scan_key : SecretKey
deriving DecidableEq

structure SpentBy where
  txid : Txid
  block_height : UInt32
deriving DecidableEq

structure Coin where
  value : Amount
  script_pubkey : ScriptBuf
  tweak : Scalar
  label : Option Scalar
  block_height : UInt32
  spent_by : Option SpentBy
deriving DecidableEq

structure Wallet where
  scan_height : UInt32
  keys : Option SilentPaymentKeys
  spend_key : Option PublicKey
  spend_secret : Option SecretKey
  network : silentpayments.Network
  utxos : HashMap OutPoint Coin
  reserved : HashSet OutPoint

def Wallet.new (network : silentpayments.Network) : Wallet where
  scan_height := 0
  keys := none
  spend_key := none
  spend_secret := none
  network
  utxos := ∅
  reserved := ∅

def Wallet.from_parts (scan_height : UInt32) (network : silentpayments.Network)
    (utxos : HashMap OutPoint Coin) : Wallet where
  scan_height
  keys := none
  spend_key := none
  spend_secret := none
  network
  utxos
  reserved := ∅

def Wallet.reserve_coins (self : Wallet) (outpoints : List OutPoint) : Wallet :=
  { self with
    reserved := outpoints.foldl (fun reserved outpoint => reserved.insert outpoint ())
      self.reserved }

def Wallet.release_coins (self : Wallet) (outpoints : List OutPoint) : Wallet :=
  { self with
    reserved := outpoints.foldl (fun reserved outpoint => reserved.erase outpoint) self.reserved }

def build_receiver (secpInst : secp256k1.Api) (spInst : silentpayments.Api)
    (b_scan : SecretKey) (b_spend_pub : PublicKey) (network : silentpayments.Network) :
    Except Error Receiver :=
  let scan_pubkey := secpInst.public_key b_scan
  let change_label := spInst.label_new b_scan 0
  spInst.receiver_new 0 scan_pubkey b_spend_pub change_label network

/-- A watch-only import. The stored spend secret, if any, stays as it was. -/
def Wallet.import_keys (secpInst : secp256k1.Api) (spInst : silentpayments.Api) (self : Wallet)
    (scan_key : SecretKey) (spend_xonly : XOnlyPublicKey) : Except Error Wallet := do
  let spend_pub := PublicKey.from_x_only_public_key spend_xonly .Even
  let receiver ← build_receiver secpInst spInst scan_key spend_pub self.network
  return { self with spend_key := some spend_pub, keys := some { receiver, scan_key } }

/-- The spend secret, negated where its point has an odd y coordinate so that it
    matches the even point of the x-only key. -/
def normalized_secret (spend_secret : SecretKey) : Parity → SecretKey
  | .Odd => spend_secret.negate
  | .Even => spend_secret

/-- An import with the spend secret. -/
def Wallet.import_signing_keys (secpInst : secp256k1.Api) (spInst : silentpayments.Api)
    (self : Wallet) (scan_key spend_secret : SecretKey) : Except Error Wallet := do
  let (spend_xonly, parity) := (secpInst.public_key spend_secret).x_only_public_key
  let normalized := normalized_secret spend_secret parity
  let imported ← self.import_keys secpInst spInst scan_key spend_xonly
  return { imported with spend_secret := some normalized }

/-- An import succeeds where the receiver can be built, and changes nothing but
    the keys. -/
theorem Wallet.import_keys_eq_ok_iff (secpInst : secp256k1.Api) (spInst : silentpayments.Api)
    {self imported : Wallet} {scan_key : SecretKey} {spend_xonly : XOnlyPublicKey} :
    self.import_keys secpInst spInst scan_key spend_xonly = .ok imported ↔
      ∃ receiver, build_receiver secpInst spInst scan_key
        (.from_x_only_public_key spend_xonly .Even) self.network =
          .ok receiver ∧
        imported = { self with
          spend_key := some (.from_x_only_public_key spend_xonly .Even), keys :=
            some { receiver, scan_key } } := by
  simp only [import_keys]
  cases build_receiver secpInst spInst scan_key (.from_x_only_public_key spend_xonly .Even)
    self.network with
  | error e => simp [bind, Except.bind]
  | ok receiver => simp [bind, Except.bind, pure, Except.pure, eq_comm]

theorem Wallet.import_signing_keys_eq_ok_iff (secpInst : secp256k1.Api)
    (spInst : silentpayments.Api) {self imported : Wallet} {scan_key spend_secret : SecretKey} :
    self.import_signing_keys secpInst spInst scan_key spend_secret = .ok imported ↔
      ∃ watching, self.import_keys secpInst spInst scan_key (secpInst.public_key spend_secret).x =
        .ok watching ∧
        imported = { watching with
          spend_secret := some (normalized_secret spend_secret
            (secpInst.public_key spend_secret).parity) } := by
  simp only [import_signing_keys, PublicKey.x_only_public_key]
  cases self.import_keys secpInst spInst scan_key (secpInst.public_key spend_secret).x with
  | error e => simp [bind, Except.bind]
  | ok watching => simp [bind, Except.bind, pure, Except.pure, eq_comm]

/-- The normalized secret's point has the x coordinate of the given secret's and
    an even y coordinate. -/
theorem public_key_normalized_secret {secpInst : secp256k1.Api} (hsecp : secpInst.Lawful)
    (spend_secret : SecretKey) :
    secpInst.public_key (normalized_secret spend_secret (secpInst.public_key spend_secret).parity) =
      .from_x_only_public_key (secpInst.public_key spend_secret).x .Even := by
  cases hparity : (secpInst.public_key spend_secret).parity with
  | Even =>
    simp only [normalized_secret]
    rw [PublicKey.from_x_only_public_key, ← hparity]
  | Odd =>
    have hflipped := hsecp.negate_parity spend_secret
    have heven : (secpInst.public_key spend_secret.negate).parity = .Even := by
      rw [hparity] at hflipped
      cases hnegated : (secpInst.public_key spend_secret.negate).parity with
      | Even => rfl
      | Odd => exact absurd hnegated hflipped
    simp only [normalized_secret]
    rw [PublicKey.from_x_only_public_key, ← hsecp.negate_x spend_secret, ← heven]

inductive SpendKey where
  /-- For software wallets. -/
  | Secret (secret : SecretKey)
  /-- For hardware signers and watch-only wallets. -/
  | XOnlyPublic (key : XOnlyPublicKey)
deriving DecidableEq

def SpendKey.xonly (secpInst : secp256k1.Api) : SpendKey → XOnlyPublicKey
  | .Secret sk => (secpInst.public_key sk).x_only_public_key.1
  | .XOnlyPublic pk => pk

structure SilentPaymentKeysFile where
  scan_key : SecretKey
  spend_key : SpendKey
deriving DecidableEq

/-- A new wallet after the import of the regtest keys. -/
def regtest_wallet : Wallet :=
  { Wallet.new .Regtest with
    keys := some { receiver := regtest.receiver, scan_key := regtest.scan_key }
    spend_key := some (regtest.public_key regtest.spend_secret)
    spend_secret := some regtest.spend_secret }

example : (Wallet.new .Regtest).import_signing_keys regtest.secp regtest.sp regtest.scan_key
    regtest.spend_secret =
    .ok regtest_wallet := rfl

theorem Wallet.mem_reserve_coins (self : Wallet) (outpoints : List OutPoint) (outpoint : OutPoint) :
    outpoint ∈ (self.reserve_coins outpoints).reserved ↔ outpoint ∈ outpoints ∨
      outpoint ∈ self.reserved :=
  HashSet.mem_foldl_insert self.reserved outpoints outpoint

theorem Wallet.mem_release_coins (self : Wallet) (outpoints : List OutPoint) (outpoint : OutPoint) :
    outpoint ∈ (self.release_coins outpoints).reserved ↔ outpoint ∉ outpoints ∧
      outpoint ∈ self.reserved :=
  HashSet.mem_foldl_erase self.reserved outpoints outpoint

end wallet
