import Mathlib.Algebra.Group.Fin.Basic
import Mathlib.Algebra.GroupWithZero.Nat
import Mathlib.Data.List.Lex
import KernelNode.Bitcoin.Types
import KernelNode.Collections.Bytes
import KernelNode.Collections.HashMap

open bitcoin std.collections

namespace secp256k1

/-- The order of the group generated by the base point. -/
def CURVE_ORDER : Nat := 0xfffffffffffffffffffffffffffffffebaaedce6af48a03bbfd25e8cd0364141

instance : NeZero CURVE_ORDER := ⟨Nat.succ_ne_zero _⟩

/-- Any residue of the group order, zero included. -/
abbrev Scalar := Fin CURVE_ORDER

def Scalar.to_be_bytes (self : Scalar) : List.Vector UInt8 32 :=
  std.bytes.to_be 32 self.val

/-- Refused where the number is not below the group order. -/
def Scalar.from_be_bytes (bytes : List.Vector UInt8 32) : Option Scalar :=
  if h : std.bytes.of_be bytes.toList < CURVE_ORDER then some ⟨_, h⟩ else none

@[simp]
theorem Scalar.from_be_bytes_to_be_bytes (self : Scalar) : from_be_bytes self.to_be_bytes =
    some self := by
  have hbytes : std.bytes.of_be self.to_be_bytes.toList = self.val := by
    rw [to_be_bytes, std.bytes.of_be_to_be]
    exact Nat.mod_eq_of_lt (self.isLt.trans (by decide))
  simp [from_be_bytes, hbytes]

structure SecretKey where
  scalar : Scalar
  ne_zero : scalar ≠ 0
deriving DecidableEq

theorem SecretKey.eq_of_val {left right : SecretKey} (h : left.scalar.val = right.scalar.val) :
    left = right := by
  cases left
  cases right
  congr
  exact Fin.ext h

structure XOnlyPublicKey where
  bytes : List.Vector UInt8 32
deriving DecidableEq

inductive Parity where
  | Even
  | Odd
deriving DecidableEq

/-- A curve point other than infinity: its x coordinate and the parity of y. -/
structure PublicKey where
  x : XOnlyPublicKey
  parity : Parity
deriving DecidableEq

def PublicKey.from_x_only_public_key (x : XOnlyPublicKey) (parity : Parity) : PublicKey :=
  ⟨x, parity⟩

def PublicKey.x_only_public_key (self : PublicKey) : XOnlyPublicKey × Parity :=
  (self.x, self.parity)

def SecretKey.negate (self : SecretKey) : SecretKey where
  scalar := -self.scalar
  ne_zero := neg_ne_zero.mpr self.ne_zero

theorem SecretKey.val_pos (self : SecretKey) : 0 < self.scalar.val :=
  Nat.pos_of_ne_zero fun hzero => self.ne_zero (Fin.ext hzero)

theorem SecretKey.val_negate (self : SecretKey) :
    self.negate.scalar.val = CURVE_ORDER - self.scalar.val := by
  have hpos := self.val_pos
  have hlt := self.scalar.isLt
  simp only [SecretKey.negate, Fin.neg_def]
  exact Nat.mod_eq_of_lt (by omega)

/-- The secret key plus a tweak, refused where the sum is zero. -/
def SecretKey.add_tweak (self : SecretKey) (tweak : Scalar) : Option SecretKey :=
  if h : self.scalar + tweak ≠ 0 then some ⟨self.scalar + tweak, h⟩ else none

/-- The curve operations the wallet calls. -/
structure Api where
  /-- The base point times the secret key. -/
  public_key : SecretKey → PublicKey
  /-- A point plus the tweak times the base point, refused at infinity. -/
  add_exp_tweak : PublicKey → Scalar → Option PublicKey
  /-- Whether the bytes are the x coordinate of a curve point. -/
  is_x_coordinate : List.Vector UInt8 32 → Bool
  sign_schnorr : List.Vector UInt8 32 → SecretKey → List.Vector UInt8 64

/-- What the wallet relies on: tweaking a point tweaks its secret key, and
    negating a secret key keeps the x coordinate and changes the parity of y. -/
structure Api.Lawful (api : Api) : Prop where
  add_exp_tweak_public_key : ∀ key tweak,
    api.add_exp_tweak (api.public_key key) tweak = (key.add_tweak tweak).map api.public_key
  negate_x : ∀ key, (api.public_key key.negate).x = (api.public_key key).x
  negate_parity : ∀ key, (api.public_key key.negate).parity ≠ (api.public_key key).parity

/-- `XOnlyPublicKey::from_slice`, refused on a wrong length or off the curve. -/
def Api.x_only_from_slice (self : Api) (bytes : List UInt8) : Option XOnlyPublicKey :=
  if h : bytes.length = 32 then
    if self.is_x_coordinate ⟨bytes, h⟩ then some ⟨⟨bytes, h⟩⟩ else none
  else none

end secp256k1

namespace silentpayments

open secp256k1

inductive Network where
  | Mainnet
  | Testnet
  | Regtest
deriving DecidableEq

structure Error where
  message : String
deriving DecidableEq

structure Label where
  inner : Scalar
deriving DecidableEq

structure Receiver where
  version : UInt8
  scan_pubkey : PublicKey
  spend_pubkey : PublicKey
  change_label : Label
  network : Network
deriving DecidableEq

structure SilentPaymentCode where
  scan_pubkey : PublicKey
  m_pubkey : PublicKey
  network : Network
deriving DecidableEq

/-- The two points of a code, without its network. -/
structure SilentPaymentKeyMaterial where
  scan_pubkey : PublicKey
  m_pubkey : PublicKey
deriving DecidableEq

def SilentPaymentCode.into (self : SilentPaymentCode) : SilentPaymentKeyMaterial where
  scan_pubkey := self.scan_pubkey
  m_pubkey := self.m_pubkey

namespace utils

/-- An outpoint in its 36 serialized bytes. -/
structure OutPoint where
  bytes : List.Vector UInt8 36
deriving DecidableEq

/-- The bytes as numbers, whose order as a list is the lexicographic order. -/
def OutPoint.key (self : OutPoint) : List Nat :=
  self.bytes.toList.map UInt8.toNat

theorem OutPoint.key_injective : Function.Injective OutPoint.key := by
  intro left right hkey
  have hlist := List.map_injective_iff.mpr (fun _ _ => UInt8.toNat_inj.mp) hkey
  cases left
  cases right
  congr
  exact List.Vector.eq _ _ hlist

instance : LinearOrder OutPoint := LinearOrder.lift' OutPoint.key OutPoint.key_injective

/-- The transaction id followed by the little-endian output index. -/
def OutPoint.from_outpoint (outpoint : bitcoin.OutPoint) : OutPoint :=
  ⟨outpoint.txid.bytes ++ std.bytes.to_le 4 outpoint.vout.toNat⟩

end utils

/-- The functions of the silent payments library the wallet calls. -/
structure Api where
  silent_payment_code_from_str : String → Option SilentPaymentCode
  label_new : SecretKey → UInt32 → Label
  receiver_new : UInt8 → PublicKey → PublicKey → Label → Network → Except Error Receiver
  receiving_code : Receiver → SilentPaymentCode
  change_code : Receiver → SilentPaymentCode
  get_pubkey_from_input : List UInt8 → List (List UInt8) → List UInt8 →
    Except Error (Option PublicKey)
  calculate_tweak_data : List PublicKey → List utils.OutPoint → Except Error PublicKey
  calculate_ecdh_shared_secret : PublicKey → SecretKey → PublicKey
  /-- The receiver's scan: the found keys with their tweaks, by label. -/
  scan_transaction : Receiver → PublicKey → List XOnlyPublicKey →
    Except Error (HashMap (Option Label) (HashMap XOnlyPublicKey Scalar))
  calculate_partial_secret : List (SecretKey × Bool) → List utils.OutPoint → Except Error SecretKey
  generate_recipient_pubkeys : List SilentPaymentKeyMaterial → SecretKey →
    Except Error (HashMap SilentPaymentKeyMaterial (List XOnlyPublicKey))

/-- What the wallet relies on: a receiver keeps its spend key, and an output that
    a scan reports has the spend key plus the reported tweak as its key. -/
structure Api.Lawful (api : Api) (secpInst : secp256k1.Api) : Prop where
  receiver_new_spend_pubkey : ∀ {version scan_pubkey spend_pubkey change_label network receiver},
    api.receiver_new version scan_pubkey spend_pubkey change_label network = .ok receiver →
      receiver.spend_pubkey = spend_pubkey
  scan_transaction_key : ∀ {receiver shared_secret outputs found label pubkey_map pk tweak},
    api.scan_transaction receiver shared_secret outputs = .ok found →
    (⟨label, pubkey_map⟩ : Σ _ : Option Label, HashMap XOnlyPublicKey Scalar) ∈ found.entries →
    (⟨pk, tweak⟩ : Σ _ : XOnlyPublicKey, Scalar) ∈ pubkey_map.entries →
      ∃ point, secpInst.add_exp_tweak receiver.spend_pubkey tweak = some point ∧ point.x = pk

end silentpayments
