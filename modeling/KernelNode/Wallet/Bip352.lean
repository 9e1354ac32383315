import KernelNode.Bitcoin.Curve
import KernelNode.Wallet.OwnedOutputs
import KernelNode.Wallet.Sending

open bitcoin secp256k1 silentpayments std.collections wallet xonly

namespace wallet

theorem parse_p2tr_p2tr_script {secpInst : secp256k1.Api} {pk : XOnlyPublicKey}
    (hpoint : secpInst.is_x_coordinate pk.bytes) :
    parse_p2tr secpInst (p2tr_script pk) = some pk := by
  have htaproot : is_p2tr (p2tr_script pk) = true := by
    simp [is_p2tr, p2tr_script, pk.bytes.toList_length]
  rw [parse_p2tr, if_pos htaproot]
  simp only [p2tr_script, List.drop_succ_cons, List.drop_zero, Api.x_only_from_slice]
  rw [dif_pos pk.bytes.toList_length]
  exact if_pos hpoint

@[simp]
theorem FoundKeys.tweak_singleton (label : Option Label) (pk : XOnlyPublicKey) (tweak : Scalar) :
    FoundKeys.tweak (AList.singleton label (AList.singleton pk tweak)) label pk = some tweak :=
  FoundKeys.tweak_eq_some_iff.mpr ⟨_, List.mem_singleton_self _, List.mem_singleton_self _⟩

end wallet

namespace silentpayments

section

variable {G : Type} [AddCommGroup G] (curve : Curve CURVE_ORDER G XOnlyPublicKey)

/-- The point that a transaction's taproot input keys add up to. -/
def input_point (keys : List SecretKey) : G :=
  (keys.map fun key => curve.even_point key.scalar.val).sum

/-- The point of the first output to a spend key, by the hash of the shared
    secret. -/
def first_point (tweak_hash : G → Scalar) (spend shared : G) : G :=
  spend + (tweak_hash shared).val • curve.base

/-- BIP-352 on the group, as far as the wallet's payments need it: a transaction
    pays the first output of every scan key. `input_hash` hashes the smallest
    outpoint with the sum of the input keys, and `tweak_hash` hashes the shared
    secret for the first output. -/
structure Api.Bip352 (api : Api) (curve : Curve CURVE_ORDER G XOnlyPublicKey)
    (input_hash : utils.OutPoint → G → Scalar) (tweak_hash : G → Scalar) : Prop where
  receiver_new : ∀ {version scan_pubkey spend_pubkey change_label network receiver},
    api.receiver_new version scan_pubkey spend_pubkey change_label network = .ok receiver →
      receiver = { version, scan_pubkey, spend_pubkey, change_label, network }
  receiving_code : ∀ receiver, (api.receiving_code receiver).into =
    ⟨receiver.scan_pubkey, receiver.spend_pubkey⟩
  /-- The change code adds the change label to the spend key. -/
  change_code : ∀ {receiver spend}, spend ≠ 0 → receiver.spend_pubkey = .of_point curve spend →
    spend + receiver.change_label.inner.val • curve.base ≠ 0 →
      (api.change_code receiver).into = ⟨receiver.scan_pubkey,
        .of_point curve (spend + receiver.change_label.inner.val • curve.base)⟩
  /-- The key of a taproot key spend is that of the output it spends. -/
  get_pubkey_from_input : ∀ {point} (signature : List.Vector UInt8 64), point ≠ 0 →
    curve.even point = true →
      api.get_pubkey_from_input [] [signature.toList] (p2tr_script (curve.x point)) =
        .ok (some (.of_point curve point))
  calculate_partial_secret : ∀ {keys outpoints secret},
    api.calculate_partial_secret (keys.map fun key => (key, true)) outpoints = .ok secret →
      ∃ smallest, outpoints.min? = some smallest ∧ secret.scalar.val • curve.base =
        (input_hash smallest (input_point curve keys)).val • input_point curve keys
  calculate_tweak_data : ∀ {points : List G} {outpoints smallest}, (∀ point ∈ points, point ≠ 0) →
    outpoints.min? = some smallest → (input_hash smallest points.sum).val • points.sum ≠ 0 →
      api.calculate_tweak_data (points.map (.of_point curve)) outpoints =
        .ok (.of_point curve ((input_hash smallest points.sum).val • points.sum))
  calculate_ecdh_shared_secret : ∀ {point} {key : SecretKey}, key.scalar.val • point ≠ 0 →
    api.calculate_ecdh_shared_secret (.of_point curve point) key =
      .of_point curve (key.scalar.val • point)
  /-- The first code of a scan key gets the first output of the shared secret. -/
  generate_recipient_pubkeys : ∀ before {after material derived} {secret : SecretKey}
    {scan spend : G}, api.generate_recipient_pubkeys (before ++ material :: after) secret =
      .ok derived →
    (∀ earlier ∈ before, earlier.scan_pubkey ≠ material.scan_pubkey) →
    scan ≠ 0 → material.scan_pubkey = .of_point curve scan →
    spend ≠ 0 → material.m_pubkey = .of_point curve spend →
      secret.scalar.val • scan ≠ 0 ∧
      first_point curve tweak_hash spend (secret.scalar.val • scan) ≠ 0 ∧
      ∃ rest, derived.lookup material =
        some (curve.x (first_point curve tweak_hash spend (secret.scalar.val • scan)) :: rest)
  /-- The scan looks for the first output of the spend key and, where there is
      none, for the first output under the change label. -/
  scan_transaction : ∀ {receiver outputs} {spend shared : G}, spend ≠ 0 →
    receiver.spend_pubkey = .of_point curve spend → shared ≠ 0 →
    first_point curve tweak_hash spend shared ≠ 0 →
      ∃ found : FoundKeys,
        api.scan_transaction receiver (.of_point curve shared) outputs = .ok found ∧
        (curve.x (first_point curve tweak_hash spend shared) ∈ outputs →
          (found.tweak none (curve.x (first_point curve tweak_hash spend shared))).isSome) ∧
        (curve.x (first_point curve tweak_hash spend shared) ∉ outputs →
          ∀ labelled, labelled = spend + receiver.change_label.inner.val • curve.base →
          first_point curve tweak_hash labelled shared ≠ 0 →
          curve.x (first_point curve tweak_hash labelled shared) ∈ outputs →
            (found.tweak (some receiver.change_label)
              (curve.x (first_point curve tweak_hash labelled shared))).isSome)

end

section

variable {api : Api} {G : Type} [AddCommGroup G] {curve : Curve CURVE_ORDER G XOnlyPublicKey}
    {input_hash : utils.OutPoint → G → Scalar} {tweak_hash : G → Scalar}

/-- The receiver's shared secret is the sender's: the one multiplies the scan key
    with the tweaked input point, the other the partial secret with the scan
    point. -/
theorem Api.Bip352.shared_secret (hbip : api.Bip352 curve input_hash tweak_hash)
    {keys : List SecretKey} {outpoints : List utils.OutPoint} {secret scan_key : SecretKey}
    (hsender : api.calculate_partial_secret (keys.map fun key => (key, true)) outpoints =
      .ok secret)
    (hshared : secret.scalar.val • scan_key.scalar.val • curve.base ≠ 0) :
    ∃ tweak_data, api.calculate_tweak_data
        ((keys.map fun key => curve.even_point key.scalar.val).map (.of_point curve)) outpoints =
          .ok tweak_data ∧
      api.calculate_ecdh_shared_secret tweak_data scan_key =
        .of_point curve (secret.scalar.val • scan_key.scalar.val • curve.base) := by
  obtain ⟨smallest, hsmallest, hsecret⟩ := hbip.calculate_partial_secret hsender
  have hpoints : ∀ point ∈ keys.map fun key => curve.even_point key.scalar.val, point ≠ 0 := by
    intro point hpoint
    obtain ⟨key, _, rfl⟩ := List.mem_map.mp hpoint
    exact curve.even_point_ne_zero key.val_pos key.scalar.isLt
  have hfinite := secret.nsmul_base_ne_zero curve
  rw [hsecret] at hfinite
  refine ⟨_, hbip.calculate_tweak_data hpoints hsmallest hfinite, ?_⟩
  -- both are the base point times the two secrets
  have hcommute : scan_key.scalar.val •
      ((input_hash smallest (input_point curve keys)).val • input_point curve keys) =
        secret.scalar.val • scan_key.scalar.val • curve.base := by
    rw [← hsecret, smul_comm]
  rw [← hcommute] at hshared ⊢
  exact hbip.calculate_ecdh_shared_secret hshared

end

end silentpayments

namespace regtest

/-- A point by its discrete logarithm. -/
def point_log (point : ZMod CURVE_ORDER) : Scalar := ⟨point.val, point.val_lt⟩

theorem point_log_add (left right : ZMod CURVE_ORDER) :
    point_log (left + right) = point_log left + point_log right :=
  Fin.ext (by simp only [point_log, ZMod.val_add, Fin.val_add])

theorem point_log_nsmul (scalar : Scalar) (point : ZMod CURVE_ORDER) :
    point_log (scalar.val • point) = scalar * point_log point := by
  apply Fin.ext
  simp only [point_log, nsmul_eq_mul, ZMod.val_mul, ZMod.val_natCast_of_lt scalar.isLt, Fin.val_mul]

theorem point_log_nsmul_base (scalar : Scalar) : point_log (scalar.val • curve.base) = scalar := by
  apply Fin.ext
  rw [nsmul_base]
  exact ZMod.val_natCast_of_lt scalar.isLt

theorem point_log_zero : point_log 0 = 0 := by
  apply Fin.ext
  simp only [point_log, ZMod.val_zero, Fin.val_zero]

theorem point_log_eq_zero_iff {point : ZMod CURVE_ORDER} : point_log point = 0 ↔ point = 0 :=
  ⟨fun hzero => (ZMod.val_eq_zero point).mp (congrArg Fin.val hzero),
    fun hzero => hzero ▸ point_log_zero⟩

theorem point_log_injective : Function.Injective point_log :=
  fun _ _ hlog => ZMod.val_injective _ (congrArg Fin.val hlog)

theorem point_log_sum (points : List (ZMod CURVE_ORDER)) :
    point_log points.sum = (points.map point_log).sum := by
  induction points with
  | nil => exact point_log_zero
  | cons point points ih => rw [List.sum_cons, point_log_add, ih, List.map_cons, List.sum_cons]

/-- The public key of a scalar, unless it is zero. -/
def scalar_point (scalar : Scalar) : Option PublicKey :=
  if h : scalar ≠ 0 then some (public_key ⟨scalar, h⟩) else none

theorem scalar_point_log {point : ZMod CURVE_ORDER} (h : point ≠ 0) :
    scalar_point (point_log point) = some (.of_point curve point) := by
  have hlog : point_log point ≠ 0 := fun hzero => h (point_log_eq_zero_iff.mp hzero)
  rw [scalar_point, dif_pos hlog, of_point_public_key point h]
  rfl

/-- The scalar of a public key. -/
def key_log (key : PublicKey) : Option Scalar := (discrete_log key).map SecretKey.scalar

theorem key_log_of_point {point : ZMod CURVE_ORDER} (h : point ≠ 0) :
    key_log (.of_point curve point) = some (point_log point) := by
  rw [key_log, of_point_public_key point h, discrete_log_public_key]
  rfl

/-- The hashes of BIP-352 at the points of the fixtures, which are given by their
    discrete logarithm, and stand-ins elsewhere: first that of the smallest outpoint
    and the sum of the input keys. -/
def input_hash (smallest : silentpayments.utils.OutPoint) (sum : Scalar) : Scalar :=
  if smallest = .from_outpoint ⟨txid 0xaa, 0⟩ ∧
    sum = 0x771fa8c7547a3774ed998b297b6c9511f6e97106072ede89d5e2e17a68fda1d5 then
    0x9073d2b573955da53796c7d62e01108085872594a358c6df6ca8a83db6c4808c
  else Fin.ofNat _ (smallest.bytes.head.toNat + sum.val % 1000 + 1)

/-- Shared secrets with the hashes for their first outputs. -/
def known_tweaks : List (Scalar × Scalar) := [
  (0xfbc9e57bdf816e25e1f5ce41aa3efce5be6b10dd23843cc727e87dcdc7562cf5,
    0x685e505b8e8219e1515371514a393584b89fd8cfb3e7fedd38c11ec0470c6c6d),
  (0xfcd76c1ce7a1129c69785ab13faf3dabfd7c03df867555a44de2f5fd898e3208,
    0x8c564d366e3a00895fb6e38c08ef77c0717439ac1717b539ee54713764401616)]

def tweak_hash (shared : Scalar) : Scalar :=
  match known_tweaks.find? fun known => known.1 = shared with
  | some known => known.2
  | none => Fin.ofNat _ (shared.val % 1000 + 7)

/-- The secret of the even point of a taproot input's key. -/
def input_scalar : SecretKey × Bool → Scalar
  | (key, taproot) =>
    if taproot && !(decide (key.scalar.val ≤ CURVE_ORDER / 2)) then -key.scalar else key.scalar

theorem point_log_even_point (key : SecretKey) :
    point_log (curve.even_point key.scalar.val) = input_scalar (key, true) := by
  have heven : curve.even (key.scalar.val • curve.base) =
      decide (key.scalar.val ≤ CURVE_ORDER / 2) := by
    simp only [curve, nsmul_one, ZMod.val_natCast_of_lt key.scalar.isLt]
  simp only [xonly.Curve.even_point, xonly.Curve.even_key, heven, input_scalar, Bool.true_and]
  by_cases hhalf : key.scalar.val ≤ CURVE_ORDER / 2
  · simp only [hhalf, decide_true, if_true, Bool.not_true, Bool.false_eq_true, if_false]
    exact point_log_nsmul_base key.scalar
  · simp only [hhalf, decide_false, Bool.false_eq_true, if_false, Bool.not_false, if_true]
    rw [← key.val_negate]
    exact point_log_nsmul_base key.negate.scalar

/-- The first output key of a code under a shared secret. -/
def first_key (spend shared : Scalar) : Option XOnlyPublicKey :=
  (scalar_point (spend + tweak_hash shared)).map PublicKey.x

theorem first_key_log {spend shared : ZMod CURVE_ORDER}
    (h : first_point curve (fun point => tweak_hash (point_log point)) spend shared ≠ 0) :
    first_key (point_log spend) (point_log shared) = some (curve.x
      (first_point curve (fun point => tweak_hash (point_log point)) spend shared)) := by
  have hlog := scalar_point_log h
  rw [first_point, point_log_add, point_log_nsmul_base] at hlog
  rw [first_key, hlog]
  rfl

/-- The output key of one code. -/
def recipient_key (secret : SecretKey) (material : SilentPaymentKeyMaterial) :
    Option (Σ _ : SilentPaymentKeyMaterial, List XOnlyPublicKey) := do
  let scan ← key_log material.scan_pubkey
  let spend ← key_log material.m_pubkey
  if secret.scalar * scan = 0 then none else
  let key ← first_key spend (secret.scalar * scan)
  return ⟨material, [key]⟩

/-- What the scan finds for the spend key and the shared secret: the first output
    or the first output under the label. -/
def scan_first (spend shared : Scalar) (label : Label) (outputs : List XOnlyPublicKey) :
    Option FoundKeys := do
  let key ← first_key spend shared
  if key ∈ outputs then
    return AList.singleton none (AList.singleton key (tweak_hash shared))
  match first_key (spend + label.inner) shared with
  | some labelled =>
    if labelled ∈ outputs then
      return AList.singleton (some label)
        (AList.singleton labelled (label.inner + tweak_hash shared))
    else return ∅
  | none => return ∅

/-- The silent payments library on points given by their discrete logarithm, for
    transactions with one output for each scan key. The second label is that of the
    other wallet. -/
def payment_sp : silentpayments.Api :=
  { sp with
    label_new key number :=
      if key.scalar = 4 then
        ⟨0x142cb81c126879744afa78ce9c3f412c17416a34bd92c83f14e8268ef3562e51⟩
      else sp.label_new key number
    change_code receiver := ⟨receiver.scan_pubkey,
      (secp.add_exp_tweak receiver.spend_pubkey receiver.change_label.inner).getD
        receiver.spend_pubkey, receiver.network⟩
    get_pubkey_from_input _ _ prevout_script :=
      .ok ((parse_p2tr secp prevout_script).map fun x => ⟨x, .Even⟩)
    calculate_partial_secret input_keys outpoints :=
      match outpoints.min? with
      | none => .error ⟨"no outpoints"⟩
      | some smallest =>
        let sum := (input_keys.map input_scalar).sum
        if h : input_hash smallest sum * sum ≠ 0 then .ok ⟨_, h⟩ else .error ⟨"zero secret"⟩
    calculate_tweak_data keys outpoints :=
      match keys.mapM key_log, outpoints.min? with
      | some logs, some smallest =>
        (scalar_point (input_hash smallest logs.sum * logs.sum)).elim
          (.error ⟨"point at infinity"⟩) .ok
      | _, _ => .error ⟨"no inputs"⟩
    calculate_ecdh_shared_secret tweak_data key :=
      ((key_log tweak_data).bind fun log => scalar_point (key.scalar * log)).getD tweak_data
    generate_recipient_pubkeys materials secret :=
      match materials.mapM (recipient_key secret) with
      | some keys => .ok keys.toAList
      | none => .error ⟨"point at infinity"⟩
    scan_transaction receiver shared_secret outputs :=
      match key_log receiver.spend_pubkey, key_log shared_secret with
      | some spend, some shared =>
        (scan_first spend shared receiver.change_label outputs).elim
          (.error ⟨"point at infinity"⟩) .ok
      | _, _ => .error ⟨"unknown point"⟩ }

theorem secp_is_x_coordinate {point : ZMod CURVE_ORDER} (h : point ≠ 0) :
    secp.is_x_coordinate (curve.x point).bytes := by
  have hx : curve.x point = (public_key (point_key point h)).x :=
    congrArg PublicKey.x (of_point_public_key point h)
  have hlower := lower_half_spec (point_key point h)
  simp only [secp, discrete_log, hx, relabel_symm_x, hlower, and_self, dite_true,
    Option.isSome_some]

/-- The keys are found under their codes. -/
theorem lookup_recipient_keys {secret : SecretKey}
    {before after : List SilentPaymentKeyMaterial} {material : SilentPaymentKeyMaterial}
    {keys : List (Σ _ : SilentPaymentKeyMaterial, List XOnlyPublicKey)}
    (hkeys : (before ++ material :: after).mapM (recipient_key secret) = some keys)
    (hfirst : material ∉ before) {derived : List XOnlyPublicKey}
    (hderived : recipient_key secret material = some ⟨material, derived⟩) :
    keys.toAList.lookup material = some derived := by
  rw [AList.lookup_to_alist]
  induction before generalizing keys with
  | nil =>
    simp only [List.nil_append, List.mapM_cons, hderived, Option.bind_eq_bind, Option.bind_some,
      Option.bind_eq_some_iff, Option.pure_def, Option.some.injEq] at hkeys
    obtain ⟨_, _, rfl⟩ := hkeys
    exact List.dlookup_cons_eq _ _ _
  | cons earlier before ih =>
    simp only [List.cons_append, List.mapM_cons, Option.bind_eq_bind, Option.bind_eq_some_iff,
      Option.pure_def, Option.some.injEq] at hkeys
    obtain ⟨⟨code, key⟩, hkey, rest, hrest, rfl⟩ := hkeys
    obtain ⟨hne, hfirst⟩ := not_or.mp (List.mem_cons.not.mp hfirst)
    have hcode : code = earlier := by
      simp only [recipient_key, Option.bind_eq_bind, Option.bind_eq_some_iff] at hkey
      obtain ⟨_, _, _, _, hkey⟩ := hkey
      split at hkey
      · cases hkey
      · obtain ⟨_, _, hkey⟩ := Option.bind_eq_some_iff.mp hkey
        cases hkey
        rfl
    rw [List.dlookup_cons_ne _ _ (by rwa [hcode])]
    exact ih hrest hfirst

theorem mapM_key_log {points : List (ZMod CURVE_ORDER)} (hpoints : ∀ point ∈ points, point ≠ 0) :
    (points.map (PublicKey.of_point curve)).mapM key_log = some (points.map point_log) := by
  induction points with
  | nil => rfl
  | cons point points ih =>
    obtain ⟨hpoint, hpoints⟩ := List.forall_mem_cons.mp hpoints
    simp [key_log_of_point hpoint, ih hpoints]

theorem first_key_ne_zero {spend shared : ZMod CURVE_ORDER} {key : XOnlyPublicKey}
    (hkey : first_key (point_log spend) (point_log shared) = some key) :
    first_point curve (fun point => tweak_hash (point_log point)) spend shared ≠ 0 := by
  intro hzero
  have hlog := point_log_eq_zero_iff.mpr hzero
  rw [first_point, point_log_add, point_log_nsmul_base] at hlog
  simp [first_key, scalar_point, hlog] at hkey

/-- The scan finds the first output, and otherwise the first output under the
    label. -/
theorem scan_first_finds {spend shared : Scalar} (label : Label) (outputs : List XOnlyPublicKey)
    {key : XOnlyPublicKey} (hkey : first_key spend shared = some key) :
    ∃ found, scan_first spend shared label outputs = some found ∧
      (key ∈ outputs → (found.tweak none key).isSome) ∧
      (key ∉ outputs → ∀ labelled, first_key (spend + label.inner) shared = some labelled →
        labelled ∈ outputs → (found.tweak (some label) labelled).isSome) := by
  simp only [scan_first, hkey, Option.bind_eq_bind, Option.bind_some]
  by_cases hmem : key ∈ outputs
  · rw [if_pos hmem]
    exact ⟨_, rfl, fun _ => by simp, fun h => absurd hmem h⟩
  · rw [if_neg hmem]
    cases hlabelled : first_key (spend + label.inner) shared with
    | none => exact ⟨_, rfl, fun h => absurd h hmem, fun _ _ hnone => by cases hnone⟩
    | some other =>
      dsimp only
      split
      · refine ⟨_, rfl, fun h => absurd h hmem, fun _ labelled hsome _ => ?_⟩
        cases hsome
        simp
      · rename_i hother
        refine ⟨_, rfl, fun h => absurd h hmem, fun _ labelled hsome hlabelled => ?_⟩
        cases hsome
        exact absurd hlabelled hother

theorem add_exp_tweak_log {key : PublicKey} {log : Scalar} (hlog : key_log key = some log)
    (tweak : Scalar) : secp.add_exp_tweak key tweak = scalar_point (log + tweak) := by
  obtain ⟨secret, hsecret, rfl⟩ := Option.map_eq_some_iff.mp hlog
  simp only [secp, hsecret, Option.bind_some, SecretKey.add_tweak, scalar_point]
  split <;> rfl

/-- What the scan finds is the spend key plus the tweak it reports. -/
theorem scan_first_key {spend shared : Scalar} {label : Label} {outputs : List XOnlyPublicKey}
    {found : FoundKeys} (hfound : scan_first spend shared label outputs = some found)
    {found_label : Option Label} {pubkey_map : HashMap XOnlyPublicKey Scalar}
    {pk : XOnlyPublicKey} {tweak : Scalar}
    (hlabel : (⟨found_label, pubkey_map⟩ : Σ _ : Option Label, HashMap XOnlyPublicKey Scalar) ∈
      found.entries)
    (hkey : (⟨pk, tweak⟩ : Σ _ : XOnlyPublicKey, Scalar) ∈ pubkey_map.entries) :
    ∃ point, scalar_point (spend + tweak) = some point ∧ point.x = pk := by
  simp only [scan_first, Option.bind_eq_bind, Option.bind_eq_some_iff] at hfound
  obtain ⟨key, hfirst, hfound⟩ := hfound
  split at hfound
  · cases hfound
    cases List.mem_singleton.mp hlabel
    cases List.mem_singleton.mp hkey
    exact Option.map_eq_some_iff.mp hfirst
  · split at hfound
    · rename_i labelled hlabelled
      split at hfound
      · cases hfound
        cases List.mem_singleton.mp hlabel
        cases List.mem_singleton.mp hkey
        rw [first_key, add_assoc] at hlabelled
        exact Option.map_eq_some_iff.mp hlabelled
      · cases hfound
        cases hlabel
    · cases hfound
      cases hlabel

theorem payment_sp_lawful : payment_sp.Lawful secp where
  receiver_new_spend_pubkey hreceiver := by
    cases hreceiver
    rfl
  scan_transaction_key {receiver shared_secret outputs found label pubkey_map pk tweak} hscan
    hlabel hkey := by
    simp only [payment_sp] at hscan
    split at hscan
    · rename_i spend shared hspend _
      cases hfirst : scan_first spend shared receiver.change_label outputs with
      | none => simp [hfirst] at hscan
      | some result =>
        obtain rfl : result = found := by simpa [hfirst] using hscan
        rw [add_exp_tweak_log hspend]
        exact scan_first_key hfirst hlabel hkey
    · cases hscan

theorem payment_sp_bip352 : payment_sp.Bip352 curve
    (fun smallest point => input_hash smallest (point_log point))
    (fun point => tweak_hash (point_log point)) where
  receiver_new hreceiver := by
    cases hreceiver
    rfl
  receiving_code receiver := rfl
  change_code {receiver spend} hspend hreceiver hlabelled := by
    have htweak := secp_computes.add_exp_tweak receiver.change_label.inner hspend hlabelled
    simp only [payment_sp, SilentPaymentCode.into, hreceiver, htweak, Option.getD_some]
  get_pubkey_from_input {point} signature hpoint heven := by
    simp only [payment_sp, parse_p2tr_p2tr_script (secp_is_x_coordinate hpoint), Option.map_some,
      PublicKey.of_point, heven, if_true]
  calculate_partial_secret {keys outpoints secret} hsender := by
    simp only [payment_sp] at hsender
    split at hsender
    · cases hsender
    · rename_i smallest hsmallest
      refine ⟨smallest, hsmallest, ?_⟩
      have hsum : point_log (input_point curve keys) =
          ((keys.map fun key => (key, true)).map input_scalar).sum := by
        rw [input_point, point_log_sum, List.map_map, List.map_map]
        congr 2
        funext key
        exact point_log_even_point key
      split at hsender
      · cases hsender
        apply point_log_injective
        rw [point_log_nsmul_base, point_log_nsmul, hsum]
      · cases hsender
  calculate_tweak_data {points outpoints smallest} hpoints hsmallest hfinite := by
    simp only [payment_sp, mapM_key_log hpoints, hsmallest]
    rw [← point_log_sum, ← point_log_nsmul, scalar_point_log hfinite]
    rfl
  calculate_ecdh_shared_secret {point key} hfinite := by
    have hpoint : point ≠ 0 := by
      rintro rfl
      exact hfinite (smul_zero _)
    simp only [payment_sp, key_log_of_point hpoint, Option.bind_some]
    rw [← point_log_nsmul, scalar_point_log hfinite, Option.getD_some]
  generate_recipient_pubkeys before {after material derived secret scan spend} hgenerate hother
    hscan hscan_point hspend hspend_point := by
    simp only [payment_sp] at hgenerate
    split at hgenerate
    · rename_i keys hkeys
      cases hgenerate
      obtain ⟨derived, _, hderived⟩ := std.option.exists_mem_of_mapM hkeys
        (List.mem_append_right before List.mem_cons_self)
      have hmaterial := hderived
      simp only [recipient_key, hscan_point, hspend_point, key_log_of_point hscan,
        key_log_of_point hspend, Option.bind_eq_bind, Option.bind_some, ← point_log_nsmul,
        point_log_eq_zero_iff] at hmaterial
      split at hmaterial
      · cases hmaterial
      · rename_i hshared
        obtain ⟨key, hkey, hmaterial⟩ := Option.bind_eq_some_iff.mp hmaterial
        cases hmaterial
        have hfirst := first_key_ne_zero hkey
        obtain rfl := Option.some.inj (hkey.symm.trans (first_key_log hfirst))
        refine ⟨hshared, hfirst, [], lookup_recipient_keys hkeys ?_ hderived⟩
        exact fun hmem => hother material hmem rfl
    · cases hgenerate
  scan_transaction {receiver outputs spend shared} hspend hreceiver hshared hfirst := by
    obtain ⟨found, hfound, hplain, hlabelled⟩ :=
      scan_first_finds receiver.change_label outputs (first_key_log hfirst)
    refine ⟨found, ?_, hplain, ?_⟩
    · simp only [payment_sp, hreceiver, key_log_of_point hspend, key_log_of_point hshared, hfound]
      rfl
    · rintro hmem labelled rfl hfinite
      refine hlabelled hmem _ ?_
      rw [← first_key_log hfinite, point_log_add, point_log_nsmul_base]

end regtest
