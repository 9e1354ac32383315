import Mathlib.Data.ZMod.Basic
import KernelNode.Bitcoin.Regtest
import KernelNode.XOnly

open bitcoin xonly

namespace secp256k1

variable {G : Type} [AddCommGroup G]

/-- A point of the group by its coordinate and parity. -/
def PublicKey.of_point (curve : Curve CURVE_ORDER G XOnlyPublicKey) (point : G) : PublicKey where
  x := curve.x point
  parity := if curve.even point then .Even else .Odd

/-- The curve operations are those of the group. -/
structure Api.Computes (api : Api) (curve : Curve CURVE_ORDER G XOnlyPublicKey) : Prop where
  public_key : ∀ key, api.public_key key = .of_point curve (key.scalar.val • curve.base)
  add_exp_tweak : ∀ {point} (tweak : Scalar), point ≠ 0 →
    point + tweak.val • curve.base ≠ 0 →
      api.add_exp_tweak (.of_point curve point) tweak =
        some (.of_point curve (point + tweak.val • curve.base))
  add_exp_tweak_infinity : ∀ {point} (tweak : Scalar), point ≠ 0 →
    point + tweak.val • curve.base = 0 →
      api.add_exp_tweak (.of_point curve point) tweak = none

variable (curve : Curve CURVE_ORDER G XOnlyPublicKey)

theorem SecretKey.nsmul_base_ne_zero (key : SecretKey) : key.scalar.val • curve.base ≠ 0 :=
  curve.nsmul_base_ne_zero key.val_pos key.scalar.isLt

theorem SecretKey.nsmul_base_negate (key : SecretKey) :
    key.negate.scalar.val • curve.base = -(key.scalar.val • curve.base) := by
  rw [key.val_negate, curve.sub_nsmul_base key.scalar.isLt.le]

/-- Tweaking a secret key adds the tweak's multiple of the base point. -/
theorem SecretKey.nsmul_base_add (key : SecretKey) (tweak : Scalar) :
    (key.scalar + tweak).val • curve.base =
      key.scalar.val • curve.base + tweak.val • curve.base := by
  rw [Fin.val_add, curve.mod_nsmul_base, add_nsmul]

theorem PublicKey.of_point_parity_eq_even {point : G} :
    (PublicKey.of_point curve point).parity = .Even ↔ curve.even point = true := by
  simp only [PublicKey.of_point]
  split <;> simp_all

/-- Operations of a group are lawful. -/
theorem Api.Computes.lawful {api : Api} {curve : Curve CURVE_ORDER G XOnlyPublicKey}
    (hcurve : api.Computes curve) : api.Lawful where
  add_exp_tweak_public_key key tweak := by
    have hpoint := key.nsmul_base_ne_zero curve
    have hsum := key.nsmul_base_add curve tweak
    rw [hcurve.public_key]
    by_cases hzero : key.scalar + tweak = 0
    · have hinfinity : key.scalar.val • curve.base + tweak.val • curve.base = 0 := by
        rw [← hsum, hzero, Fin.val_zero, zero_nsmul]
      rw [hcurve.add_exp_tweak_infinity tweak hpoint hinfinity]
      simp [SecretKey.add_tweak, hzero]
    · have htweaked : key.add_tweak tweak = some ⟨key.scalar + tweak, hzero⟩ := dif_pos hzero
      have hfinite := SecretKey.nsmul_base_ne_zero curve ⟨key.scalar + tweak, hzero⟩
      dsimp only at hfinite
      rw [hsum] at hfinite
      rw [hcurve.add_exp_tweak tweak hpoint hfinite, htweaked, Option.map_some, hcurve.public_key,
        hsum]
  negate_x key := by
    rw [hcurve.public_key, hcurve.public_key, key.nsmul_base_negate curve]
    exact curve.x_neg (key.nsmul_base_ne_zero curve)
  negate_parity key := by
    rw [hcurve.public_key, hcurve.public_key, key.nsmul_base_negate curve]
    simp only [PublicKey.of_point, curve.even_neg (key.nsmul_base_ne_zero curve)]
    cases curve.even (key.scalar.val • curve.base) <;> simp

/-- The group leaves the signatures open. -/
theorem Api.Computes.with_sign_schnorr {api : Api} {curve : Curve CURVE_ORDER G XOnlyPublicKey}
    (hcurve : api.Computes curve)
    (sign_schnorr : List.Vector UInt8 32 → SecretKey → List.Vector UInt8 64) :
    { api with sign_schnorr }.Computes curve where
  public_key := hcurve.public_key
  add_exp_tweak := hcurve.add_exp_tweak
  add_exp_tweak_infinity := hcurve.add_exp_tweak_infinity

end secp256k1

namespace regtest

open secp256k1

theorem lower_half_eq_iff {left right : Nat} (hleft : left < CURVE_ORDER)
    (hright : right < CURVE_ORDER) :
    lower_half left = lower_half right ↔ left = right ∨ left = CURVE_ORDER - right := by
  have hodd : CURVE_ORDER % 2 = 1 := by decide
  simp only [lower_half]
  split <;> split <;> omega

theorem x_coordinate_inj {left right : Nat} (hleft : left < 256 ^ 32) (hright : right < 256 ^ 32) :
    std.bytes.to_be 32 (relabel known_points left) =
      std.bytes.to_be 32 (relabel known_points right) ↔ left = right := by
  constructor
  · intro heq
    have hvalues := congrArg (fun bytes => std.bytes.of_be bytes.toList) heq
    simp only [std.bytes.of_be_to_be] at hvalues
    rw [Nat.mod_eq_of_lt (relabel_lt (by decide) hleft),
      Nat.mod_eq_of_lt (relabel_lt (by decide) hright)] at hvalues
    exact (relabel known_points).injective hvalues
  · rintro rfl
    rfl

theorem lower_half_lt {scalar : Nat} (hlt : scalar < CURVE_ORDER) :
    lower_half scalar < 256 ^ 32 := by
  have hle : lower_half scalar ≤ CURVE_ORDER := by
    simp only [lower_half]
    split <;> omega
  exact hle.trans_lt (by decide)

theorem val_neg {point : ZMod CURVE_ORDER} (hpoint : point ≠ 0) :
    (-point).val = CURVE_ORDER - point.val := by
  rw [ZMod.neg_val, if_neg hpoint]

/-- The group of the scalars, with the coordinates and parities of the fixtures. -/
def curve : Curve CURVE_ORDER (ZMod CURVE_ORDER) XOnlyPublicKey where
  base := 1
  order := ZMod.addOrderOf_one CURVE_ORDER
  x point := ⟨std.bytes.to_be 32 (relabel known_points (lower_half point.val))⟩
  even point := point.val ≤ CURVE_ORDER / 2
  x_eq_iff {P Q} hP hQ := by
    rw [XOnlyPublicKey.mk.injEq, x_coordinate_inj (lower_half_lt P.val_lt) (lower_half_lt Q.val_lt),
      lower_half_eq_iff P.val_lt Q.val_lt, ← val_neg hQ]
    exact or_congr (ZMod.val_injective _).eq_iff (ZMod.val_injective _).eq_iff
  even_neg {P} hP := by
    have hpos : P.val ≠ 0 := fun hzero => hP ((ZMod.val_eq_zero P).mp hzero)
    have hlt := P.val_lt
    have hodd : CURVE_ORDER % 2 = 1 := by decide
    rw [val_neg hP, ← decide_not]
    exact decide_eq_decide.mpr (by omega)

/-- The secret key of a point. -/
def point_key (point : ZMod CURVE_ORDER) (h : point ≠ 0) : SecretKey where
  scalar := ⟨point.val, point.val_lt⟩
  ne_zero hzero := h ((ZMod.val_eq_zero point).mp (congrArg Fin.val hzero))

theorem nsmul_base (scalar : Scalar) : scalar.val • curve.base = (scalar.val : ZMod CURVE_ORDER) :=
  nsmul_one scalar.val

theorem of_point_public_key (point : ZMod CURVE_ORDER) (h : point ≠ 0) :
    PublicKey.of_point curve point = public_key (point_key point h) := by
  simp only [PublicKey.of_point, public_key, curve, point_key, decide_eq_true_eq]
  rfl

theorem val_point_key_add {point : ZMod CURVE_ORDER} (h : point ≠ 0) (tweak : Scalar) :
    ((point_key point h).scalar + tweak).val = (point + tweak.val • curve.base).val := by
  rw [nsmul_base, ZMod.val_add, ZMod.val_natCast_of_lt tweak.isLt, Fin.val_add]
  rfl

theorem secp_computes : secp.Computes curve where
  public_key key := by
    have hpoint := key.nsmul_base_ne_zero curve
    rw [of_point_public_key _ hpoint]
    have hkey : point_key (key.scalar.val • curve.base) hpoint = key := by
      apply SecretKey.eq_of_val
      simp only [point_key, nsmul_base]
      exact ZMod.val_natCast_of_lt key.scalar.isLt
    rw [hkey]
    rfl
  add_exp_tweak {point} tweak hpoint hsum := by
    have hval := val_point_key_add hpoint tweak
    have hfinite : (point_key point hpoint).scalar + tweak ≠ 0 := by
      intro hzero
      rw [hzero] at hval
      exact hsum ((ZMod.val_eq_zero _).mp hval.symm)
    rw [of_point_public_key point hpoint, of_point_public_key _ hsum]
    have htweaked := secp_lawful.add_exp_tweak_public_key (point_key point hpoint) tweak
    rw [SecretKey.add_tweak, dif_pos hfinite, Option.map_some] at htweaked
    have hkey : SecretKey.mk ((point_key point hpoint).scalar + tweak) hfinite =
        point_key (point + tweak.val • curve.base) hsum :=
      SecretKey.eq_of_val hval
    rw [hkey] at htweaked
    exact htweaked
  add_exp_tweak_infinity {point} tweak hpoint hsum := by
    have hval := val_point_key_add hpoint tweak
    rw [hsum, ZMod.val_zero] at hval
    rw [of_point_public_key point hpoint]
    have htweaked := secp_lawful.add_exp_tweak_public_key (point_key point hpoint) tweak
    rw [SecretKey.add_tweak, dif_neg (not_not.mpr (Fin.ext hval)), Option.map_none] at htweaked
    exact htweaked

end regtest
