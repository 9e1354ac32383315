import Mathlib.GroupTheory.OrderOfElement

namespace xonly

/-- A group with a base point of order `n`. A coordinate tells its points apart
    up to their sign, and a parity tells a point from its negation. The identity
    has neither. -/
structure Curve (n : Nat) (G X : Type) [AddCommGroup G] where
  base : G
  order : addOrderOf base = n
  x : G → X
  even : G → Bool
  x_eq_iff : ∀ {P Q : G}, P ≠ 0 → Q ≠ 0 → (x P = x Q ↔ P = Q ∨ P = -Q)
  even_neg : ∀ {P : G}, P ≠ 0 → even (-P) = !even P

namespace Curve

variable {n : Nat} {G X : Type} [AddCommGroup G] (curve : Curve n G X)

theorem mod_nsmul_base (k : Nat) : (k % n) • curve.base = k • curve.base := by
  have hmod := mod_addOrderOf_nsmul curve.base k
  rwa [curve.order] at hmod

theorem nsmul_base_ne_zero {k : Nat} (hpos : 0 < k) (hlt : k < n) : k • curve.base ≠ 0 := by
  intro hzero
  have hdvd := addOrderOf_dvd_iff_nsmul_eq_zero.mpr hzero
  rw [curve.order] at hdvd
  exact absurd (Nat.le_of_dvd hpos hdvd) (by omega)

theorem sub_nsmul_base {k : Nat} (hle : k ≤ n) : (n - k) • curve.base = -(k • curve.base) := by
  have hzero := addOrderOf_nsmul_eq_zero curve.base
  rw [curve.order] at hzero
  rw [eq_neg_iff_add_eq_zero, ← add_nsmul, Nat.sub_add_cancel hle, hzero]

variable {P Q : G}

theorem x_neg (hpoint : P ≠ 0) : curve.x (-P) = curve.x P :=
  (curve.x_eq_iff (neg_ne_zero.mpr hpoint) hpoint).mpr (.inr rfl)

/-- A point is given by its coordinate and its parity. -/
theorem eq_of_x_of_even (hleft : P ≠ 0) (hright : Q ≠ 0) (hx : curve.x P = curve.x Q)
    (heven : curve.even P = curve.even Q) : P = Q := by
  rcases (curve.x_eq_iff hleft hright).mp hx with hsame | hneg
  · exact hsame
  · rw [hneg, curve.even_neg hright] at heven
    simp at heven

/-- The key or its negation, whichever has an even point. -/
def even_key (key : Nat) : Nat := if curve.even (key • curve.base) then key else n - key

/-- The even point with the coordinate of a key's point. -/
def even_point (key : Nat) : G := curve.even_key key • curve.base

theorem even_point_cases {key : Nat} (hle : key ≤ n) :
    curve.even (key • curve.base) = true ∧ curve.even_point key = key • curve.base ∨
      curve.even (key • curve.base) = false ∧ curve.even_point key = -(key • curve.base) := by
  simp only [even_point, even_key]
  split
  · rename_i heven
    exact .inl ⟨heven, rfl⟩
  · rename_i hodd
    exact .inr ⟨by simpa using hodd, curve.sub_nsmul_base hle⟩

variable {key : Nat} (hpos : 0 < key) (hlt : key < n)

include hpos hlt

theorem even_point_ne_zero : curve.even_point key ≠ 0 := by
  have hpoint := curve.nsmul_base_ne_zero hpos hlt
  rcases curve.even_point_cases hlt.le with ⟨_, hsame⟩ | ⟨_, hneg⟩
  · rwa [hsame]
  · rwa [hneg, neg_ne_zero]

theorem even_even_point : curve.even (curve.even_point key) = true := by
  rcases curve.even_point_cases hlt.le with ⟨heven, hsame⟩ | ⟨hodd, hneg⟩
  · rwa [hsame]
  · rw [hneg, curve.even_neg (curve.nsmul_base_ne_zero hpos hlt), hodd]
    rfl

theorem x_even_point : curve.x (curve.even_point key) = curve.x (key • curve.base) := by
  rcases curve.even_point_cases hlt.le with ⟨_, hsame⟩ | ⟨_, hneg⟩
  · rw [hsame]
  · rw [hneg, curve.x_neg (curve.nsmul_base_ne_zero hpos hlt)]

end Curve

end xonly
