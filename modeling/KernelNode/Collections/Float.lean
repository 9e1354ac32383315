import Mathlib.Algebra.Order.Ring.Nat
import Mathlib.Data.Rat.Cast.Order
import Mathlib.Tactic.GCongr
import Mathlib.Tactic.IntervalCases
import Mathlib.Tactic.Linarith
import KernelNode.Collections.System

namespace std.time

section

variable {num den : Nat}

/-- The nearest number is the quotient or the one after it. -/
theorem div_le_nearest (num den : Nat) : num / den ≤ nearest num den := by
  simp only [nearest]
  split_ifs <;> omega

theorem le_nearest (hden : 0 < den) {value : Nat} (hvalue : value * den ≤ num) :
    value ≤ nearest num den :=
  ((Nat.le_div_iff_mul_le hden).mpr hvalue).trans (div_le_nearest num den)

/-- The error is at most one half upwards. -/
theorem nearest_error (num den : Nat) : 2 * (nearest num den * den) ≤ 2 * num + den := by
  have hparts := Nat.div_add_mod' num den
  simp only [nearest]
  split_ifs with hbelow habove
  · omega
  · rw [Nat.add_mul, Nat.one_mul]
    omega
  · have hparity : num / den % 2 * den ≤ 1 * den := Nat.mul_le_mul_right den (by omega)
    rw [Nat.add_mul]
    omega

/-- The error is at most one half downwards. -/
theorem le_nearest_error (num : Nat) (hden : 0 < den) :
    2 * num ≤ 2 * (nearest num den * den) + den := by
  have hparts := Nat.div_add_mod' num den
  have hrest := Nat.mod_lt num hden
  simp only [nearest]
  split_ifs
  · omega
  · rw [Nat.add_mul]
    omega
  · rw [Nat.add_mul]
    omega

theorem nearest_lt {value : Nat} (hvalue : 2 * num + den < 2 * (value * den)) :
    nearest num den < value := by
  have herror := nearest_error num den
  exact Nat.lt_of_mul_lt_mul_right (a := den) (by omega)

/-- Half way below an even number it is the even number. -/
theorem le_nearest_of_even {value half : Nat} (hhalf : den = 2 * half) (hpos : 0 < half)
    (heven : value % 2 = 0) (hvalue : value * den ≤ num + half) : value ≤ nearest num den := by
  rcases Nat.lt_or_ge num (value * den) with hbelow | habove
  · obtain ⟨previous, rfl⟩ : ∃ previous, value = previous + 1 := by
      refine Nat.exists_eq_succ_of_ne_zero fun hzero => ?_
      rw [hzero, Nat.zero_mul] at hbelow
      exact Nat.not_lt_zero _ hbelow
    rw [Nat.add_mul, Nat.one_mul] at hbelow hvalue
    have hquotient : num / den = previous := by
      refine Nat.div_eq_of_lt_le (by omega) ?_
      rw [Nat.add_mul, Nat.one_mul]
      exact hbelow
    have hparts := Nat.div_add_mod' num den
    rw [hquotient] at hparts
    simp only [nearest, hquotient]
    split_ifs <;> omega
  · exact le_nearest (by omega) habove

/-- A number and less than one half. -/
theorem nearest_add {value rest : Nat} (hrest : 2 * rest < den) :
    nearest (value * den + rest) den = value := by
  have hquotient : (value * den + rest) / den = value := by
    rw [Nat.mul_comm, Nat.mul_add_div (by omega), Nat.div_eq_of_lt (by omega), Nat.add_zero]
  have hrest_mod : (value * den + rest) % den = rest := by
    rw [Nat.mul_comm, Nat.mul_add_mod, Nat.mod_eq_of_lt (by omega)]
  simp only [nearest, hquotient, hrest_mod, hrest, if_true]

/-- A whole and a fraction rounded to places of the whole. The whole becomes the
    next one if the fraction is half a place or less below it. -/
theorem nearest_places {whole frac half places : Nat} (hden : den = 2 * half) (hpos : 0 < half)
    (hplaces : 0 < places) :
    nearest (whole * (2 * places * den) + frac) den / (2 * places) = whole ↔
      frac + half < 2 * places * den := by
  have hlower : whole * (2 * places) ≤ nearest (whole * (2 * places * den) + frac) den := by
    refine le_nearest (by omega) ?_
    rw [Nat.mul_assoc]
    exact Nat.le_add_right _ _
  have hnext :
      (whole + 1) * (2 * places) * den = whole * (2 * places * den) + 2 * places * den := by
    rw [Nat.mul_assoc, Nat.add_mul, Nat.one_mul]
  constructor
  · intro hwhole
    by_contra hfrac
    have hupper : (whole + 1) * (2 * places) ≤ nearest (whole * (2 * places * den) + frac) den := by
      refine le_nearest_of_even hden hpos ?_ (by omega)
      rw [Nat.mul_left_comm, Nat.mul_mod_right]
    have hdiv := (Nat.le_div_iff_mul_le (by omega)).mpr hupper
    omega
  · intro hfrac
    refine Nat.div_eq_of_lt_le hlower (nearest_lt ?_)
    rw [hnext]
    omega

theorem nearest_mul_right (num den : Nat) {factor : Nat} (hfactor : 0 < factor) :
    nearest (num * factor) (den * factor) = nearest num den := by
  have hquotient : num * factor / (den * factor) = num / den :=
    Nat.mul_div_mul_right num den hfactor
  have hrest : num * factor % (den * factor) = num % den * factor := Nat.mul_mod_mul_right ..
  simp only [nearest, hquotient, hrest, ← Nat.mul_assoc, Nat.mul_lt_mul_right hfactor]

end

/-- A float lacks at most half of its last place, unless it is too small to have
    them all. -/
theorem le_round_float {places num den : Nat} (hden : 0 < den)
    (hplaces : num = 0 ∨ 2 ^ places * den ≤ num * 2 ^ 90) :
    2 ^ (places + 1) * (num * 2 ^ 90) ≤
      2 ^ (places + 1) * (den * round_float places num den) + num * 2 ^ 90 := by
  rcases hplaces with rfl | hplaces
  · simp
  simp only [round_float]
  generalize num * 2 ^ 90 = scaled at *
  have hquotient : 2 ^ places ≤ scaled / den := (Nat.le_div_iff_mul_le hden).mpr hplaces
  have hlog : places ≤ (scaled / den).log2 :=
    (Nat.le_log2 (Nat.two_pow_pos places |>.trans_le hquotient).ne').mpr hquotient
  have hunit : 2 ^ places * (den * 2 ^ ((scaled / den).log2 - places)) ≤ scaled := by
    rw [Nat.mul_left_comm, ← pow_add, Nat.add_sub_cancel' hlog, Nat.mul_comm]
    refine (Nat.mul_le_mul_right den (Nat.log2_self_le ?_)).trans (Nat.div_mul_le_self _ _)
    exact (Nat.two_pow_pos places |>.trans_le hquotient).ne'
  generalize hplace : 2 ^ ((scaled / den).log2 - places) = unit at *
  have herror := le_nearest_error scaled (Nat.mul_pos hden (hplace ▸ Nat.two_pow_pos _))
  have hscaled := Nat.mul_le_mul_left (2 ^ places) herror
  rw [Nat.mul_add] at hscaled
  rw [Nat.mul_left_comm den, pow_succ, Nat.mul_assoc, Nat.mul_assoc]
  exact hscaled.trans (Nat.add_le_add_left hunit _)

/-- The part of a number that its 32-bit float has at least. -/
def f32_part : ℚ := 1 - 1 / 2 ^ 24

theorem f32_part_nonneg : 0 ≤ f32_part := by norm_num [f32_part]

theorem round_f32_lower {num den : Nat} {value : ℚ} (hden : 0 < den)
    (hplaces : num = 0 ∨ 2 ^ 23 * den ≤ num * 2 ^ 90) (hvalue : value ≤ num / den) :
    f32_part * value ≤ round_f32 num den / 2 ^ 90 := by
  refine (mul_le_mul_of_nonneg_left hvalue f32_part_nonneg).trans ?_
  have hround : 2 ^ 24 * (num * 2 ^ 90) ≤ 2 ^ 24 * (den * round_f32 num den) + num * 2 ^ 90 :=
    le_round_float hden hplaces
  have hpos : (0 : ℚ) < den := by exact_mod_cast hden
  have hcast :
      (2 ^ 24 * (num * 2 ^ 90) : ℚ) ≤ 2 ^ 24 * (den * round_f32 num den) + num * 2 ^ 90 := by
    exact_mod_cast hround
  rw [← mul_div_assoc, div_le_div_iff₀ hpos (by positivity), f32_part]
  linarith

theorem round_f32_one_lower (value : Nat) :
    f32_part * (value : ℚ) ≤ round_f32 value 1 / 2 ^ 90 :=
  round_f32_lower Nat.one_pos (by omega) (by simp)

/-- Whole numbers are far from the smallest floats. -/
theorem round_f32_one_large (value : Nat) :
    round_f32 value 1 = 0 ∨ 2 ^ 89 ≤ round_f32 value 1 := by
  rcases Nat.eq_zero_or_pos value with rfl | hpos
  · exact .inl (by decide)
  · have hround : 2 ^ 24 * (value * 2 ^ 90) ≤ 2 ^ 24 * (1 * round_f32 value 1) + value * 2 ^ 90 :=
      le_round_float Nat.one_pos (by omega)
    omega

/-- The number of units rounded to 53 significant bits. -/
def round_bits (value : Nat) : Nat :=
  nearest value (2 ^ (value.log2 - 52)) * 2 ^ (value.log2 - 52)

theorem round_f64_one (value : Nat) : round_f64 value 1 = round_bits (value * 2 ^ 90) := by
  simp only [round_f64, round_float, round_bits, Nat.div_one, Nat.one_mul]

theorem round_f64_units (value : Nat) : round_f64 value (2 ^ 90) = round_bits value := by
  have hdiv : value * 2 ^ 90 / 2 ^ 90 = value := Nat.mul_div_cancel value (by decide)
  simp only [round_f64, round_float, round_bits, hdiv]
  rw [Nat.mul_comm (2 ^ 90), nearest_mul_right _ _ (by decide)]

/-- A number that has no more bits than fit stays as it is. -/
theorem round_bits_of_dvd {value : Nat} (hdvd : 2 ^ (value.log2 - 52) ∣ value) :
    round_bits value = value := by
  obtain ⟨quotient, hquotient⟩ := hdvd
  have hnearest : nearest value (2 ^ (value.log2 - 52)) = quotient := by
    have hexact :
        nearest (quotient * 2 ^ (value.log2 - 52) + 0) (2 ^ (value.log2 - 52)) = quotient :=
      nearest_add (Nat.two_pow_pos _)
    rwa [Nat.add_zero, Nat.mul_comm, ← hquotient] at hexact
  rw [round_bits, hnearest, Nat.mul_comm, ← hquotient]

theorem ne_zero_of_log2_pos {value : Nat} (hlog : 0 < value.log2) : value ≠ 0 := by
  rintro rfl
  exact absurd hlog (by decide)

theorem log2_le_of_lt {value exponent : Nat} (hvalue : value < 2 ^ (exponent + 1)) :
    value.log2 ≤ exponent := by
  rcases Nat.eq_zero_or_pos value with rfl | hpos
  · exact Nat.zero_le _
  · exact Nat.le_of_lt_succ ((Nat.log2_lt hpos.ne').mpr hvalue)

/-- A whole number of seconds and a fraction have the magnitude of the seconds. -/
theorem log2_seconds {secs frac : Nat} (hsecs : secs ≠ 0) (hfrac : frac < 2 ^ 90) :
    (secs * 2 ^ 90 + frac).log2 = secs.log2 + 90 := by
  have hlower := Nat.log2_self_le hsecs
  have hupper : secs < 2 ^ (secs.log2 + 1) := Nat.lt_log2_self
  rw [Nat.log2_eq_iff (by omega), show secs.log2 + 90 + 1 = secs.log2 + 1 + 90 by omega, pow_add,
    pow_add _ (secs.log2 + 1)]
  constructor
  · omega
  · have hnext := Nat.mul_le_mul_right (2 ^ 90) (Nat.succ_le_of_lt hupper)
    omega

/-- Below 2 ^ 52 seconds the sum is rounded to a fraction of a second, and it
    becomes the next second if it is half a place or less below it. -/
theorem round_sum_short {secs frac : Nat} (hsecs : secs ≠ 0) (hshort : secs.log2 ≤ 51)
    (hfrac : frac < 2 ^ 90) :
    round_bits (secs * 2 ^ 90 + frac) / 2 ^ 90 = secs ↔ frac + 2 ^ (secs.log2 + 37) < 2 ^ 90 := by
  have hhalf : 2 ^ (secs.log2 + 38) = 2 * 2 ^ (secs.log2 + 37) := by rw [← pow_succ']
  have hone : 2 ^ 90 = 2 * 2 ^ (51 - secs.log2) * 2 ^ (secs.log2 + 38) := by
    rw [← pow_succ', ← pow_add, show 51 - secs.log2 + 1 + (secs.log2 + 38) = 90 by omega]
  rw [round_bits, log2_seconds hsecs hfrac, show secs.log2 + 90 - 52 = secs.log2 + 38 by omega,
    hone, Nat.mul_div_mul_right _ _ (Nat.two_pow_pos _)]
  exact nearest_places hhalf (Nat.two_pow_pos _) (Nat.two_pow_pos _)

/-- From 2 ^ 52 seconds on the places are seconds. -/
theorem round_sum_whole {secs frac : Nat} (hlog : secs.log2 = 52) (hfrac : frac < 2 ^ 90) :
    round_bits (secs * 2 ^ 90 + frac) / 2 ^ 90 = secs ↔
      2 * frac < 2 ^ 90 ∨ 2 * frac = 2 ^ 90 ∧ secs % 2 = 0 := by
  have hsecs := ne_zero_of_log2_pos (show 0 < secs.log2 by omega)
  rw [round_bits, log2_seconds hsecs hfrac, hlog, Nat.mul_div_cancel _ (Nat.two_pow_pos _)]
  have hquotient : (secs * 2 ^ 90 + frac) / 2 ^ (52 + 90 - 52) = secs := by omega
  have hrest : (secs * 2 ^ 90 + frac) % 2 ^ (52 + 90 - 52) = frac := by omega
  simp only [nearest, hquotient, hrest]
  split_ifs <;> omega

/-- Above them a fraction of a second is lost. -/
theorem round_sum_long {secs frac : Nat} (hlog : 53 ≤ secs.log2)
    (hdvd : 2 ^ (secs.log2 - 52) ∣ secs) (hfrac : frac < 2 ^ 90) :
    round_bits (secs * 2 ^ 90 + frac) / 2 ^ 90 = secs := by
  have hsecs := ne_zero_of_log2_pos (show 0 < secs.log2 by omega)
  obtain ⟨places, hplaces⟩ := hdvd
  have hunit : 2 ^ (secs.log2 + 38) = 2 ^ (secs.log2 - 52) * 2 ^ 90 := by
    rw [← pow_add, show secs.log2 - 52 + 90 = secs.log2 + 38 by omega]
  have hsum : secs * 2 ^ 90 = places * 2 ^ (secs.log2 + 38) := by
    rw [hunit, ← Nat.mul_assoc, Nat.mul_comm places, ← hplaces]
  have hhalf : 2 * frac < 2 ^ (secs.log2 + 38) := by
    have hpow : 2 ^ 91 ≤ 2 ^ (secs.log2 + 38) := Nat.pow_le_pow_right (by decide) (by omega)
    omega
  rw [round_bits, log2_seconds hsecs hfrac, show secs.log2 + 90 - 52 = secs.log2 + 38 by omega,
    hsum, nearest_add hhalf, ← hsum, Nat.mul_div_cancel _ (Nat.two_pow_pos _)]

theorem round_bits_eq_self {value : Nat} :
    round_bits value = value ↔ 2 ^ (value.log2 - 52) ∣ value := by
  refine ⟨fun hround => ?_, round_bits_of_dvd⟩
  have hdvd : 2 ^ (value.log2 - 52) ∣ round_bits value := Nat.dvd_mul_left _ _
  rwa [hround] at hdvd

/-- Rounding keeps the magnitude or reaches the next power of two, so what it
    gives has no more bits than fit. -/
theorem round_bits_fits {value : Nat} (hlog : 53 ≤ value.log2) :
    53 ≤ (round_bits value).log2 ∧ 2 ^ ((round_bits value).log2 - 52) ∣ round_bits value := by
  have hvalue := ne_zero_of_log2_pos (show 0 < value.log2 by omega)
  have hlow : 2 ^ value.log2 = 2 ^ 52 * 2 ^ (value.log2 - 52) := by
    rw [← pow_add, show 52 + (value.log2 - 52) = value.log2 by omega]
  have hhigh : 2 ^ (value.log2 + 1) = 2 ^ 53 * 2 ^ (value.log2 - 52) := by
    rw [← pow_add, show 53 + (value.log2 - 52) = value.log2 + 1 by omega]
  have hlower : 2 ^ 52 ≤ nearest value (2 ^ (value.log2 - 52)) := by
    refine le_nearest (Nat.two_pow_pos _) ?_
    rw [← hlow]
    exact Nat.log2_self_le hvalue
  have hupper : nearest value (2 ^ (value.log2 - 52)) < 2 ^ 53 + 1 := by
    have hlt : value < 2 ^ (value.log2 + 1) := Nat.lt_log2_self
    refine nearest_lt ?_
    rw [Nat.add_mul, ← hhigh]
    omega
  rcases Nat.lt_or_ge (nearest value (2 ^ (value.log2 - 52))) (2 ^ 53) with hless | hnext
  · have hsame : (round_bits value).log2 = value.log2 := by
      have hpos : nearest value (2 ^ (value.log2 - 52)) * 2 ^ (value.log2 - 52) ≠ 0 :=
        Nat.mul_ne_zero (by omega) (Nat.two_pow_pos _).ne'
      rw [round_bits, Nat.log2_eq_iff hpos, hlow, hhigh]
      exact ⟨Nat.mul_le_mul_right _ hlower, Nat.mul_lt_mul_of_pos_right hless (Nat.two_pow_pos _)⟩
    rw [hsame]
    exact ⟨hlog, Nat.dvd_mul_left _ _⟩
  · have hpow : round_bits value = 2 ^ (value.log2 + 1) := by
      rw [hhigh, round_bits, show nearest value (2 ^ (value.log2 - 52)) = 2 ^ 53 by omega]
    rw [hpow, Nat.log2_two_pow]
    exact ⟨by omega, pow_dvd_pow 2 (by omega)⟩

theorem log2_whole_seconds {secs : Nat} (hsecs : secs ≠ 0) :
    (secs * 2 ^ 90).log2 = secs.log2 + 90 := by
  rw [← log2_seconds hsecs (Nat.two_pow_pos 90), Nat.add_zero]

/-- Below 2 ^ 53 the seconds are exact. -/
theorem round_seconds_short {secs : Nat} (hlog : secs.log2 ≤ 52) :
    round_bits (secs * 2 ^ 90) = secs * 2 ^ 90 := by
  rcases Nat.eq_zero_or_pos secs with rfl | hpos
  · decide
  · refine round_bits_of_dvd ?_
    rw [log2_whole_seconds hpos.ne']
    exact (pow_dvd_pow 2 (by omega)).trans (Nat.dvd_mul_left _ _)

theorem round_seconds_long {secs : Nat} (hlog : 53 ≤ secs.log2) :
    round_bits (secs * 2 ^ 90) = round_bits secs * 2 ^ 90 := by
  have hsecs := ne_zero_of_log2_pos (show 0 < secs.log2 by omega)
  have hunit : 2 ^ (secs.log2 + 90 - 52) = 2 ^ (secs.log2 - 52) * 2 ^ 90 := by
    rw [← pow_add, show secs.log2 + 90 - 52 = secs.log2 - 52 + 90 by omega]
  rw [round_bits, log2_whole_seconds hsecs, hunit, nearest_mul_right _ _ (Nat.two_pow_pos _),
    round_bits, Nat.mul_assoc]

section

variable {nanos : Nat}

/-- The fraction of a second has places of `2 ^ -53` at most. -/
theorem round_nanos_error (hnanos : nanos < 1000000000) :
    2 * (1000000000 * round_f64 nanos 1000000000) ≤ 2 * (nanos * 2 ^ 90) + 1000000000 * 2 ^ 37 := by
  have hlog : (nanos * 2 ^ 90 / 1000000000).log2 - 52 ≤ 37 := by
    have hle := log2_le_of_lt (show nanos * 2 ^ 90 / 1000000000 < 2 ^ (89 + 1) by omega)
    omega
  have hunit : 2 ^ ((nanos * 2 ^ 90 / 1000000000).log2 - 52) ≤ 2 ^ 37 :=
    Nat.pow_le_pow_right (by decide) hlog
  simp only [round_f64, round_float]
  generalize 2 ^ ((nanos * 2 ^ 90 / 1000000000).log2 - 52) = unit at hunit
  have herror := nearest_error (nanos * 2 ^ 90) (1000000000 * unit)
  rw [Nat.mul_left_comm (nearest _ _)] at herror
  omega

/-- From half a second on they are of `2 ^ -53`. -/
theorem round_nanos_upper (hhalf : 500000000 ≤ nanos) (hnanos : nanos < 1000000000) :
    round_f64 nanos 1000000000 = nearest (nanos * 2 ^ 53) 1000000000 * 2 ^ 37 := by
  have hlog : (nanos * 2 ^ 90 / 1000000000).log2 = 89 := by
    rw [Nat.log2_eq_iff (by omega)]
    omega
  have hscale : nanos * 2 ^ 90 = nanos * 2 ^ 53 * 2 ^ 37 := by omega
  simp only [round_f64, round_float, hlog]
  rw [hscale, nearest_mul_right _ _ (by decide)]

theorem round_nanos_lt (hnanos : nanos < 1000000000) :
    round_f64 nanos 1000000000 + 2 ^ 59 ≤ 2 ^ 90 := by
  have herror := round_nanos_error hnanos
  omega

/-- Nanoseconds that are more than half a place below the next second are so by half
    a place of the fraction too. -/
theorem places_margin {rest log : Nat} (hlog : log ≤ 51)
    (hrest : 1000000000 < rest * 2 ^ (53 - log)) :
    1000000000 * (2 * 2 ^ log + 1) < rest * 2 ^ 54 := by
  have hplaces : 2 ^ (53 - log) * (2 * 2 ^ log) = 2 ^ 54 := by
    rw [← pow_succ', ← pow_add, show 53 - log + (log + 1) = 54 by omega]
  rcases Nat.lt_or_ge log 23 with hfew | hmany
  · -- any number of nanoseconds is more than that many places
    have hpow : 2 ^ log ≤ 2 ^ 22 := Nat.pow_le_pow_right (by decide) (by omega)
    have hpos : 0 < rest := Nat.pos_of_mul_pos_right (by omega : 0 < rest * 2 ^ (53 - log))
    omega
  · rcases Nat.lt_or_ge log 29 with hbetween | habove
    · interval_cases log <;> omega
    · have hpow : 2 ^ 29 ≤ 2 ^ log := Nat.pow_le_pow_right (by decide) habove
      have hscaled := Nat.mul_le_mul_right (2 * 2 ^ log) (Nat.succ_le_of_lt hrest)
      rw [Nat.mul_assoc, hplaces] at hscaled
      omega

/-- Where the seconds have few bits the fraction is far enough from the next second
    if the nanoseconds are. -/
theorem round_nanos_short (hnanos : nanos < 1000000000) {log : Nat} (hlog : log ≤ 51) :
    round_f64 nanos 1000000000 + 2 ^ (log + 37) < 2 ^ 90 ↔
      1000000000 < (1000000000 - nanos) * 2 ^ (53 - log) := by
  have hplace : 2 ^ (log + 37) = 2 ^ log * 2 ^ 37 := pow_add 2 log 37
  have hplaces : 2 ^ log * 2 ^ (53 - log) = 2 ^ 53 := by
    rw [← pow_add, show log + (53 - log) = 53 by omega]
  have hfew : 2 ^ log ≤ 2 ^ 51 := Nat.pow_le_pow_right (by decide) hlog
  rcases Nat.lt_or_ge nanos 500000000 with hlower | hupper
  · have herror := round_nanos_error hnanos
    have hmany : 2 ^ 2 ≤ 2 ^ (53 - log) := Nat.pow_le_pow_right (by decide) (by omega)
    have hrest := Nat.mul_le_mul (show 500000001 ≤ 1000000000 - nanos by omega) hmany
    constructor <;> intro <;> omega
  · obtain ⟨rest, hrest⟩ : ∃ rest, nanos + rest = 1000000000 := ⟨1000000000 - nanos, by omega⟩
    rw [round_nanos_upper hupper hnanos, hplace, ← Nat.add_mul,
      show 1000000000 - nanos = rest by omega]
    constructor
    · intro hsum
      by_contra hnear
      have hscaled := Nat.mul_le_mul_right (2 ^ log) (Nat.le_of_not_lt hnear)
      rw [Nat.mul_assoc, Nat.mul_comm (2 ^ (53 - log)), hplaces] at hscaled
      have hnearest : 2 ^ 53 - 2 ^ log ≤ nearest (nanos * 2 ^ 53) 1000000000 := by
        refine le_nearest (by decide) ?_
        rw [Nat.sub_mul]
        omega
      omega
    · intro hfar
      have hmargin := places_margin hlog hfar
      have hnearest : nearest (nanos * 2 ^ 53) 1000000000 < 2 ^ 53 - 2 ^ log :=
        nearest_lt (by omega)
      omega

theorem round_nanos_half (hnanos : nanos < 1000000000) :
    (2 * round_f64 nanos 1000000000 < 2 ^ 90 ↔ 2 * nanos < 1000000000) ∧
      (2 * round_f64 nanos 1000000000 = 2 ^ 90 ↔ 2 * nanos = 1000000000) := by
  rcases Nat.lt_trichotomy nanos 500000000 with hbelow | rfl | habove
  · have herror := round_nanos_error hnanos
    omega
  · rw [show round_f64 500000000 1000000000 = 2 ^ 89 by decide]
    decide
  · have hnearest : 2 ^ 52 + 1 ≤ nearest (nanos * 2 ^ 53) 1000000000 :=
      le_nearest (by decide) (by omega)
    rw [round_nanos_upper habove.le hnanos]
    omega

end

/-- When the seconds of a time as a double have the time's whole seconds. -/
def WholeSeconds (secs nanos : Nat) : Prop :=
  secs = 0 ∨
  secs.log2 ≤ 51 ∧ 1000000000 < (1000000000 - nanos) * 2 ^ (53 - secs.log2) ∨
  secs.log2 = 52 ∧ (2 * nanos < 1000000000 ∨ 2 * nanos = 1000000000 ∧ secs % 2 = 0) ∨
  53 ≤ secs.log2 ∧ 2 ^ (secs.log2 - 52) ∣ secs

instance (secs nanos : Nat) : Decidable (WholeSeconds secs nanos) :=
  inferInstanceAs (Decidable (_ ∨ _))

/-- The whole seconds of the sum of the two doubles. -/
theorem round_sum_eq_secs {secs nanos : Nat} (hnanos : nanos < 1000000000) :
    round_f64 (round_f64 secs 1 + round_f64 nanos 1000000000) (2 ^ 90) / 2 ^ 90 = secs ↔
      WholeSeconds secs nanos := by
  have hfrac := round_nanos_lt hnanos
  rw [round_f64_units, round_f64_one, WholeSeconds]
  by_cases hsecs : secs = 0
  · -- rounded once more the fraction is still below the first second
    subst hsecs
    generalize round_f64 nanos 1000000000 = frac at hfrac
    have hlog := log2_le_of_lt (show frac < 2 ^ (89 + 1) by omega)
    have hunit : 2 ^ (frac.log2 - 52) ≤ 2 ^ 37 := Nat.pow_le_pow_right (by decide) (by omega)
    have herror := nearest_error frac (2 ^ (frac.log2 - 52))
    rw [round_seconds_short (by decide), Nat.zero_mul, Nat.zero_add, round_bits]
    simp only [true_or, iff_true]
    omega
  · rcases Nat.lt_or_ge secs.log2 52 with hshort | hlong
    · rw [round_seconds_short (by omega), round_sum_short hsecs (by omega) (by omega),
        round_nanos_short hnanos (by omega)]
      omega
    · rcases Nat.eq_or_lt_of_le hlong with hwhole | hlong
      · obtain ⟨hbelow, hequal⟩ := round_nanos_half hnanos
        rw [round_seconds_short (by omega), round_sum_whole hwhole.symm (by omega), hbelow, hequal]
        omega
      · obtain ⟨hlog, hdvd⟩ := round_bits_fits hlong
        rw [round_seconds_long hlong, round_sum_long hlog hdvd (by omega), round_bits_eq_self]
        omega

example : ¬WholeSeconds 1700000000 999999999 := by decide

end std.time
