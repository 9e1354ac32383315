import KernelNode.Collections.Traverse
import KernelNode.Net.DownloadQueue

open bitcoin bitcoinkernel

namespace std.i32

/-- Multiplication as a debug build does it. -/
def checked_mul (left right : Int32) : Option Int32 :=
  if (left * right).toInt = left.toInt * right.toInt then some (left * right) else none

theorem toInt_sub_of_range {left right : Int32} (hlower : -2 ^ 31 ≤ left.toInt - right.toInt)
    (hupper : left.toInt - right.toInt < 2 ^ 31) :
    (left - right).toInt = left.toInt - right.toInt := by
  rw [Int32.toInt_sub]
  exact Int.bmod_eq_of_le (by omega) (by omega)

theorem checked_sub_of_range {left right : Int32} (hlower : -2 ^ 31 ≤ left.toInt - right.toInt)
    (hupper : left.toInt - right.toInt < 2 ^ 31) :
    checked_sub left right = some (left - right) := by
  rw [checked_sub, if_pos (toInt_sub_of_range hlower hupper)]

theorem toInt_mul_two {value : Int32} (hlower : 0 ≤ value.toInt) (hupper : value.toInt < 2 ^ 30) :
    (value * 2).toInt = value.toInt * 2 := by
  rw [Int32.toInt_mul]
  have htwo : (2 : Int32).toInt = 2 := rfl
  rw [htwo]
  exact Int.bmod_eq_of_le (by omega) (by omega)

theorem checked_mul_two {value : Int32} (hlower : 0 ≤ value.toInt) (hupper : value.toInt < 2 ^ 30) :
    checked_mul value 2 = some (value * 2) := by
  rw [checked_mul]
  exact if_pos (toInt_mul_two hlower hupper)

theorem toInt_max_zero (value : Int32) : (max value 0).toInt = max value.toInt 0 := by
  have hmax : max value 0 = if value ≤ 0 then 0 else value := rfl
  have hzero : (0 : Int32).toInt = 0 := rfl
  rw [hmax]
  split
  · rename_i hle
    rw [Int32.le_iff_toInt_le, hzero] at hle
    rw [hzero]
    omega
  · rename_i hlt
    rw [Int32.le_iff_toInt_le, hzero] at hlt
    omega

theorem eq_zero_iff (value : Int32) : value = 0 ↔ value.toInt = 0 :=
  ⟨fun h => by rw [h]; rfl, fun h => Int32.toInt_inj.mp h⟩

end std.i32

namespace net

/-- A round of the loop of `build_block_locators`: the height that it looks up,
    the step to the next one, and the number of locators after its push. -/
structure LocatorRound where
  current_height : Int32
  step : Int32
  pushed : Nat

def LocatorRound.next (double : Int32 → Int32) (self : LocatorRound) : LocatorRound where
  current_height := max (self.current_height - self.step) 0
  step := if self.pushed > 10 then double self.step else self.step
  pushed := self.pushed + 1

/-- The rounds of the loop from a given one on, where `double` is what the
    multiplication of the step by two gives. -/
def locator_rounds (double : Int32 → Int32) : Nat → LocatorRound → List LocatorRound
  | 0, _ => []
  | remaining + 1, round =>
    round :: if round.current_height = 0 then [] else
      locator_rounds double remaining (round.next double)

/-- The multiplication is right where it does not overflow. -/
def Doubles (double : Int32 → Int32) : Prop :=
  ∀ step twice, std.i32.checked_mul step 2 = some twice → double step = twice

theorem wrapping_doubles : Doubles fun step => step * 2 := by
  intro step twice htwice
  rw [std.i32.checked_mul, Option.ite_none_right_eq_some, Option.some.injEq] at htwice
  exact htwice.2

/-- How far below the tip a round is: ten steps of one, then the steps double. -/
def locator_depth (round : Nat) : Nat := if round ≤ 10 then round else 9 + 2 ^ (round - 10)

def locator_step (round : Nat) : Nat := 2 ^ (round - 10)

theorem locator_depth_succ (round : Nat) :
    locator_depth (round + 1) = locator_depth round + locator_step round := by
  simp only [locator_depth, locator_step]
  rcases Nat.lt_or_ge round 10 with hlinear | hdouble
  · rw [if_pos (by omega), if_pos (by omega), Nat.sub_eq_zero_of_le (by omega)]
    rfl
  · obtain ⟨k, rfl⟩ := Nat.exists_eq_add_of_le hdouble
    rw [if_neg (by omega), show 10 + k + 1 - 10 = k + 1 by omega, Nat.add_sub_cancel_left, pow_succ]
    split
    · obtain rfl : k = 0 := by omega
      rfl
    · omega

theorem locator_step_succ (round : Nat) :
    locator_step (round + 1) = if round + 1 > 10 then locator_step round * 2 else
      locator_step round := by
  simp only [locator_step]
  split
  · rw [show round + 1 - 10 = round - 10 + 1 by omega, pow_succ]
  · rw [Nat.sub_eq_zero_of_le (by omega), Nat.sub_eq_zero_of_le (by omega)]

theorem locator_step_pos (round : Nat) : 0 < locator_step round := Nat.two_pow_pos _

theorem locator_step_le (round : Nat) : locator_step round ≤ locator_depth round + 1 := by
  simp only [locator_step, locator_depth]
  split
  · rw [Nat.sub_eq_zero_of_le (by assumption)]
    omega
  · omega

theorem locator_depth_lt {round later : Nat} (hlater : round < later) :
    locator_depth round < locator_depth later := by
  induction later, hlater using Nat.le_induction with
  | base => rw [locator_depth_succ]; exact Nat.lt_add_of_pos_right (locator_step_pos round)
  | succ later _ ih => rw [locator_depth_succ]; omega

/-- What the loop has in a round: the height above genesis, and while it is above
    it, the step. -/
structure LocatorRound.At (state : LocatorRound) (height round : Nat) : Prop where
  current_height : state.current_height.toInt = ((height - locator_depth round : Nat) : Int)
  step : locator_depth round < height → state.step.toInt = (locator_step round : Int)
  pushed : state.pushed = round + 1

section

variable {double : Int32 → Int32} (hdouble : Doubles double) {height : Nat}
  (hheight : height < 2 ^ 31)

theorem LocatorRound.At.current_height_ne_zero {self : LocatorRound} {round : Nat}
    (hat : self.At height round) : self.current_height ≠ 0 ↔ locator_depth round < height := by
  rw [Ne, std.i32.eq_zero_iff, hat.current_height]
  omega

include hheight

/-- The height less the step is in range, and the maximum cuts it at genesis. -/
theorem LocatorRound.At.sub_step {self : LocatorRound} {round : Nat}
    (hat : self.At height round) (habove : locator_depth round < height) :
    std.i32.checked_sub self.current_height self.step =
        some (self.current_height - self.step) ∧
      (max (self.current_height - self.step) 0).toInt =
        ((height - locator_depth (round + 1) : Nat) : Int) := by
  have hcurrent := hat.current_height
  have hstep := hat.step habove
  have hstep_le := locator_step_le round
  refine ⟨std.i32.checked_sub_of_range (by omega) (by omega), ?_⟩
  rw [std.i32.toInt_max_zero, std.i32.toInt_sub_of_range (by omega) (by omega), hcurrent, hstep,
    locator_depth_succ]
  omega

/-- A step that does not reach genesis can be doubled. -/
theorem LocatorRound.At.double_step {self : LocatorRound} {round : Nat}
    (hat : self.At height round) (hnext : locator_depth (round + 1) < height) :
    std.i32.checked_mul self.step 2 = some (self.step * 2) ∧
      (self.step * 2).toInt = (locator_step round * 2 : Nat) := by
  have hstep := hat.step (Nat.lt_trans (locator_depth_lt (Nat.lt_succ_self round)) hnext)
  have hstep_le := locator_step_le round
  rw [locator_depth_succ] at hnext
  refine ⟨std.i32.checked_mul_two (by omega) (by omega), ?_⟩
  rw [std.i32.toInt_mul_two (by omega) (by omega), hstep]
  rfl

include hdouble

theorem LocatorRound.At.next {self : LocatorRound} {round : Nat} (hat : self.At height round)
    (habove : locator_depth round < height) : (self.next double).At height (round + 1) where
  current_height := (hat.sub_step hheight habove).2
  step hnext := by
    obtain ⟨hchecked, htwice⟩ := hat.double_step hheight hnext
    simp only [LocatorRound.next, hat.pushed, locator_step_succ]
    split
    · rw [hdouble _ _ hchecked, htwice]
    · exact hat.step habove
  pushed := by rw [LocatorRound.next, hat.pushed]

/-- The rounds from a given one on are those that follow it. -/
theorem locator_rounds_at (remaining : Nat) {round : Nat} {first : LocatorRound}
    (hfirst : first.At height round) :
    ∀ later ∈ locator_rounds double remaining first, ∃ number ≥ round, later.At height number := by
  induction remaining generalizing first round with
  | zero => exact fun later hlater => absurd hlater List.not_mem_nil
  | succ remaining ih =>
    intro later hlater
    rcases List.mem_cons.mp hlater with rfl | hlater
    · exact ⟨round, Nat.le_refl round, hfirst⟩
    · split at hlater
      · cases hlater
      · rename_i habove
        obtain ⟨number, hnumber, hat⟩ := ih (hfirst.next hdouble hheight
          (hfirst.current_height_ne_zero.mp habove)) later hlater
        exact ⟨number, Nat.le_of_succ_le hnumber, hat⟩

/-- The heights go down. -/
theorem locator_rounds_decreasing {remaining round : Nat} {first : LocatorRound}
    (hfirst : first.At height round) :
    (locator_rounds double remaining first).Pairwise fun round later =>
      later.current_height < round.current_height := by
  induction remaining generalizing first round with
  | zero => exact .nil
  | succ remaining ih =>
    rw [locator_rounds]
    split
    · exact List.pairwise_singleton _ _
    · rename_i habove
      rw [← Ne, hfirst.current_height_ne_zero] at habove
      have hnext := hfirst.next hdouble hheight habove
      refine List.pairwise_cons.mpr ⟨fun later hlater => ?_, ih hnext⟩
      obtain ⟨number, hnumber, hat⟩ :=
        locator_rounds_at hdouble hheight remaining hnext later hlater
      have hdepth := locator_depth_lt (Nat.lt_of_succ_le hnumber)
      rw [Int32.lt_iff_toInt_lt, hat.current_height, hfirst.current_height]
      omega

/-- Genesis is reached by the forty-second round, with room for more. -/
theorem locator_rounds_last (remaining : Nat) {round : Nat} {first : LocatorRound}
    (hfirst : first.At height round) (hround : round ≤ 41) (hremaining : 42 ≤ round + remaining) :
    (∃ last, (locator_rounds double remaining first).getLast? = some last ∧
      last.current_height = 0) ∧
    (locator_rounds double remaining first).length + round ≤ 42 := by
  induction remaining generalizing first round with
  | zero => omega
  | succ remaining ih =>
    rw [locator_rounds]
    split
    · rename_i hzero
      exact ⟨⟨first, rfl, hzero⟩, by simp; omega⟩
    · rename_i habove
      rw [← Ne, hfirst.current_height_ne_zero] at habove
      have hnext := hfirst.next hdouble hheight habove
      have hearlier : round ≠ 41 := by
        rintro rfl
        have hdeep : locator_depth 41 = 9 + 2 ^ 31 := rfl
        omega
      obtain ⟨⟨last, hlast, hzero⟩, hlength⟩ := ih hnext (by omega) (by omega)
      refine ⟨⟨last, ?_, hzero⟩, by rw [List.length_cons]; omega⟩
      rw [List.getLast?_cons, hlast]
      rfl

end

theorem locator_rounds_heights {double other : Int32 → Int32} (hdouble : Doubles double)
    (hother : Doubles other) {height : Nat} (hheight : height < 2 ^ 31) {remaining round : Nat}
    {first second : LocatorRound} (hfirst : first.At height round)
    (hsecond : second.At height round) :
    (locator_rounds double remaining first).map LocatorRound.current_height =
      (locator_rounds other remaining second).map LocatorRound.current_height := by
  induction remaining generalizing first second round with
  | zero => rfl
  | succ remaining ih =>
    have hsame : first.current_height = second.current_height :=
      Int32.toInt_inj.mp (hfirst.current_height.trans hsecond.current_height.symm)
    simp only [locator_rounds, List.map_cons, hsame, List.cons.injEq, true_and]
    split
    · rfl
    · rename_i habove
      exact ih (hfirst.next hdouble hheight (hfirst.current_height_ne_zero.mp (hsame ▸ habove)))
        (hsecond.next hother hheight (hsecond.current_height_ne_zero.mp habove))

/-- The loop looks up the heights of its rounds. -/
theorem build_block_locators_loop_eq (tip : BlockTreeEntry) (remaining : Nat)
    (current_height step : Int32) (locators : List BlockHash) :
    build_block_locators_loop tip remaining current_height step locators =
      (((locator_rounds (fun step => step * 2) remaining
        ⟨current_height, step, locators.length + 1⟩).map LocatorRound.current_height).mapM
          tip.ancestor).map fun pushed => locators ++ pushed := by
  induction remaining generalizing current_height step locators with
  | zero => simp [build_block_locators_loop, locator_rounds]
  | succ remaining ih =>
    simp only [build_block_locators_loop, locator_rounds, List.map_cons, List.mapM_cons,
      Option.bind_eq_bind, Option.pure_def]
    cases tip.ancestor current_height with
    | none => rfl
    | some hash =>
      simp only [Option.bind_some]
      split
      · simp
      · rw [ih]
        simp only [List.length_append, List.length_singleton, LocatorRound.next]
        cases List.mapM tip.ancestor _ <;> simp

theorem tip_height_toInt (tip : BlockTreeEntry) :
    tip.height.toInt = ((tip.hashes.length - 1 : Nat) : Int) := by
  have hlength := tip.length_le
  have hpos := List.length_pos_of_ne_nil tip.ne_nil
  exact Int32.toInt_ofNat_of_lt (by omega)

theorem ancestor_of_range {tip : BlockTreeEntry} {height : Int32} (hlower : 0 ≤ height)
    (hupper : height ≤ tip.height) : ∃ hash, tip.ancestor height = some hash := by
  rw [Int32.le_iff_toInt_le, tip_height_toInt] at hupper
  have hpos := List.length_pos_of_ne_nil tip.ne_nil
  have hindex : height.toNatClampNeg < tip.hashes.reverse.length := by
    change height.toInt.toNat < _
    rw [List.length_reverse]
    omega
  rw [BlockTreeEntry.ancestor, if_neg (Int32.not_lt.mpr hlower)]
  exact ⟨_, List.getElem?_eq_getElem hindex⟩

theorem ancestor_zero (tip : BlockTreeEntry) : tip.ancestor 0 = tip.hashes.getLast? := by
  rw [BlockTreeEntry.ancestor, if_neg (by decide), ← List.head?_reverse, List.head?_eq_getElem?]
  rfl

theorem first_round_at (tip : BlockTreeEntry) :
    LocatorRound.At ⟨tip.height, 1, 1⟩ (tip.hashes.length - 1) 0 where
  current_height := tip_height_toInt tip
  step _ := rfl
  pushed := rfl

/-- The locators of a tip of any height go down to genesis and are at most
    forty-two. Every height that is looked up is on the chain. The one operation
    that can overflow is the doubling of a step when the next height is already
    zero; what it gives makes no difference. -/
theorem block_locators_reach_genesis (tip : BlockTreeEntry) {double : Int32 → Int32}
    (hdouble : Doubles double) :
    ∃ (rounds : List LocatorRound) (locators : List BlockHash),
      locator_rounds double MAX_LOCATOR_HASHES ⟨tip.height, 1, 1⟩ = rounds ∧
      build_block_locators tip = some locators ∧
      List.Forall₂ (fun round hash => tip.ancestor round.current_height = some hash)
        rounds locators ∧
      (∀ round ∈ rounds, 0 ≤ round.current_height ∧ round.current_height ≤ tip.height) ∧
      (rounds.Pairwise fun round later => later.current_height < round.current_height) ∧
      (∃ first, rounds.head? = some first ∧ first.current_height = tip.height) ∧
      (∃ last, rounds.getLast? = some last ∧ last.current_height = 0) ∧
      locators.getLast? = tip.hashes.getLast? ∧ rounds.length ≤ 42 ∧
      ∀ round ∈ rounds, round.current_height ≠ 0 →
        std.i32.checked_sub round.current_height round.step =
          some (round.current_height - round.step) ∧
        (std.i32.checked_mul round.step 2 = none →
          max (round.current_height - round.step) 0 = 0) := by
  have hheight : tip.hashes.length - 1 < 2 ^ 31 := by
    have hlength := tip.length_le
    omega
  have hfirst := first_round_at tip
  have hrounds := locator_rounds_at hdouble hheight MAX_LOCATOR_HASHES hfirst
  have hrange : ∀ round ∈ locator_rounds double MAX_LOCATOR_HASHES ⟨tip.height, 1, 1⟩,
      0 ≤ round.current_height ∧ round.current_height ≤ tip.height := by
    intro round hround
    obtain ⟨number, _, hat⟩ := hrounds round hround
    have hzero : (0 : Int32).toInt = 0 := rfl
    rw [Int32.le_iff_toInt_le, Int32.le_iff_toInt_le, hat.current_height, hzero, tip_height_toInt]
    omega
  obtain ⟨locators, hlocators⟩ : ∃ locators, ((locator_rounds double MAX_LOCATOR_HASHES
      ⟨tip.height, 1, 1⟩).map LocatorRound.current_height).mapM tip.ancestor = some locators := by
    refine std.option.exists_mapM_eq_some fun height hheight => ?_
    obtain ⟨round, hround, rfl⟩ := List.mem_map.mp hheight
    exact ancestor_of_range (hrange round hround).1 (hrange round hround).2
  have hlookups := List.forall₂_map_left_iff.mp (std.option.forall₂_of_mapM hlocators)
  obtain ⟨⟨last, hlast, hzero⟩, hlength⟩ := locator_rounds_last hdouble hheight
    MAX_LOCATOR_HASHES hfirst (by decide) (by decide)
  refine ⟨_, locators, rfl, ?_, hlookups, hrange,
    locator_rounds_decreasing hdouble hheight hfirst, ⟨_, rfl, rfl⟩, ⟨last, hlast, hzero⟩, ?_,
    hlength, ?_⟩
  · rw [build_block_locators, build_block_locators_loop_eq, List.length_nil,
      locator_rounds_heights wrapping_doubles hdouble hheight hfirst hfirst, hlocators]
    rfl
  · obtain ⟨genesis, hgenesis, hlookup⟩ := std.option.getLast?_of_forall₂ hlookups hlast
    rw [hgenesis, ← ancestor_zero, ← hzero, hlookup]
  · intro round hround habove
    obtain ⟨number, _, hat⟩ := hrounds round hround
    obtain ⟨hsub, hnext⟩ := hat.sub_step hheight (hat.current_height_ne_zero.mp habove)
    refine ⟨hsub, fun hoverflow => ?_⟩
    rw [std.i32.eq_zero_iff, hnext]
    by_contra hpositive
    rw [(hat.double_step hheight (by omega)).1] at hoverflow
    cases hoverflow

/-- A chain of sixty-one blocks, its tip first. -/
def sixty_high : BlockTreeEntry where
  hashes := ((List.range 61).map fun height => regtest.block_hash (.ofNat height)).reverse
  ne_nil := by decide
  nodup := by decide +kernel
  length_le := by decide

/-- The steps double after the first twelve locators, and the last one is cut off at
    genesis. -/
theorem block_locators_reach_genesis_sixty_high : ∃ locators,
    build_block_locators sixty_high = some locators ∧
    locators = [60, 59, 58, 57, 56, 55, 54, 53, 52, 51, 50, 49, 47, 43, 35, 19, 0].map
      regtest.block_hash ∧
    locators.getLast? = sixty_high.hashes.getLast? := by
  obtain ⟨_, locators, _, hbuild, _, _, _, _, _, hlast, _⟩ :=
    block_locators_reach_genesis sixty_high wrapping_doubles
  have hheights : build_block_locators sixty_high =
      some ([60, 59, 58, 57, 56, 55, 54, 53, 52, 51, 50, 49, 47, 43, 35, 19, 0].map
        regtest.block_hash) := by
    decide +kernel
  exact ⟨locators, hbuild, Option.some.inj (hbuild.symm.trans hheights), hlast⟩

end net
