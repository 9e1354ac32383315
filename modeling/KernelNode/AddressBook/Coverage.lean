import KernelNode.AddressBook.Table

open bitcoin std.bytes std.hash

namespace address_book

/-- The bucket of a record that has these two ids. -/
def bucket_of_ids (B W : Nat) (source : SourceId) (destination : DestinationId) : Nat :=
  (derive_range B W source + derive_index W destination) % USIZE % B

/-- `W` windows of `W` numbers, the next one `B / W` further on, leave no number
    below `B` out when the last one reaches the end. -/
theorem windows_cover {B W : Nat} (hwidth : 0 < W) (hbuckets : W ≤ B)
    (hreach : B / W + B % W ≤ W) {bucket : Nat} (hbucket : bucket < B) :
    ∃ salt < W, ∃ index < W, salt * (B / W) + index = bucket := by
  have hparts := Nat.div_add_mod B W
  have hindex := Nat.mod_lt bucket (Nat.div_pos hbuckets hwidth)
  by_cases hinner : bucket / (B / W) < W
  · exact ⟨bucket / (B / W), hinner, bucket % (B / W), by omega, Nat.div_add_mod' bucket (B / W)⟩
  · have hlast : (W - 1) * (B / W) ≤ bucket :=
      calc (W - 1) * (B / W) ≤ bucket / (B / W) * (B / W) := Nat.mul_le_mul_right _ (by omega)
        _ ≤ bucket := Nat.div_mul_le_self bucket (B / W)
    refine ⟨W - 1, by omega, bucket - (W - 1) * (B / W), ?_, by omega⟩
    rw [Nat.sub_mul, Nat.one_mul] at hlast ⊢
    omega

/-- The last number is out of reach of the windows when the last one ends before
    it. -/
theorem windows_reach {B W salt index : Nat} (hsalt : salt < W) (hindex : index < W)
    (hlast : salt * (B / W) + index = B - 1) (hbuckets : 0 < B) : B / W + B % W ≤ W := by
  have hparts := Nat.div_add_mod B W
  have hstart : salt * (B / W) ≤ (W - 1) * (B / W) := Nat.mul_le_mul_right _ (by omega)
  rw [Nat.sub_mul, Nat.one_mul] at hstart
  have hrun : B / W ≤ W * (B / W) := Nat.le_mul_of_pos_left _ (by omega)
  omega

section

variable {B W : Nat} (hwidth : 0 < W) (hbuckets : W ≤ B) (hword : W ≤ 2 ^ 32) (husize : B < USIZE)

include hwidth

theorem derive_salt_lt (source : SourceId) : derive_salt W source < W := Nat.mod_lt _ hwidth

theorem derive_index_lt (destination : DestinationId) : derive_index W destination < W :=
  Nat.mod_lt _ hwidth

theorem salt_run_lt {salt : Nat} (hsalt : salt < W) (hbuckets : W ≤ B) : salt * (B / W) < B :=
  calc salt * (B / W) < W * (B / W) :=
        Nat.mul_lt_mul_of_pos_right hsalt (Nat.div_pos hbuckets hwidth)
    _ ≤ B := Nat.mul_div_le B W

include hbuckets husize

/-- Nothing wraps in the scaling of the salt. -/
theorem derive_range_eq (source : SourceId) :
    derive_range B W source = derive_salt W source * (B / W) := by
  have hlt := salt_run_lt hwidth (derive_salt_lt hwidth source) hbuckets
  rw [derive_range, Nat.mod_eq_of_lt (hlt.trans husize), Nat.mod_eq_of_lt hlt]

include hword

/-- Nothing wraps in the sum either: a table so wide that it could has a run that
    is longer than a window. -/
theorem range_add_index_lt (source : SourceId) (destination : DestinationId) :
    derive_range B W source + derive_index W destination < USIZE := by
  rw [derive_range_eq hwidth hbuckets husize]
  have hsalt := derive_salt_lt hwidth source
  have hindex := derive_index_lt hwidth destination
  have hrange : derive_salt W source * (B / W) ≤ (W - 1) * (B / W) :=
    Nat.mul_le_mul_right _ (by omega)
  rcases Nat.lt_or_ge (B / W) (2 ^ 32) with hshort | hlong
  · have hproduct : (W - 1) * (B / W) ≤ (2 ^ 32 - 1) * (2 ^ 32 - 1) :=
      Nat.mul_le_mul (by omega) (by omega)
    rw [USIZE]
    omega
  · have hfit := Nat.mul_div_le B W
    rw [Nat.sub_mul, Nat.one_mul] at hrange
    omega

theorem bucket_of_ids_eq (source : SourceId) (destination : DestinationId) :
    bucket_of_ids B W source destination =
      (derive_salt W source * (B / W) + derive_index W destination) % B := by
  have hlt := range_add_index_lt hwidth hbuckets hword husize source destination
  rw [bucket_of_ids, Nat.mod_eq_of_lt hlt, derive_range_eq hwidth hbuckets husize]

end

theorem of_le_four {value : Nat} (hvalue : value < 2 ^ 32) :
    of_le (to_le 4 value).toList = value := by
  rw [of_le_to_le]
  exact Nat.mod_eq_of_lt (by omega)

/-- The bucket of a record depends on its two ids, and a table wastes no bucket
    exactly where a run and the remainder fit into one window. -/
theorem every_bucket_reached_iff {B W : Nat} (hwidth : 0 < W) (hbuckets : W ≤ B)
    (hword : W ≤ 2 ^ 32) (husize : B < USIZE) :
    (∀ hasherInst record, Table.derive_bucket hasherInst B W record =
      bucket_of_ids B W record.source (destination_id hasherInst record.addr)) ∧
    ((∀ bucket < B, ∃ source destination, bucket_of_ids B W source destination = bucket) ↔
      B / W + B % W ≤ W) := by
  refine ⟨fun hasherInst record => rfl, ?_⟩
  constructor
  · intro hreached
    obtain ⟨source, destination, hlast⟩ := hreached (B - 1) (by omega)
    rw [bucket_of_ids_eq hwidth hbuckets hword husize] at hlast
    have hsalt := derive_salt_lt hwidth source
    have hindex := derive_index_lt hwidth destination
    have hstart := salt_run_lt hwidth hsalt hbuckets
    -- the sum is below `2 * B - 1`, so it has not gone round to the last bucket
    have hround : derive_salt W source * (B / W) + derive_index W destination < B := by
      by_contra hover
      rw [Nat.mod_eq_sub_mod (by omega), Nat.mod_eq_of_lt (by omega)] at hlast
      omega
    rw [Nat.mod_eq_of_lt hround] at hlast
    exact windows_reach hsalt hindex hlast (by omega)
  · intro hreach bucket hbucket
    obtain ⟨salt, hsalt, index, hindex, hsum⟩ := windows_cover hwidth hbuckets hreach hbucket
    refine ⟨⟨to_le 4 salt⟩, ⟨to_le 4 index⟩, ?_⟩
    rw [bucket_of_ids_eq hwidth hbuckets hword husize, derive_salt, derive_index,
      of_le_four (by omega), of_le_four (by omega), Nat.mod_eq_of_lt hsalt,
      Nat.mod_eq_of_lt hindex, hsum, Nat.mod_eq_of_lt hbucket]

/-- The node's table wastes none, and one with four more buckets would. -/
theorem every_bucket_reached_iff_node_table :
    (∀ bucket < 16, ∃ source destination, bucket_of_ids 16 4 source destination = bucket) ∧
      ¬∀ bucket < 20, ∃ source destination, bucket_of_ids 20 4 source destination = bucket :=
  ⟨(every_bucket_reached_iff (B := 16) (W := 4) (by decide) (by decide) (by decide)
      (by decide)).2.mpr (by decide),
    fun hreached => absurd ((every_bucket_reached_iff (B := 20) (W := 4) (by decide) (by decide)
      (by decide) (by decide)).2.mp hreached) (by decide)⟩

end address_book
