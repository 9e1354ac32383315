import Mathlib.Data.Fintype.Prod
import Mathlib.Data.Finset.Card
import KernelNode.AddressBook.Table

open bitcoin placement std.bytes std.hash std.net

namespace address_book

/-- The peers that gossip as one source. -/
inductive SourceGroup where
  | V4 (first_two_octets : List UInt8)
  | V6 (first_four_octets : List UInt8)
  | Mixnet
deriving DecidableEq

def SourceGroup.of_ip : IpAddr → SourceGroup
  | .V4 octets => .V4 (octets.toList.take 2)
  | .V6 octets => .V6 (octets.toList.take 4)

def SourceGroup.of_addrv2 : AddrV2 → SourceGroup
  | .Ipv4 octets => .of_ip (.V4 octets)
  | .Ipv6 octets => .of_ip (.V6 octets)
  | _ => .Mixnet

/-- The records made for the addresses that a group of peers relays. -/
inductive RelayedBy (hasherInst : DefaultHasher) (group : SourceGroup) : Record → Prop where
  | new (addr : AddrV2) (port : UInt16) (services : UInt64) {source : IpAddr}
      (hsource : SourceGroup.of_ip source = group) :
      RelayedBy hasherInst group (.new hasherInst addr port services source)
  | new_from_addrv2_source (addr : AddrV2) (port : UInt16) (services : UInt64) {source : AddrV2}
      (hsource : SourceGroup.of_addrv2 source = group) :
      RelayedBy hasherInst group (.new_from_addrv2_source hasherInst addr port services source)

/-- The source id that a group shares. -/
def SourceGroup.source_id (hasherInst : DefaultHasher) : SourceGroup → SourceId
  | .V4 first_two_octets => ⟨first_four (hasherInst.hash_bytes first_two_octets)⟩
  | .V6 first_four_octets => ⟨first_four (hasherInst.hash_bytes first_four_octets)⟩
  | .Mixnet => ⟨List.Vector.replicate 4 1⟩

theorem RelayedBy.source_eq {hasherInst : DefaultHasher} {group : SourceGroup} {record : Record}
    (hrelayed : RelayedBy hasherInst group record) :
    record.source = group.source_id hasherInst := by
  cases hrelayed with
  | @new addr port services source hsource =>
    subst hsource
    cases source <;> rfl
  | @new_from_addrv2_source addr port services source hsource =>
    subst hsource
    cases source <;> rfl

section

variable {B S W : Nat}

/-- Every record is added, whatever it conflicts with. -/
def Table.add_all (hasherInst : DefaultHasher) [NeZero B] [NeZero S] (self : Table B S W)
    (records : List Record) : Table B S W :=
  records.foldl (fun table record => (table.add hasherInst record).2) self

theorem Table.add_all_cells {hasherInst : DefaultHasher} [NeZero B] [NeZero S]
    (table : Table B S W) (records : List Record) :
    (table.add_all hasherInst records).cells =
      placement.add_all (place hasherInst B S W) table.cells records := by
  induction records generalizing table with
  | nil => rfl
  | cons record records ih =>
    refine (ih (table.add hasherInst record).2).trans ?_
    rw [(table.add_eq hasherInst record).2]
    rfl

/-- The buckets that a source can reach. -/
def source_buckets (B W : Nat) [NeZero B] (source : SourceId) : Finset (Fin B) :=
  (Finset.range W).image fun index => Fin.ofNat B ((derive_range B W source + index) % USIZE)

theorem card_source_buckets_le [NeZero B] (source : SourceId) :
    (source_buckets B W source).card ≤ W :=
  Finset.card_image_le.trans_eq (Finset.card_range W)

theorem Table.bucket_index_mem {hasherInst : DefaultHasher} [NeZero B] (hwidth : 0 < W)
    (record : Record) : bucket_index hasherInst B W record ∈ source_buckets B W record.source :=
  Finset.mem_image.mpr ⟨derive_index W (destination_id hasherInst record.addr),
    Finset.mem_range.mpr (Nat.mod_lt _ hwidth), rfl⟩

/-- Adding records of one source changes no slot outside the source's buckets. -/
theorem Table.add_all_cells_eq {hasherInst : DefaultHasher} [NeZero B] [NeZero S] (hwidth : 0 < W)
    (table : Table B S W) {source : SourceId} {records : List Record}
    (hrecords : ∀ record ∈ records, record.source = source) {cell : Fin B × Fin S}
    (hcell : cell.1 ∉ source_buckets B W source) :
    (table.add_all hasherInst records).cells cell = table.cells cell := by
  rw [add_all_cells]
  refine add_all_apply_of_not_mem fun hmem => ?_
  obtain ⟨record, hrecord, rfl⟩ := List.mem_map.mp hmem
  rw [← hrecords record hrecord] at hcell
  exact hcell (bucket_index_mem hwidth record)

/-- The cells outside a set of buckets. -/
theorem card_cells_outside (buckets : Finset (Fin B)) :
    (Finset.univ.filter fun cell : Fin B × Fin S => cell.1 ∉ buckets).card =
      (B - buckets.card) * S := by
  have hcells : (Finset.univ.filter fun cell : Fin B × Fin S => cell.1 ∉ buckets) =
      bucketsᶜ ×ˢ Finset.univ := by
    ext cell
    simp
  rw [hcells, Finset.card_product, Finset.card_compl, Fintype.card_fin, Finset.card_univ,
    Fintype.card_fin]

end

/-- The sums and products in `derive_bucket` stay below the word size. -/
theorem derive_bucket_no_overflow (hasherInst : DefaultHasher) {B S W : Nat} [NeZero B] [NeZero S]
    (hwidth : 0 < W) (hbuckets : W < B) (hlayout : Layout B S) (record : Record) :
    derive_salt W record.source * (B / W) < USIZE ∧
      derive_range B W record.source +
        derive_index W (destination_id hasherInst record.addr) < USIZE := by
  have hword : B < 2 ^ 63 :=
    (Nat.le_mul_of_pos_right B (Nat.pos_of_neZero S)).trans_lt hlayout
  have hsalt : derive_salt W record.source * (B / W) ≤ B :=
    calc derive_salt W record.source * (B / W) ≤ W * (B / W) :=
          Nat.mul_le_mul_right _ (Nat.mod_lt _ hwidth).le
      _ ≤ B := Nat.mul_div_le B W
  have hrange : derive_range B W record.source < B := Nat.mod_lt _ (Nat.pos_of_neZero B)
  have hindex : derive_index W (destination_id hasherInst record.addr) < W := Nat.mod_lt _ hwidth
  rw [USIZE]
  omega

/-- A group of peers can change slots of at most `W` buckets, however many
    addresses it relays. -/
theorem gossip_source_bounded (hasherInst : DefaultHasher) {B S W : Nat} [NeZero B] [NeZero S]
    (hwidth : 0 < W) (hbuckets : W < B) (hlayout : Layout B S) (table : Table B S W)
    (group : SourceGroup) (records : List Record)
    (hrecords : ∀ record ∈ records, RelayedBy hasherInst group record) :
    (∃ changed : Finset (Fin B), changed.card ≤ W ∧ ∀ bucket slot, bucket ∉ changed →
      (table.add_all hasherInst records).cells (bucket, slot) = table.cells (bucket, slot)) ∧
    (B - W) * S ≤ (Finset.univ.filter fun cell =>
      (table.add_all hasherInst records).cells cell = table.cells cell).card ∧
    ∀ record : Record,
      derive_salt W record.source * (B / W) < USIZE ∧
      derive_range B W record.source +
        derive_index W (destination_id hasherInst record.addr) < USIZE ∧
      Table.derive_bucket hasherInst B W record < B := by
  have hunchanged : ∀ cell : Fin B × Fin S,
      cell.1 ∉ source_buckets B W (group.source_id hasherInst) →
      (table.add_all hasherInst records).cells cell = table.cells cell :=
    fun _ hcell => table.add_all_cells_eq hwidth
      (fun record hrecord => (hrecords record hrecord).source_eq) hcell
  refine ⟨⟨_, card_source_buckets_le _, fun bucket slot => hunchanged (bucket, slot)⟩, ?_, ?_⟩
  · calc (B - W) * S ≤ (B - (source_buckets B W (group.source_id hasherInst)).card) * S :=
          Nat.mul_le_mul_right _ (Nat.sub_le_sub_left (card_source_buckets_le _) _)
      _ = _ := (card_cells_outside _).symm
      _ ≤ _ := Finset.card_le_card (Finset.monotone_filter_right _ fun cell _ => hunchanged cell)
  · intro record
    obtain ⟨hsalt, hsum⟩ := derive_bucket_no_overflow hasherInst hwidth hbuckets hlayout record
    exact ⟨hsalt, hsum, Table.derive_bucket_lt hasherInst B W record⟩

/-- The addresses that two peers with the same first two octets have relayed. -/
def two_peers_relayed : List Record :=
  [.new .sip (.Ipv4 ⟨[10, 0, 0, 1], rfl⟩) 8333 9 (.V4 ⟨[127, 0, 1, 1], rfl⟩),
    .new_from_addrv2_source .sip (.Ipv4 ⟨[10, 0, 0, 2], rfl⟩) 8333 9 (.Ipv4 ⟨[127, 0, 9, 9], rfl⟩)]

/-- They leave twelve of the sixteen buckets of the node's table as they are. -/
theorem gossip_source_bounded_two_peers :
    12 * 16 ≤ (Finset.univ.filter fun cell =>
      ((Table.new : Table 16 16 4).add_all .sip two_peers_relayed).cells cell =
        (Table.new : Table 16 16 4).cells cell).card := by
  refine (gossip_source_bounded (B := 16) (S := 16) (W := 4) .sip (by decide) (by decide)
    (by decide) Table.new (.V4 [127, 0]) _ fun record hrecord => ?_).2.1
  rcases List.mem_pair.mp hrecord with rfl | rfl
  · exact .new _ _ _ rfl
  · exact .new_from_addrv2_source _ _ _ rfl

end address_book
