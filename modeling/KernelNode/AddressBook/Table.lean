import Mathlib.Algebra.GroupWithZero.Nat
import Mathlib.Data.List.FinRange
import KernelNode.AddressBook.Record
import KernelNode.Placement

open bitcoin std.bytes std.hash std.net std.time

namespace address_book

def ONE_MINUTE : Duration := .from_secs 60

/-- The record was not attempted within the last minute. -/
def Record.rested (self : Record) (now : Duration) : Bool :=
  match self.last_attempt with
  | none => true
  | some last_attempt => (now.saturating_sub last_attempt).as_nanos > ONE_MINUTE.as_nanos

/-- An array of `S` slots. -/
structure Bucket (S : Nat) where
  records : Fin S → Option Record

/-- A `B x S` matrix of records, of which one source may use `W` buckets. -/
structure Table (B S W : Nat) where
  buckets : Fin B → Bucket S

/-- The table is an array of arrays, which takes at most `isize::MAX` bytes. -/
def Layout (B S : Nat) : Prop := B * S < 2 ^ 63

instance (B S : Nat) : Decidable (Layout B S) := inferInstanceAs (Decidable (_ < _))

/-- The indices after `start` in cyclic order, up to `start`: the values of
    `tmp` in the search loops. -/
def cyclic_after {n : Nat} [NeZero n] (start : Fin n) : List (Fin n) :=
  (List.range (n - 1)).map fun k => Fin.ofNat n (start + 1 + k)

/-- The range of `usize`, whose arithmetic wraps in a release build. -/
abbrev USIZE : Nat := 2 ^ 64

section

variable (hasherInst : DefaultHasher)

namespace Bucket

def derive_slot (S : Nat) [NeZero S] (record : Record) : Fin S :=
  Fin.ofNat S (hasherInst.hash_bytes (destination_id hasherInst record.addr).bytes.toList).toNat

variable {S : Nat}

def new : Bucket S := ⟨fun _ => none⟩

def is_empty (self : Bucket S) : Bool :=
  (List.finRange S).all fun slot => (self.records slot).isNone

variable [NeZero S]

/-- The occupant of the record's slot, or the bucket with the record in it. -/
def add (self : Bucket S) (record : Record) : Option Record × Bucket S :=
  let slot := derive_slot hasherInst S record
  match self.records slot with
  | some occupied => (some occupied, self)
  | none => (none, ⟨Function.update self.records slot (some record)⟩)

def remove (self : Bucket S) (record : Record) : Bucket S :=
  ⟨Function.update self.records (derive_slot hasherInst S record) none⟩

def has_record (self : Bucket S) (record : Record) : Bool :=
  match self.records (derive_slot hasherInst S record) with
  | some cmp => cmp = record
  | none => false

/-- The occupant of the record's slot is updated, whichever record it is. -/
def successful_connection (self : Bucket S) (record : Record) (attempt connection : Duration) :
    Bucket S :=
  let slot := derive_slot hasherInst S record
  ⟨Function.update self.records slot ((self.records slot).map fun occupied =>
    occupied.connected record.services attempt connection)⟩

def failed_connection (self : Bucket S) (record : Record) (now : Duration) : Bucket S :=
  let slot := derive_slot hasherInst S record
  ⟨Function.update self.records slot ((self.records slot).map fun occupied => occupied.failed now)⟩

/-- A record of the bucket after the drawn slot that has rested for a minute,
    else the one in the drawn slot, else the first. -/
def random_from_bucket (self : Bucket S) (draw : UInt32) (now : Duration) : Option Record :=
  if self.is_empty then none else
  let slot_index := Fin.ofNat S draw.toNat
  let rested := (cyclic_after slot_index).findSome? fun tmp =>
    (self.records tmp).filter (·.rested now)
  rested.or ((self.records slot_index).or ((List.finRange S).findSome? self.records))

end Bucket

/-- Where the range of buckets of a source starts, before it is scaled. -/
def derive_salt (W : Nat) (source : SourceId) : Nat :=
  of_le source.bytes.toList % W

def derive_range (B W : Nat) (source : SourceId) : Nat :=
  derive_salt W source * (B / W) % USIZE % B

/-- Which bucket of the range a destination gets. -/
def derive_index (W : Nat) (destination : DestinationId) : Nat :=
  of_le destination.bytes.toList % W

namespace Table

def derive_bucket (B W : Nat) (record : Record) : Nat :=
  (derive_range B W record.source + derive_index W (destination_id hasherInst record.addr)) %
    USIZE % B

theorem derive_bucket_lt (B W : Nat) [NeZero B] (record : Record) :
    derive_bucket hasherInst B W record < B :=
  Nat.mod_lt _ (Nat.pos_of_neZero B)

variable {B S W : Nat}

def new : Table B S W := ⟨fun _ => Bucket.new⟩

def is_empty (self : Table B S W) : Bool :=
  (List.finRange B).all fun bucket => (self.buckets bucket).is_empty

/-- The record in a slot of a bucket. -/
def cells (self : Table B S W) (cell : Fin B × Fin S) : Option Record :=
  (self.buckets cell.1).records cell.2

variable [NeZero B] [NeZero S]

/-- The array index of a record's bucket. -/
def bucket_index (B W : Nat) [NeZero B] (record : Record) : Fin B :=
  ⟨derive_bucket hasherInst B W record, derive_bucket_lt hasherInst B W record⟩

def add (self : Table B S W) (record : Record) : Option Record × Table B S W :=
  let bucket_index := bucket_index hasherInst B W record
  let (conflict, bucket) := (self.buckets bucket_index).add hasherInst record
  (conflict, ⟨Function.update self.buckets bucket_index bucket⟩)

def remove (self : Table B S W) (record : Record) : Table B S W :=
  let bucket_index := bucket_index hasherInst B W record
  ⟨Function.update self.buckets bucket_index
    ((self.buckets bucket_index).remove hasherInst record)⟩

def count (self : Table B S W) (record : Record) : Nat :=
  ((List.finRange B).filter fun bucket =>
    (self.buckets bucket).has_record hasherInst record).length

def successful_connection (self : Table B S W) (record : Record) (attempt connection : Duration) :
    Table B S W :=
  let bucket_index := bucket_index hasherInst B W record
  ⟨Function.update self.buckets bucket_index
    ((self.buckets bucket_index).successful_connection hasherInst record attempt connection)⟩

def failed_connection (self : Table B S W) (record : Record) (now : Duration) : Table B S W :=
  let bucket_index := bucket_index hasherInst B W record
  ⟨Function.update self.buckets bucket_index
    ((self.buckets bucket_index).failed_connection hasherInst record now)⟩

/-- A record of the drawn bucket, or of the next one in cyclic order that is not
    empty. Each bucket that is polled has its own slot draw and time. -/
def select (self : Table B S W) (draw : UInt32) (polls : Fin B → UInt32 × Duration) :
    Option Record :=
  if self.is_empty then none else
  let bucket_index := Fin.ofNat B draw.toNat
  let poll (bucket : Fin B) := (self.buckets bucket).random_from_bucket (polls bucket).1
    (polls bucket).2
  if (self.buckets bucket_index).is_empty then (cyclic_after bucket_index).findSome? poll
  else poll bucket_index

/-- The bucket and the slot of a record. -/
def place (B S W : Nat) [NeZero B] [NeZero S] (record : Record) : Fin B × Fin S :=
  (bucket_index hasherInst B W record, Bucket.derive_slot hasherInst S record)

end Table

end

namespace Table

variable {B S W : Nat}

theorem cells_update (self : Table B S W) (bucket : Fin B) (slot : Fin S)
    (value : Option Record) :
    cells (W := W) ⟨Function.update self.buckets bucket
      ⟨Function.update (self.buckets bucket).records slot value⟩⟩ =
      Function.update self.cells (bucket, slot) value := by
  funext ⟨other, cell⟩
  by_cases hbucket : other = bucket
  · subst hbucket
    by_cases hslot : cell = slot
    · subst hslot
      simp [cells]
    · rw [Function.update_of_ne (by simp [hslot])]
      simp [cells, hslot]
  · rw [Function.update_of_ne (by simp [hbucket])]
    simp [cells, hbucket]

variable [NeZero B] [NeZero S] (hasherInst : DefaultHasher) (self : Table B S W) (record : Record)

/-- The table is a store in which each record has one cell. -/
theorem add_eq :
    (self.add hasherInst record).1 = self.cells (place hasherInst B S W record) ∧
      (self.add hasherInst record).2.cells =
        placement.add (place hasherInst B S W) self.cells record := by
  simp only [add, Bucket.add, placement.add]
  rw [show self.cells (place hasherInst B S W record) =
    (self.buckets (bucket_index hasherInst B W record)).records
      (Bucket.derive_slot hasherInst S record) from rfl]
  cases (self.buckets (bucket_index hasherInst B W record)).records
    (Bucket.derive_slot hasherInst S record) with
  | some occupied => simp [Function.update_eq_self]
  | none => exact ⟨rfl, self.cells_update _ _ _⟩

@[simp]
theorem remove_cells :
    (self.remove hasherInst record).cells =
      Function.update self.cells (place hasherInst B S W record) none :=
  self.cells_update _ _ _

@[simp]
theorem successful_connection_cells (attempt connection : Duration) :
    (self.successful_connection hasherInst record attempt connection).cells =
      Function.update self.cells (place hasherInst B S W record)
        ((self.cells (place hasherInst B S W record)).map fun occupied =>
          occupied.connected record.services attempt connection) :=
  self.cells_update _ _ _

@[simp]
theorem failed_connection_cells (now : Duration) :
    (self.failed_connection hasherInst record now).cells =
      Function.update self.cells (place hasherInst B S W record)
        ((self.cells (place hasherInst B S W record)).map fun occupied => occupied.failed now) :=
  self.cells_update _ _ _

end Table

end address_book
