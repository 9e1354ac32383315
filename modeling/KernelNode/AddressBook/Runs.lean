import KernelNode.AddressBook.File
import KernelNode.Transition

open bitcoin placement std.hash std.io std.time transition

namespace address_book

inductive TableAction where
  | add (record : Record)
  | remove (record : Record)
  | successful_connection (record : Record) (attempt connection : Duration)
  | failed_connection (record : Record) (now : Duration)

/-- The calls that take a record out of the table. -/
def TableAction.is_remove : TableAction → Bool
  | .remove _ => true
  | _ => false

/-- What does not change while a record is stored. -/
def Record.identity (self : Record) : AddrV2 × UInt16 × SourceId :=
  (self.addr, self.port, self.source)

section

variable (hasherInst : DefaultHasher) (codecInst : AddrV2Codec) {B S W : Nat} [NeZero B] [NeZero S]

def Table.act (self : Table B S W) : TableAction → Table B S W
  | .add record => (self.add hasherInst record).2
  | .remove record => self.remove hasherInst record
  | .successful_connection record attempt connection =>
    self.successful_connection hasherInst record attempt connection
  | .failed_connection record now => self.failed_connection hasherInst record now

/-- The calls on a table that was new or was read from a file. -/
def table_system (B S W : Nat) [NeZero B] [NeZero S] : System (Table B S W) TableAction where
  init table := table = .new ∨
    ∃ reader rest, (read_table hasherInst codecInst B S W).run.run reader = (.ok table, rest)
  step table action next := next = table.act hasherInst action

end

theorem Table.eq_of_cells_eq {B S W : Nat} {table other : Table B S W}
    (hcells : table.cells = other.cells) : table = other := by
  obtain ⟨buckets⟩ := table
  obtain ⟨others⟩ := other
  congr 1
  funext bucket
  have hbucket : (buckets bucket).records = (others bucket).records :=
    funext fun slot => congrFun hcells (bucket, slot)
  exact congrArg Bucket.mk hbucket

section

variable {hasherInst : DefaultHasher} {codecInst : AddrV2Codec} {B S W : Nat} [NeZero B] [NeZero S]

/-- A record's place depends on its address and source alone. -/
theorem Table.place_congr {record other : Record} (haddr : record.addr = other.addr)
    (hsource : record.source = other.source) :
    place hasherInst B S W record = place hasherInst B S W other := by
  simp only [place, bucket_index, derive_bucket, Bucket.derive_slot, haddr, hsource]

/-- A new table with the records of a file has each of them in its place. -/
theorem read_records_cells {size : Nat} {table last : Table B S W} {reader rest : Reader}
    (hread : (read_records hasherInst codecInst size table).run.run reader = (.ok last, rest)) :
    ∃ records, last.cells = add_all (Table.place hasherInst B S W) table.cells records := by
  induction size generalizing table reader with
  | zero =>
    obtain ⟨⟨rfl⟩, rfl⟩ := Prod.mk.inj hread
    exact ⟨[], rfl⟩
  | succ size ih =>
    obtain ⟨record, middle, _, hread⟩ := run_bind_eq_ok hread
    obtain ⟨records, hlast⟩ := ih hread
    rw [(table.add_eq hasherInst record).2] at hlast
    exact ⟨record :: records, hlast⟩

theorem read_table_cells {table : Table B S W} {reader rest : Reader}
    (hread : (read_table hasherInst codecInst B S W).run.run reader = (.ok table, rest)) :
    ∃ records, table.cells = add_all (Table.place hasherInst B S W) (fun _ => none) records := by
  obtain ⟨magic_buf, _, _, hread⟩ := run_bind_eq_ok hread
  split at hread
  · obtain ⟨_, _, hthrow, _⟩ := run_bind_eq_ok hread
    cases hthrow
  · obtain ⟨size_buf, _, _, hread⟩ := run_bind_eq_ok hread
    exact read_records_cells hread

theorem act_placed {table : Table B S W}
    (hplaced : Placed (Table.place hasherInst B S W) table.cells) (action : TableAction) :
    Placed (Table.place hasherInst B S W) (table.act hasherInst action).cells := by
  cases action with
  | add record =>
    rw [Table.act, (table.add_eq hasherInst record).2]
    exact hplaced.add record
  | remove record =>
    rw [Table.act, Table.remove_cells]
    exact hplaced.update nofun
  | successful_connection record attempt connection =>
    rw [Table.act, Table.successful_connection_cells]
    refine hplaced.update_map ?_ _
    exact fun _ => Table.place_congr rfl rfl
  | failed_connection record now =>
    rw [Table.act, Table.failed_connection_cells]
    refine hplaced.update_map ?_ _
    exact fun _ => Table.place_congr rfl rfl

theorem reachable_placed {table : Table B S W}
    (hreach : (table_system hasherInst codecInst B S W).Reachable table) :
    Placed (Table.place hasherInst B S W) table.cells := by
  refine hreach.invariant
    (P := fun table => Placed (Table.place hasherInst B S W) table.cells) ?_ ?_
  · rintro table (rfl | ⟨reader, rest, hread⟩)
    · exact .empty
    · obtain ⟨records, hcells⟩ := read_table_cells hread
      rw [hcells]
      exact Placed.empty.add_all records
  · rintro table action _ hplaced rfl
    exact act_placed hplaced action

/-- Every call but `remove` keeps what identifies a stored record. -/
theorem act_identity {table : Table B S W} {action : TableAction} (haction : ¬action.is_remove)
    {cell : Fin B × Fin S} {record : Record} (hrecord : table.cells cell = some record) :
    ∃ next, (table.act hasherInst action).cells cell = some next ∧
      next.identity = record.identity := by
  have hchange {change : Record → Record}
      (hidentity : ∀ record, (change record).identity = record.identity) (target : Fin B × Fin S) :
      ∃ next, Function.update table.cells target ((table.cells target).map change) cell =
        some next ∧ next.identity = record.identity := by
    by_cases hcell : cell = target
    · subst hcell
      exact ⟨change record, by simp [hrecord], hidentity record⟩
    · exact ⟨record, by rwa [Function.update_of_ne hcell], rfl⟩
  cases action with
  | add other =>
    refine ⟨record, ?_, rfl⟩
    rw [Table.act, (table.add_eq hasherInst other).2, add_apply, hrecord, Option.some_or]
  | remove other => exact absurd rfl haction
  | successful_connection other attempt connection =>
    rw [Table.act, Table.successful_connection_cells]
    refine hchange ?_ _
    exact fun _ => rfl
  | failed_connection other now =>
    rw [Table.act, Table.failed_connection_cells]
    refine hchange ?_ _
    exact fun _ => rfl

/-- A run without `remove` keeps what identifies a stored record, in its cell. -/
theorem run_identity {first last : Table B S W} {actions : List TableAction}
    (hrun : (table_system hasherInst codecInst B S W).Run first actions last)
    (hactions : ∀ action ∈ actions, ¬action.is_remove) {cell : Fin B × Fin S} {record : Record}
    (hrecord : first.cells cell = some record) :
    ∃ next, last.cells cell = some next ∧ next.identity = record.identity := by
  induction hrun with
  | nil => exact ⟨record, hrecord, rfl⟩
  | snoc _ hstep ih =>
    obtain ⟨middle, hmiddle, hsame⟩ := ih fun action haction =>
      hactions action (List.mem_append_left _ haction)
    obtain ⟨next, hnext, hidentity⟩ := act_identity (hactions _ List.mem_concat_self) hmiddle
    rw [← hstep] at hnext
    exact ⟨next, hnext, hidentity.trans hsame⟩

/-- Only the bucket of a record can hold it in the slot where it is looked for. -/
theorem Table.count_eq {table : Table B S W} (hplaced : Placed (place hasherInst B S W) table.cells)
    (record : Record) :
    table.count hasherInst record =
      if table.cells (place hasherInst B S W record) = some record then 1 else 0 := by
  have hbucket (bucket : Fin B) : (table.buckets bucket).has_record hasherInst record ↔
      table.cells (bucket, Bucket.derive_slot hasherInst S record) = some record := by
    rw [Bucket.has_record, cells]
    cases (table.buckets bucket).records (Bucket.derive_slot hasherInst S record) <;> simp
  rw [count, ← List.countP_eq_length_filter]
  split_ifs with hstored
  · have hone : (List.finRange B).count (bucket_index hasherInst B W record) = 1 :=
      List.count_eq_one_of_mem (List.nodup_finRange B) (List.mem_finRange _)
    rw [← hone, List.count]
    refine List.countP_congr fun bucket _ => ?_
    rw [hbucket, beq_iff_eq]
    constructor
    · intro hrecord
      exact (Prod.mk.inj (hplaced _ _ hrecord)).1.symm
    · rintro rfl
      exact hstored
  · refine List.countP_eq_zero.mpr fun bucket _ hrecord => hstored ?_
    exact hplaced.stored_iff.mp ⟨_, (hbucket bucket).mp hrecord⟩

/-- The occupant of the record's place is left there and returned; a free place
    is filled. -/
theorem Table.add_cases (table : Table B S W) (record : Record) :
    (∃ occupied, table.cells (place hasherInst B S W record) = some occupied ∧
      table.add hasherInst record = (some occupied, table)) ∨
    (table.cells (place hasherInst B S W record) = none ∧
      (table.add hasherInst record).1 = none ∧
      (table.add hasherInst record).2.cells =
        Function.update table.cells (place hasherInst B S W record) (some record)) := by
  obtain ⟨hconflict, hcells⟩ := table.add_eq hasherInst record
  cases hcell : table.cells (place hasherInst B S W record) with
  | some occupied =>
    rw [placement.add, hcell] at hcells
    rw [hcell] at hconflict
    exact .inl ⟨occupied, rfl, Prod.ext hconflict (eq_of_cells_eq hcells)⟩
  | none =>
    rw [placement.add, hcell] at hcells
    rw [hcell] at hconflict
    exact .inr ⟨rfl, hconflict, hcells⟩

end

/-- An address that a local peer relays. -/
def relayed (addr : AddrV2) : Record :=
  .new .sip addr 8333 9 (.V4 ⟨[127, 0, 0, 1], rfl⟩)

/-- Its call on a table of the size that the node uses. -/
def relay (table : Table 16 16 4) (addr : AddrV2) : Table 16 16 4 :=
  table.act .sip (.add (relayed addr))

/-- The table with one record. -/
def relayed_table (addr : AddrV2) : Table 16 16 4 := relay .new addr

theorem relay_reachable {table : Table 16 16 4}
    (hreach : (table_system .sip bip155 16 16 4).Reachable table) (addr : AddrV2) :
    (table_system .sip bip155 16 16 4).Reachable (relay table addr) := by
  have hadd : relay table addr = table.act .sip (.add (relayed addr)) := rfl
  exact hreach.step hadd

theorem relayed_table_reachable (addr : AddrV2) :
    (table_system .sip bip155 16 16 4).Reachable (relayed_table addr) :=
  relay_reachable (.of_init (.inl rfl)) addr

theorem relayed_table_cells (addr : AddrV2) (cell : Fin 16 × Fin 16) :
    (relayed_table addr).cells cell =
      if Table.place .sip 16 16 4 (relayed addr) = cell then some (relayed addr) else none := by
  rw [relayed_table, relay, Table.act, (Table.add_eq _ _ _).2, add_apply]
  rfl

/-- The records of a table lie where they are looked for, at most one for each
    address and source; no call but `remove` loses one. -/
theorem table_records_kept (hasherInst : DefaultHasher) (codecInst : AddrV2Codec) {B S W : Nat}
    [NeZero B] [NeZero S] {table : Table B S W}
    (hreach : (table_system hasherInst codecInst B S W).Reachable table) :
    (∀ bucket slot record, (table.buckets bucket).records slot = some record →
      Table.derive_bucket hasherInst B W record = bucket ∧
      Bucket.derive_slot hasherInst S record = slot) ∧
    (∀ first second record other, table.cells first = some record →
      table.cells second = some other → record.addr = other.addr →
      record.source = other.source → first = second ∧ record = other) ∧
    (∀ record, ((∃ cell, table.cells cell = some record) → table.count hasherInst record = 1) ∧
      ((¬∃ cell, table.cells cell = some record) → table.count hasherInst record = 0)) ∧
    (∀ record,
      (∃ occupied, table.cells (Table.place hasherInst B S W record) = some occupied ∧
        table.add hasherInst record = (some occupied, table)) ∨
      (table.cells (Table.place hasherInst B S W record) = none ∧
        (table.add hasherInst record).1 = none ∧
        (table.add hasherInst record).2.cells =
          Function.update table.cells (Table.place hasherInst B S W record) (some record))) ∧
    ∀ actions last, (table_system hasherInst codecInst B S W).Run table actions last →
      (∀ action ∈ actions, ¬action.is_remove) → ∀ cell record, table.cells cell = some record →
      ∃ next, last.cells cell = some next ∧ next.identity = record.identity := by
  have hplaced := reachable_placed hreach
  refine ⟨?_, ?_, ?_, table.add_cases, ?_⟩
  · intro bucket slot record hrecord
    have hplace := Prod.mk.inj (hplaced (bucket, slot) record hrecord)
    exact ⟨congrArg Fin.val hplace.1, hplace.2⟩
  · intro first second record other hrecord hother haddr hsource
    exact hplaced.eq_of_place_eq hrecord hother (Table.place_congr haddr hsource)
  · intro record
    rw [hplaced.stored_iff, Table.count_eq hplaced]
    exact ⟨fun hstored => if_pos hstored, fun hstored => if_neg hstored⟩
  · intro actions last hrun hactions cell record hrecord
    exact run_identity hrun hactions hrecord

theorem table_records_kept_relayed :
    (relayed_table (.Ipv4 ⟨[10, 0, 0, 1], rfl⟩)).count .sip
      (relayed (.Ipv4 ⟨[10, 0, 0, 1], rfl⟩)) = 1 :=
  ((table_records_kept .sip bip155 (relayed_table_reachable _)).2.2.1 _).1
    ⟨_, (relayed_table_cells _ _).trans (if_pos rfl)⟩

end address_book
