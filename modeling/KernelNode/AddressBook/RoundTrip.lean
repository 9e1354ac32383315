import Mathlib.Algebra.Order.BigOperators.Group.List
import Mathlib.Algebra.Order.Group.Nat
import KernelNode.AddressBook.Runs

open bitcoin placement std.bytes std.hash std.io transition

namespace address_book

variable {hasherInst : DefaultHasher} {codecInst : AddrV2Codec} {B S W : Nat}

theorem Table.mem_unordered_records {table : Table B S W} {record : Record} :
    record ∈ table.unordered_records ↔
      record.is_serializable ∧ ∃ cell, table.cells cell = some record := by
  simp [unordered_records, cells, and_comm]

theorem Table.length_unordered_records_le (table : Table B S W) :
    table.unordered_records.length ≤ B * S := by
  have hbucket (bucket : Fin B) :
      (((List.finRange S).filterMap (table.buckets bucket).records).filter
        Record.is_serializable).length ≤ S := by
    calc _ ≤ ((List.finRange S).filterMap (table.buckets bucket).records).length :=
          List.length_filter_le _ _
      _ ≤ (List.finRange S).length := List.length_filterMap_le _ _
      _ = S := List.length_finRange
  rw [unordered_records, List.length_flatMap]
  have hsum := List.sum_le_card_nsmul ((List.finRange B).map fun bucket =>
    (((List.finRange S).filterMap (table.buckets bucket).records).filter
      Record.is_serializable).length) S (by simpa using hbucket)
  simpa using hsum

/-- What the file keeps of a cell. -/
def Table.written_cells (self : Table B S W) (cell : Fin B × Fin S) : Option Record :=
  ((self.cells cell).filter Record.is_serializable).map Record.whole_seconds

theorem Table.written_cells_eq_some {table : Table B S W} {cell : Fin B × Fin S} {item : Record} :
    table.written_cells cell = some item ↔
      ∃ record, table.cells cell = some record ∧ record.is_serializable ∧
        record.whole_seconds = item := by
  simp [written_cells, and_assoc]

/-- The table that a file keeps: the records that can be serialized, in their cells,
    with their times in whole seconds. -/
def Table.as_written (self : Table B S W) : Table B S W where
  buckets bucket := ⟨fun slot => self.written_cells (bucket, slot)⟩

/-- The decoder accepts every address that is written. -/
def Table.Readable (self : Table B S W) : Prop :=
  ∀ record ∈ self.unordered_records, record.addr.is_accepted

instance (table : Table B S W) : Decidable table.Readable :=
  inferInstanceAs (Decidable (∀ record ∈ table.unordered_records, record.addr.is_accepted))

variable [NeZero B] [NeZero S]

theorem Table.written_cells_placed {table : Table B S W}
    (hplaced : Placed (place hasherInst B S W) table.cells) :
    Placed (place hasherInst B S W) table.written_cells := by
  intro cell item hitem
  obtain ⟨record, hrecord, _, rfl⟩ := written_cells_eq_some.mp hitem
  rw [← hplaced cell record hrecord]
  exact place_congr rfl rfl

/-- The records that are written are all read, up to the first one with an
    address that the decoder refuses. -/
theorem read_written_records (hasherInst : DefaultHasher) (hcodec : codecInst.Bip155)
    {records : List Record}
    (hserializable : ∀ record ∈ records, record.is_serializable) :
    ∃ bytes, records.mapM (Record.serialize codecInst) = some bytes ∧
      ((∀ record ∈ records, record.addr.is_accepted) → ∀ table : Table B S W,
        ∃ last, (read_records hasherInst codecInst records.length table).run.run
            (.of_bytes bytes.flatten) = (.ok last, []) ∧
          last.cells = add_all (Table.place hasherInst B S W) table.cells
            (records.map Record.whole_seconds)) ∧
      ((∃ record ∈ records, record.addr.is_accepted = false) → ∀ table : Table B S W,
        ∃ e rest, (read_records hasherInst codecInst records.length table).run.run
          (.of_bytes bytes.flatten) = (.error e, rest)) := by
  induction records with
  | nil => exact ⟨[], rfl, fun _ table => ⟨table, rfl, rfl⟩, by simp⟩
  | cons record records ih =>
    rw [List.forall_mem_cons] at hserializable
    obtain ⟨hrecord, hrecords⟩ := hserializable
    obtain ⟨bytes, hbytes, hread, hfail⟩ := ih hrecords
    obtain ⟨len, hserialize, _⟩ := Record.serialize_spec hcodec hrecord
    refine ⟨_, by rw [List.mapM_cons, hserialize, hbytes]; rfl, ?_, ?_⟩
    · rw [List.forall_mem_cons]
      rintro ⟨haccepted, hrest⟩ table
      obtain ⟨last, hlast, hcells⟩ := hread hrest (table.add hasherInst record.whole_seconds).2
      refine ⟨last, ?_, ?_⟩
      · rw [List.length_cons, read_records, run_bind, List.flatten_cons, Reader.of_bytes_append,
          Record.deserialize_serialize hcodec hrecord haccepted hserialize]
        exact hlast
      · rw [hcells, (table.add_eq hasherInst _).2]
        rfl
    · intro hrejected table
      rw [List.length_cons, read_records, run_bind, List.flatten_cons, Reader.of_bytes_append]
      cases haccepted : record.addr.is_accepted with
      | false =>
        obtain ⟨e, herror⟩ := Record.deserialize_rejected hcodec hrecord haccepted hserialize
          (.of_bytes bytes.flatten)
        rw [herror]
        exact ⟨e, _, rfl⟩
      | true =>
        rw [Record.deserialize_serialize hcodec hrecord haccepted hserialize]
        refine hfail ?_ _
        simpa [haccepted] using hrejected

/-- The file starts with the number of its records. -/
theorem read_table_run {count : Nat} (hcount : count < 2 ^ 64) (bytes : List UInt8) :
    (read_table hasherInst codecInst B S W).run.run
        (.of_bytes (MAGIC ++ (to_le 8 count).toList ++ bytes)) =
      (read_records hasherInst codecInst count (Table.new : Table B S W)).run.run
        (.of_bytes bytes) := by
  have hmagic : MAGIC.length = 4 := rfl
  have hsize : of_le (to_le 8 count).toList = count := by
    rw [of_le_to_le, Nat.mod_eq_of_lt (by omega)]
  rw [read_table, Reader.of_bytes_append, Reader.of_bytes_append, List.append_assoc, run_bind,
    run_read_exact, Reader.take_exact_of_length hmagic]
  simp only [List.Vector.toList_mk, ne_eq, not_true_eq_false, if_false, run_bind, run_read_exact,
    Reader.take_exact_of_bytes, hsize]

/-- What comes back of a table that is written and read: all of it, or an error where
    the decoder refuses one of its addresses. -/
theorem read_back (hcodec : codecInst.Bip155) (hlayout : Layout B S) {table : Table B S W}
    (hreach : (table_system hasherInst codecInst B S W).Reachable table) :
    ∃ bytes, write_table codecInst table = some bytes ∧
      (table.Readable → ∃ rest, (read_table hasherInst codecInst B S W).run.run
        (.of_bytes bytes) = (.ok table.as_written, rest)) ∧
      (¬table.Readable → ∃ e rest, (read_table hasherInst codecInst B S W).run.run
        (.of_bytes bytes) = (.error e, rest)) := by
  have hplaced := Table.written_cells_placed (reachable_placed hreach)
  have hcount : table.unordered_records.length < 2 ^ 64 := by
    have hle := table.length_unordered_records_le
    rw [Layout] at hlayout
    omega
  have hserializable : ∀ record ∈ table.unordered_records, record.is_serializable :=
    fun _ hrecord => (Table.mem_unordered_records.mp hrecord).1
  obtain ⟨bytes, hbytes, hread, hfail⟩ := read_written_records (B := B) (S := S) (W := W)
    hasherInst hcodec hserializable
  refine ⟨MAGIC ++ (to_le 8 table.unordered_records.length).toList ++ bytes.flatten, ?_, ?_, ?_⟩
  · rw [write_table, hbytes]
    rfl
  · intro hreadable
    obtain ⟨last, hlast, hcells⟩ := hread hreadable Table.new
    have hwritten : last = table.as_written := by
      apply Table.eq_of_cells_eq
      refine hcells.trans (hplaced.add_all_listing fun item => ?_)
      simp only [List.mem_map, Table.mem_unordered_records, Table.written_cells_eq_some]
      grind
    rw [read_table_run hcount, hlast, hwritten]
    exact ⟨_, rfl⟩
  · intro hrefused
    obtain ⟨record, hrecord, hrejected⟩ : ∃ record ∈ table.unordered_records,
        record.addr.is_accepted = false := by
      simpa [Table.Readable] using hrefused
    rw [read_table_run hcount]
    exact hfail ⟨record, hrecord, hrejected⟩ Table.new

/-- The address `::ffff:10.0.0.1`. -/
def mapped : AddrV2 := .Ipv6 ⟨[0, 0, 0, 0, 0, 0, 0, 0, 0, 0, 0xff, 0xff, 10, 0, 0, 1], rfl⟩

/-- The file of a table with that address, as a peer has relayed it. -/
def mapped_file : List UInt8 :=
  MAGIC ++ [1, 0, 0, 0, 0, 0, 0, 0] ++
    [51, 2, 16, 0, 0, 0, 0, 0, 0, 0, 0, 0, 0, 0xff, 0xff, 10, 0, 0, 1, 0x8d, 0x20] ++
    (relayed mapped).source.bytes.toList ++ [9, 0, 0, 0, 0, 0, 0, 0] ++ List.replicate 19 0

/-- The address is written and refused, and with it the whole table. -/
theorem mapped_table_unreadable :
    (table_system .sip bip155 16 16 4).Reachable (relayed_table mapped) ∧
    write_table bip155 (relayed_table mapped) = some mapped_file ∧
    (read_table .sip bip155 16 16 4).run.run (.of_bytes mapped_file) =
      (.error ⟨.InvalidData, "address of another network"⟩, []) :=
  ⟨relayed_table_reachable mapped, by decide +kernel, rfl⟩

/-- A table that was written is read back, with every record that can be
    serialized in its cell, exactly when the decoder accepts their addresses. -/
theorem written_table_read_back_iff (hasherInst : DefaultHasher) {codecInst : AddrV2Codec}
    (hcodec : codecInst.Bip155) (hlayout : Layout B S) {table : Table B S W}
    (hreach : (table_system hasherInst codecInst B S W).Reachable table) :
    (∃ bytes last rest, write_table codecInst table = some bytes ∧
      (read_table hasherInst codecInst B S W).run.run (.of_bytes bytes) = (.ok last, rest) ∧
      ∀ cell, last.cells cell =
        ((table.cells cell).filter Record.is_serializable).map Record.whole_seconds) ↔
    ∀ cell record, table.cells cell = some record → record.is_serializable →
      record.addr.is_accepted := by
  obtain ⟨bytes, hwrite, hread, hfail⟩ := read_back hcodec hlayout hreach
  constructor
  · rintro ⟨_, last, rest, hwritten, hlast, _⟩ cell record hrecord hserializable
    by_contra hrejected
    obtain rfl := Option.some.inj (hwrite.symm.trans hwritten)
    obtain ⟨e, rest', herror⟩ := hfail fun hreadable => hrejected <|
      hreadable record (Table.mem_unordered_records.mpr ⟨hserializable, cell, hrecord⟩)
    rw [herror] at hlast
    cases hlast
  · intro haccepted
    have hreadable : table.Readable := by
      intro record hrecord
      obtain ⟨hserializable, cell, hcell⟩ := Table.mem_unordered_records.mp hrecord
      exact haccepted cell record hcell hserializable
    obtain ⟨rest, hlast⟩ := hread hreadable
    exact ⟨bytes, table.as_written, rest, hwrite, hlast, fun cell => rfl⟩

theorem written_table_read_back_relayed :
    ∃ bytes last rest,
      write_table bip155 (relayed_table (.Ipv4 ⟨[10, 0, 0, 1], rfl⟩)) = some bytes ∧
      (read_table .sip bip155 16 16 4).run.run (.of_bytes bytes) = (.ok last, rest) ∧
      ∀ cell, last.cells cell = (((relayed_table (.Ipv4 ⟨[10, 0, 0, 1], rfl⟩)).cells cell).filter
        Record.is_serializable).map Record.whole_seconds := by
  refine (written_table_read_back_iff .sip bip155_lawful (by decide)
    (relayed_table_reachable _)).mpr fun cell record hrecord _ => ?_
  rw [relayed_table_cells] at hrecord
  split_ifs at hrecord
  obtain rfl := Option.some.inj hrecord
  rfl

end address_book
