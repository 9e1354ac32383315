import KernelNode.AddressBook.Runs

open bitcoin placement std.hash std.net std.time

namespace address_book

section

variable {hasherInst : DefaultHasher} {B S W : Nat}

/-- Every stored record with another network address is as it was. -/
def Table.Spares (before after : Table B S W) (record : Record) : Prop :=
  ∀ cell stored, before.cells cell = some stored →
    stored.network_addr ≠ record.network_addr → after.cells cell = some stored

variable [NeZero B] [NeZero S]

/-- No stored record with another network address has the bucket and the slot of
    the record. -/
def Table.Alone (hasherInst : DefaultHasher) (self : Table B S W) (record : Record) : Prop :=
  ∀ cell stored, self.cells cell = some stored →
    stored.network_addr ≠ record.network_addr →
    place hasherInst B S W stored ≠ place hasherInst B S W record

namespace Table

variable {self after : Table B S W} {record : Record}

theorem alone_iff (hplaced : Placed (place hasherInst B S W) self.cells) :
    self.Alone hasherInst record ↔
      ∀ stored, self.cells (place hasherInst B S W record) = some stored →
        stored.network_addr = record.network_addr := by
  constructor
  · intro halone stored hstored
    by_contra hother
    exact halone _ stored hstored hother (hplaced _ stored hstored)
  · intro hsame cell stored hstored hother hplace
    rw [← hplaced cell stored hstored, hplace] at hstored
    exact hother (hsame stored hstored)

/-- A call that rewrites the record's own cell spares the others exactly where it
    leaves an occupant with another network address alone. -/
theorem spares_iff {value : Option Record}
    (hafter : after.cells = Function.update self.cells (place hasherInst B S W record) value) :
    self.Spares after record ↔
      ∀ stored, self.cells (place hasherInst B S W record) = some stored →
        stored.network_addr ≠ record.network_addr → value = some stored := by
  rw [Spares, hafter]
  constructor
  · intro hspares stored hstored hother
    simpa using hspares _ stored hstored hother
  · intro hvalue cell stored hstored hother
    by_cases hcell : cell = place hasherInst B S W record
    · subst hcell
      rw [Function.update_self, hvalue stored hstored hother]
    · rwa [Function.update_of_ne hcell]

/-- Calls, one for each time, that rewrite the record's own cell, where some of
    them would change whatever lies there. -/
theorem forall_spares_iff {T : Type} {call : T → Table B S W} {value : T → Option Record}
    (hcall : ∀ time, (call time).cells =
      Function.update self.cells (place hasherInst B S W record) (value time))
    (hplaced : Placed (place hasherInst B S W) self.cells)
    (hchange : ∀ stored, self.cells (place hasherInst B S W record) = some stored →
      ∃ time, value time ≠ some stored) :
    (∀ time, self.Spares (call time) record) ↔ self.Alone hasherInst record := by
  rw [alone_iff hplaced]
  constructor
  · intro hspares stored hstored
    by_contra hother
    obtain ⟨time, htime⟩ := hchange stored hstored
    exact htime ((spares_iff (hcall time)).mp (hspares time) stored hstored hother)
  · intro hsame time
    refine (spares_iff (hcall time)).mpr fun stored hstored hother => ?_
    exact absurd (hsame stored hstored) hother

end Table

/-- Some time is not the one at which the record was attempted last. -/
theorem Record.exists_other_time (record : Record) :
    ∃ now, some now ≠ record.last_attempt := by
  by_cases hzero : some (Duration.from_secs 0) = record.last_attempt
  · refine ⟨.from_secs 1, ?_⟩
    rw [← hzero]
    decide
  · exact ⟨_, hzero⟩

end

/-- `remove`, `failed_connection` and `successful_connection` leave the records
    with another network address alone exactly where none of these has the bucket
    and the slot of the given record. -/
theorem table_calls_spare_iff (hasherInst : DefaultHasher) (codecInst : AddrV2Codec) {B S W : Nat}
    [NeZero B] [NeZero S] {table : Table B S W}
    (hreach : (table_system hasherInst codecInst B S W).Reachable table) (record : Record) :
    (table.Spares (table.remove hasherInst record) record ↔ table.Alone hasherInst record) ∧
    ((∀ now, table.Spares (table.failed_connection hasherInst record now) record) ↔
      table.Alone hasherInst record) ∧
    ((∀ times : Duration × Duration,
        table.Spares (table.successful_connection hasherInst record times.1 times.2) record) ↔
      table.Alone hasherInst record) := by
  have hplaced := reachable_placed hreach
  refine ⟨?_, ?_, ?_⟩
  · rw [← Table.forall_spares_iff (fun _ : Unit => table.remove_cells hasherInst record) hplaced
      fun _ _ => ⟨(), nofun⟩]
    exact forall_const Unit |>.symm
  · refine Table.forall_spares_iff (table.failed_connection_cells hasherInst record) hplaced ?_
    intro stored hstored
    obtain ⟨now, hnow⟩ := stored.exists_other_time
    refine ⟨now, fun hsame => hnow ?_⟩
    rw [hstored, Option.map_some, Option.some.injEq] at hsame
    exact congrArg Record.last_attempt hsame
  · refine Table.forall_spares_iff
      (fun times => table.successful_connection_cells hasherInst record times.1 times.2) hplaced ?_
    intro stored hstored
    obtain ⟨now, hnow⟩ := stored.exists_other_time
    refine ⟨(now, now), fun hsame => hnow ?_⟩
    rw [hstored, Option.map_some, Option.some.injEq] at hsame
    exact congrArg Record.last_attempt hsame

/-- Two hosts of one network, and the table with both. -/
def first_host : AddrV2 := .Ipv4 (Ipv4Addr.new 10 0 0 1)
def second_host : AddrV2 := .Ipv4 (Ipv4Addr.new 10 0 0 2)

def two_relayed : Table 16 16 4 := relay (relayed_table first_host) second_host

theorem two_relayed_cells (cell : Fin 16 × Fin 16) : two_relayed.cells cell =
    if Table.place .sip 16 16 4 (relayed second_host) = cell then some (relayed second_host)
    else if Table.place .sip 16 16 4 (relayed first_host) = cell then some (relayed first_host)
    else none := by
  have hfree : (relayed_table first_host).cells
      (Table.place .sip 16 16 4 (relayed second_host)) = none := by
    rw [relayed_table_cells]
    exact if_neg (by decide +kernel)
  rw [two_relayed, relay, Table.act, (Table.add_eq _ _ _).2, placement.add, hfree]
  simp only [Function.update_apply, relayed_table_cells, eq_comm]

/-- Taking out the first host leaves the second one where it is. -/
theorem table_calls_spare_iff_two_hosts :
    two_relayed.cells (Table.place .sip 16 16 4 (relayed second_host)) =
      some (relayed second_host) ∧
    (two_relayed.remove .sip (relayed first_host)).cells
      (Table.place .sip 16 16 4 (relayed second_host)) = some (relayed second_host) ∧
    (two_relayed.remove .sip (relayed first_host)).cells
      (Table.place .sip 16 16 4 (relayed first_host)) = none := by
  have hreach : (table_system .sip bip155 16 16 4).Reachable two_relayed :=
    relay_reachable (relayed_table_reachable first_host) second_host
  have hplaces : Table.place .sip 16 16 4 (relayed second_host) ≠
      Table.place .sip 16 16 4 (relayed first_host) := by
    decide +kernel
  have hstored := two_relayed_cells (Table.place .sip 16 16 4 (relayed second_host))
  rw [if_pos rfl] at hstored
  have halone : two_relayed.Alone .sip (relayed first_host) := by
    refine (Table.alone_iff (reachable_placed hreach)).mpr fun stored hcell => ?_
    rw [two_relayed_cells, if_neg hplaces, if_pos rfl, Option.some.injEq] at hcell
    rw [hcell]
  have hspares := (table_calls_spare_iff .sip bip155 hreach (relayed first_host)).1.mpr halone
  refine ⟨hstored, hspares _ _ hstored (by decide), ?_⟩
  rw [Table.remove_cells, Function.update_self]

/-- The same host on another port. -/
def relayed_port (addr : AddrV2) : Record := { relayed addr with port := 8334 }

/-- Taking the peer on one port of a host out of the table takes out the peer on
    another port. -/
theorem remove_other_port :
    (table_system .sip bip155 16 16 4).Reachable (relayed_table (.Ipv4 ⟨[10, 0, 0, 1], rfl⟩)) ∧
    ∃ cell, (relayed_table (.Ipv4 ⟨[10, 0, 0, 1], rfl⟩)).cells cell =
        some (relayed (.Ipv4 ⟨[10, 0, 0, 1], rfl⟩)) ∧
      (relayed (.Ipv4 ⟨[10, 0, 0, 1], rfl⟩)).network_addr ≠
        (relayed_port (.Ipv4 ⟨[10, 0, 0, 1], rfl⟩)).network_addr ∧
      ((relayed_table (.Ipv4 ⟨[10, 0, 0, 1], rfl⟩)).remove .sip
        (relayed_port (.Ipv4 ⟨[10, 0, 0, 1], rfl⟩))).cells cell = none := by
  refine ⟨relayed_table_reachable _, Table.place .sip 16 16 4 (relayed _),
    (relayed_table_cells _ _).trans (if_pos rfl), ?_, ?_⟩
  · intro hsame
    cases congrArg Prod.snd hsame
  · rw [Table.remove_cells]
    exact Function.update_self _ _ _

end address_book
