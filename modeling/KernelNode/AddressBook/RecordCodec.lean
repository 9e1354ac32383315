import KernelNode.AddressBook.File

open bitcoin std.bytes std.io std.time

namespace address_book

variable {codecInst : AddrV2Codec}

/-- A time that was read has no fraction of a second. -/
theorem deserialize_time_whole {reader rest : Reader} {time : Option Duration}
    (hread : deserialize_time.run.run reader = (.ok time, rest)) :
    time.map (fun time => .from_secs time.as_secs) = time := by
  obtain ⟨should_read, middle, _, hread⟩ := run_bind_eq_ok hread
  split at hread
  · obtain ⟨_, _, _, hread⟩ := run_bind_eq_ok hread
    cases hread
    rfl
  · split at hread
    · obtain ⟨_, _, _, hread⟩ := run_bind_eq_ok hread
      cases hread
      rfl
    · cases hread

theorem Record.deserialize_fields_whole {addr : AddrV2} {reader rest : Reader} {record : Record}
    (hread : (Record.deserialize_fields addr).run.run reader = (.ok record, rest)) :
    record.addr = addr ∧ record.whole_seconds = record := by
  obtain ⟨port_buf, _, _, hread⟩ := run_bind_eq_ok hread
  obtain ⟨source_buf, _, _, hread⟩ := run_bind_eq_ok hread
  obtain ⟨service_buf, _, _, hread⟩ := run_bind_eq_ok hread
  obtain ⟨failed_attempts, _, _, hread⟩ := run_bind_eq_ok hread
  obtain ⟨last_attempt, _, hattempt, hread⟩ := run_bind_eq_ok hread
  obtain ⟨last_connection, _, hconnection, hread⟩ := run_bind_eq_ok hread
  cases hread
  refine ⟨rfl, ?_⟩
  rw [Record.whole_seconds, deserialize_time_whole hattempt, deserialize_time_whole hconnection]

/-- A record that was read has whole seconds, and an address that was decoded. -/
theorem Record.from_content_eq_ok {content : List UInt8} {record : Record}
    (hcontent : Record.from_content codecInst content = .ok record) :
    (∃ len, codecInst.deserialize_partial content = .ok (record.addr, len)) ∧
      record.whole_seconds = record := by
  rw [Record.from_content] at hcontent
  split at hcontent
  · cases hcontent
  · rename_i addr len hdecoded
    obtain ⟨haddr, hwhole⟩ := Record.deserialize_fields_whole (Prod.ext hcontent rfl)
    exact ⟨⟨len, haddr ▸ hdecoded⟩, hwhole⟩

/-- A record is read from the bytes that its length byte announces. -/
theorem Record.deserialize_eq_ok {reader rest : Reader} {record : Record}
    (hread : (Record.deserialize codecInst).run.run reader = (.ok record, rest)) :
    ∃ (len : UInt8) (content : List UInt8), reader = .of_bytes (len :: content) ++ rest ∧
      content.length = len.toNat ∧ Record.from_content codecInst content = .ok record := by
  obtain ⟨len, middle, hlen, hread⟩ := run_bind_eq_ok hread
  obtain ⟨content, last, hcontent, hread⟩ := run_bind_eq_ok hread
  rw [run_read_u8_eq_ok] at hlen
  rw [run_read_exact_eq_ok] at hcontent
  obtain ⟨hrecord, rfl⟩ := Prod.mk.inj hread
  exact ⟨len, content.toList, by rw [hlen, hcontent]; rfl, content.toList_length, hrecord⟩

/-- A record is read back from its bytes and from no others that follow. -/
theorem Record.deserialize_written (hwrites : codecInst.Writes) {record : Record}
    (hserializable : record.is_serializable) (haddr : codecInst.RoundTrips record.addr)
    (rest : Reader) :
    ∃ (len : UInt8) (content : List UInt8), record.serialize codecInst = some (len :: content) ∧
      content.length = len.toNat ∧
      (Record.deserialize codecInst).run.run (.of_bytes (len :: content) ++ rest) =
        (.ok record.whole_seconds, rest) := by
  obtain ⟨len, hserialize, hlength⟩ := Record.serialize_of_writes hwrites hserializable
  refine ⟨len, _, hserialize, hlength, ?_⟩
  rw [Record.run_deserialize hlength, Record.from_content_of_round_trips haddr]

/-- A record is written with its length and read back up to the fractions of its
    times, and nothing beyond it is read. Whatever is read as a record is as long
    as its length byte says, and is read back from its own bytes. -/
theorem record_codec (hwrites : codecInst.Writes) (hstable : codecInst.Stable) :
    (∀ record : Record, record.is_serializable → codecInst.RoundTrips record.addr →
      ∀ rest : List UInt8, ∃ (len : UInt8) (content : List UInt8),
        record.serialize codecInst = some (len :: content) ∧ content.length = len.toNat ∧
        (Record.deserialize codecInst).run.run (.of_bytes (len :: content ++ rest)) =
          (.ok record.whole_seconds, .of_bytes rest)) ∧
    ∀ bytes : List UInt8,
      (∃ e rest, (Record.deserialize codecInst).run.run (.of_bytes bytes) = (.error e, rest)) ∨
      ∃ (len : UInt8) (content rest : List UInt8) (record : Record),
        bytes = len :: content ++ rest ∧ content.length = len.toNat ∧
        (Record.deserialize codecInst).run.run (.of_bytes bytes) = (.ok record, .of_bytes rest) ∧
        (record.is_serializable → ∃ written, record.serialize codecInst = some written ∧
          (Record.deserialize codecInst).run.run (.of_bytes written) = (.ok record, [])) := by
  constructor
  · intro record hserializable haddr rest
    obtain ⟨len, content, hserialize, hlength, hread⟩ :=
      Record.deserialize_written hwrites hserializable haddr (.of_bytes rest)
    refine ⟨len, content, hserialize, hlength, ?_⟩
    rw [Reader.of_bytes_append, hread]
  · intro bytes
    rcases hread : (Record.deserialize codecInst).run.run (.of_bytes bytes) with ⟨e | record, last⟩
    · exact .inl ⟨e, last, rfl⟩
    · obtain ⟨len, content, hbytes, hlength, hcontent⟩ := Record.deserialize_eq_ok hread
      obtain ⟨rest, rfl, rfl⟩ := Reader.of_bytes_eq_append.mp hbytes
      obtain ⟨⟨_, hdecoded⟩, hwhole⟩ := Record.from_content_eq_ok hcontent
      refine .inr ⟨len, content, rest, record, rfl, hlength, rfl, fun hserializable => ?_⟩
      obtain ⟨size, written, hserialize, _, hagain⟩ := Record.deserialize_written hwrites
        hserializable (hstable content record.addr _ hdecoded hserializable) []
      rw [List.append_nil, hwhole] at hagain
      exact ⟨_, hserialize, hagain⟩

/-- An onion peer that was tried half a second after it was last connected. -/
def onion_record : Record where
  addr := .TorV3 (List.Vector.replicate 32 7)
  port := 8333
  source := ⟨List.Vector.replicate 4 1⟩
  services := 9
  failed_attempts := 2
  last_connection := some (.from_secs 1700000000)
  last_attempt := some ⟨1700000000, ⟨500000000, by decide⟩⟩

theorem record_codec_onion :
    ∃ (len : UInt8) (content : List UInt8), onion_record.serialize bip155 = some (len :: content) ∧
      content.length = len.toNat ∧
      (Record.deserialize bip155).run.run (.of_bytes (len :: content ++ [0xff])) =
        (.ok onion_record.whole_seconds, .of_bytes [0xff]) :=
  (record_codec bip155_lawful.writes bip155_stable).1 onion_record rfl
    (fun rest => bip155_lawful.accepts onion_record.addr rest rfl rfl) [0xff]

end address_book
