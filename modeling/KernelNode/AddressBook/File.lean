import KernelNode.AddressBook.Table
import KernelNode.Bitcoin.AddrCodec
import KernelNode.Collections.Traverse

open bitcoin std.bytes std.hash std.io std.time

namespace address_book

/-- The bytes of `ADBK`. -/
def MAGIC : List UInt8 := [0x41, 0x44, 0x42, 0x4b]

/-- The number of bytes after the length byte. Unknown addresses are not
    serialized; they are a panic, here `none`. -/
def Record.compute_size (self : Record) : Option UInt8 := do
  let size ← match self.addr with
    | .I2p _ => some 34
    | .Ipv4 _ => some 6
    | .Ipv6 _ => some 18
    | .TorV2 _ => some 12
    | .TorV3 _ => some 34
    | .Cjdns _ => some 18
    | .Unknown _ _ => none
  return size + 2 + 4 + 8 + 1 + 9 + 9

def serialize_time : Option Duration → List UInt8
  | some time => 0x01 :: (to_le 8 time.as_secs.toNat).toList
  | none => List.replicate 9 0

/-- The fields after the address. -/
def Record.serialize_fields (self : Record) : List UInt8 :=
  (to_le 2 self.port.toNat).toList ++ self.source.bytes.toList ++
    (to_le 8 self.services.toNat).toList ++ [self.failed_attempts] ++
    serialize_time self.last_attempt ++ serialize_time self.last_connection

def Record.serialize (codecInst : AddrV2Codec) (self : Record) : Option (List UInt8) := do
  let len ← self.compute_size
  return len :: (codecInst.serialize self.addr ++ self.serialize_fields)

def deserialize_time : Read std.io.Error (Option Duration) := do
  let should_read ← read_u8
  if should_read = 0 then
    let _ ← read_exact 8
    return none
  else if should_read = 1 then
    let time_buf ← read_exact 8
    return some (.from_secs (.ofNat (of_le time_buf.toList)))
  else throw ⟨.InvalidData, "invalid time encoding"⟩

def Record.deserialize_fields (addr : AddrV2) : Read std.io.Error Record := do
  let port_buf ← read_exact 2
  let source_buf ← read_exact 4
  let service_buf ← read_exact 8
  let failed_attempts ← read_u8
  let last_attempt ← deserialize_time
  let last_connection ← deserialize_time
  return {
    addr
    port := .ofNat (of_le port_buf.toList)
    source := ⟨source_buf⟩
    services := .ofNat (of_le service_buf.toList)
    failed_attempts
    last_connection
    last_attempt }

/-- The record in the content that the length byte announces. What the content
    holds after the record is ignored. -/
def Record.from_content (codecInst : AddrV2Codec) (content_buf : List UInt8) :
    Except std.io.Error Record :=
  match codecInst.deserialize_partial content_buf with
  | .error e => .error ⟨.InvalidData, e⟩
  | .ok (addr, len) =>
    ((Record.deserialize_fields addr).run.run (.of_bytes (content_buf.drop len))).1

def Record.deserialize (codecInst : AddrV2Codec) : Read std.io.Error Record := do
  let size ← read_u8
  let content_buf ← read_exact size.toNat
  Record.from_content codecInst content_buf.toList

section

variable (hasherInst : DefaultHasher) (codecInst : AddrV2Codec) {B S W : Nat}

/-- The records that can be serialized, bucket by bucket. -/
def Table.unordered_records (self : Table B S W) : List Record :=
  (List.finRange B).flatMap fun bucket =>
    ((List.finRange S).filterMap (self.buckets bucket).records).filter Record.is_serializable

/-- The content of the file. -/
def write_table (table : Table B S W) : Option (List UInt8) := do
  let unordered_records := table.unordered_records
  let bytes ← unordered_records.mapM (Record.serialize codecInst)
  return MAGIC ++ (to_le 8 unordered_records.length).toList ++ bytes.flatten

variable [NeZero B] [NeZero S]

def read_records : Nat → Table B S W → Read std.io.Error (Table B S W)
  | 0, table => return table
  | size + 1, table => do
    let record ← Record.deserialize codecInst
    read_records size (table.add hasherInst record).2

def read_table (B S W : Nat) [NeZero B] [NeZero S] : Read std.io.Error (Table B S W) := do
  let magic_buf ← read_exact 4
  if magic_buf.toList ≠ MAGIC then
    throw ⟨.InvalidData, "invalid magic bytes"⟩
  let size_buf ← read_exact 8
  read_records hasherInst codecInst (of_le size_buf.toList) Table.new

end

/-- What the file keeps of a record: the times in whole seconds. -/
def Record.whole_seconds (self : Record) : Record :=
  { self with
    last_attempt := self.last_attempt.map fun time => .from_secs time.as_secs
    last_connection := self.last_connection.map fun time => .from_secs time.as_secs }

theorem run_deserialize_time (time : Option Duration) (rest : Reader) :
    deserialize_time.run.run (Reader.of_bytes (serialize_time time) ++ rest) =
      (.ok (time.map fun time => .from_secs time.as_secs), rest) := by
  cases time with
  | none => rfl
  | some time =>
    simp only [deserialize_time, serialize_time, Reader.of_bytes_cons, List.cons_append, run_bind,
      run_read_u8]
    rw [if_neg (by decide), if_pos trivial]
    simp only [run_bind, run_read_exact, Reader.take_exact_of_bytes, run_pure, of_le_u64,
      Option.map_some]

theorem Record.run_deserialize_fields (record : Record) (rest : Reader) :
    (Record.deserialize_fields record.addr).run.run
      (Reader.of_bytes record.serialize_fields ++ rest) = (.ok record.whole_seconds, rest) := by
  simp only [deserialize_fields, serialize_fields, Reader.of_bytes_append, Reader.of_bytes_cons,
    List.append_assoc, List.cons_append, List.nil_append, run_bind, run_read_exact,
    Reader.take_exact_of_bytes, run_read_u8, run_deserialize_time, run_pure, of_le_u16, of_le_u64]
  rfl

/-- A serialized record: the length byte counts what follows it. -/
theorem Record.serialize_of_writes {codecInst : AddrV2Codec} (hwrites : codecInst.Writes)
    {record : Record} (hserializable : record.is_serializable) :
    ∃ len : UInt8, record.serialize codecInst =
        some (len :: (codecInst.serialize record.addr ++ record.serialize_fields)) ∧
      (codecInst.serialize record.addr ++ record.serialize_fields).length = len.toNat := by
  have htime (time : Option Duration) : (serialize_time time).length = 9 := by
    cases time <;> simp [serialize_time]
  have hfields : record.serialize_fields.length = 33 := by
    simp [serialize_fields, htime]
  obtain ⟨addr, _, _, _, _, _, _⟩ := record
  cases addr with
  | Unknown network address => cases hserializable
  | _ =>
    refine ⟨_, rfl, ?_⟩
    rw [List.length_append, hfields, hwrites _ rfl]
    simp [AddrV2.bytes]

theorem Record.serialize_spec {codecInst : AddrV2Codec} (hcodec : codecInst.Bip155)
    {record : Record} (hserializable : record.is_serializable) :
    ∃ len : UInt8, record.serialize codecInst =
        some (len :: (codecInst.serialize record.addr ++ record.serialize_fields)) ∧
      (codecInst.serialize record.addr ++ record.serialize_fields).length = len.toNat :=
  Record.serialize_of_writes hcodec.writes hserializable

/-- The length byte delimits the content. -/
theorem Record.run_deserialize {codecInst : AddrV2Codec} {len : UInt8} {content : List UInt8}
    (hlength : content.length = len.toNat) (rest : Reader) :
    (Record.deserialize codecInst).run.run (Reader.of_bytes (len :: content) ++ rest) =
      (Record.from_content codecInst content, rest) := by
  simp only [Record.deserialize, Reader.of_bytes_cons, List.cons_append, run_bind, run_read_u8,
    run_read_exact, Reader.take_exact_of_length hlength, List.Vector.toList_mk, run_lift]

/-- The content of a serialized record gives the record, if its address is one that
    the codec reads back. -/
theorem Record.from_content_of_round_trips {codecInst : AddrV2Codec} {record : Record}
    (haddr : codecInst.RoundTrips record.addr) :
    Record.from_content codecInst
      (codecInst.serialize record.addr ++ record.serialize_fields) = .ok record.whole_seconds := by
  have hfields := record.run_deserialize_fields []
  rw [List.append_nil] at hfields
  rw [Record.from_content, haddr]
  simp only [List.drop_left, hfields]

/-- A serialized record is read back, if its address is one that the decoder
    accepts. -/
theorem Record.deserialize_serialize {codecInst : AddrV2Codec} (hcodec : codecInst.Bip155)
    {record : Record} (hserializable : record.is_serializable)
    (haccepted : record.addr.is_accepted) {bytes : List UInt8}
    (hbytes : record.serialize codecInst = some bytes) (rest : Reader) :
    (Record.deserialize codecInst).run.run (Reader.of_bytes bytes ++ rest) =
      (.ok record.whole_seconds, rest) := by
  obtain ⟨len, hserialize, hlength⟩ := Record.serialize_spec hcodec hserializable
  obtain rfl := Option.some.inj (hserialize.symm.trans hbytes)
  rw [Record.run_deserialize hlength, Record.from_content_of_round_trips fun rest =>
    hcodec.accepts record.addr rest hserializable haccepted]

/-- A record with an address that the decoder refuses is an error. -/
theorem Record.deserialize_rejected {codecInst : AddrV2Codec} (hcodec : codecInst.Bip155)
    {record : Record} (hserializable : record.is_serializable)
    (hrejected : record.addr.is_accepted = false) {bytes : List UInt8}
    (hbytes : record.serialize codecInst = some bytes) (rest : Reader) :
    ∃ e, (Record.deserialize codecInst).run.run (Reader.of_bytes bytes ++ rest) =
      (.error e, rest) := by
  obtain ⟨len, hserialize, hlength⟩ := Record.serialize_spec hcodec hserializable
  obtain rfl := Option.some.inj (hserialize.symm.trans hbytes)
  obtain ⟨e, herror⟩ := hcodec.rejects record.addr record.serialize_fields hserializable hrejected
  rw [Record.run_deserialize hlength, Record.from_content, herror]
  exact ⟨_, rfl⟩

end address_book
