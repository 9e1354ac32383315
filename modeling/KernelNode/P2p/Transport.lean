import KernelNode.P2p.Handshake

open bitcoin std.array std.bytes std.io

namespace p2p

/-- The header of a message. -/
structure V1MessageHeader where
  magic : Magic
  command : List.Vector UInt8 12
  length : UInt32
  checksum : List.Vector UInt8 4

/-- Any 24 bytes are a header. -/
def V1MessageHeader.deserialize (bytes : List.Vector UInt8 24) : V1MessageHeader where
  magic := ⟨slice bytes 0 4 (by decide)⟩
  command := slice bytes 4 12 (by decide)
  length := .ofNat (of_le (slice bytes 16 4 (by decide)).toList)
  checksum := slice bytes 20 4 (by decide)

end p2p

namespace p2p.net

inductive Error where
  | Deserialize (e : String)
  | Io (e : std.io.Error)
  | Handshake (e : handshake.Error)
  | UnexpectedMagic (magic : Magic)
  | MissingVersion
  | ChannelClosed

/-- The consensus codec of `RawNetworkMessage`. The decoder takes all the bytes
    and gives the payload. -/
structure RawNetworkMessage where
  serialize : Magic → NetworkMessage → List UInt8
  deserialize : List UInt8 → Except String NetworkMessage

section

variable (rawInst : RawNetworkMessage) (magic : Magic)

/-- The bytes that a transport writes. -/
def WriteTransport.write_message (network_message : NetworkMessage) : List UInt8 :=
  rawInst.serialize magic network_message

def ReadTransport.read_message : Read Error (Option NetworkMessage) := do
  let message_buf ← (read_exact 24).adapt .Io
  let message_header := V1MessageHeader.deserialize message_buf
  if message_header.magic ≠ magic then
    throw (.UnexpectedMagic message_header.magic)
  let contents_buf ← (read_exact message_header.length.toNat).adapt .Io
  match rawInst.deserialize (message_buf.toList ++ contents_buf.toList) with
  | .error e => throw (.Deserialize e)
  | .ok message => return some message

/-- The errors after which `wait_for_pong` reads on. -/
def Error.is_timeout : Error → Bool
  | .Io e => e.kind = .WouldBlock || e.kind = .TimedOut
  | _ => false

/-- The messages of so many calls that read on after every timeout. -/
def read_messages : Nat → Reader → List NetworkMessage
  | 0, _ => []
  | calls + 1, reader =>
    match (ReadTransport.read_message rawInst magic).run.run reader with
    | (.ok message, rest) => message.toList ++ read_messages calls rest
    | (.error e, rest) => if e.is_timeout then read_messages calls rest else []

/-- The loop of `wait_for_pong`, with the number of calls that it makes before its
    deadline. -/
def wait_for_pong (nonce : UInt64) : Nat → Reader → Bool
  | 0, _ => false
  | calls + 1, reader =>
    match (ReadTransport.read_message rawInst magic).run.run reader with
    | (.ok (some (.Pong received)), rest) => received = nonce || wait_for_pong nonce calls rest
    | (.ok _, rest) => wait_for_pong nonce calls rest
    | (.error e, rest) => e.is_timeout && wait_for_pong nonce calls rest

/-- What the codec does with a message: a header with the magic and the length of
    the payload, the payload, and the way back. No shorter bytes are decoded to
    the message. -/
structure Framed (message : NetworkMessage) : Prop where
  layout : ∃ (header : List.Vector UInt8 24) (payload : List UInt8),
    rawInst.serialize magic message = header.toList ++ payload ∧
    (V1MessageHeader.deserialize header).magic = magic ∧
    (V1MessageHeader.deserialize header).length.toNat = payload.length
  round_trip : rawInst.deserialize (rawInst.serialize magic message) = .ok message
  no_shorter : ∀ bytes, rawInst.deserialize bytes = .ok message →
    (rawInst.serialize magic message).length ≤ bytes.length

/-- What a call finds: a timeout, which loses the bytes read before it, the bytes
    of a message, or a reason to give up. -/
inductive Received : Reader → Except Error (Option NetworkMessage) × Reader → Prop where
  | timeout (lost : List UInt8) (e : std.io.Error) (rest : Reader) :
      Received (.of_bytes lost ++ .error e :: rest) (.error (.Io e), rest)
  | message {frame : List UInt8} {message : NetworkMessage}
      (hmessage : rawInst.deserialize frame = .ok message) (rest : Reader) :
      Received (.of_bytes frame ++ rest) (.ok (some message), rest)
  | stop {e : Error} (he : e.is_timeout = false) (reader rest : Reader) :
      Received reader (.error e, rest)

end

section

variable {rawInst : RawNetworkMessage} {magic : Magic}

theorem read_message_received (rawInst : RawNetworkMessage) (magic : Magic) (reader : Reader) :
    Received rawInst reader ((ReadTransport.read_message rawInst magic).run.run reader) := by
  rw [ReadTransport.read_message, run_bind, run_adapt, run_read_exact]
  have hheader := Reader.take_exact_cases 24 reader
  generalize reader.take_exact 24 = taken at hheader
  cases hheader with
  | interrupted lost hlength e rest => exact .timeout lost e rest
  | ended bytes hlength => exact .stop rfl _ _
  | filled header rest =>
    dsimp only [Except.mapError]
    split
    · exact .stop rfl _ _
    · rw [run_bind, run_adapt, run_read_exact]
      have hcontents := Reader.take_exact_cases (V1MessageHeader.deserialize header).length.toNat
        rest
      generalize rest.take_exact _ = taken at hcontents
      -- a timeout after the header loses the header as well
      cases hcontents with
      | interrupted lost hlength e rest =>
        rw [← List.append_assoc, ← Reader.of_bytes_append]
        exact .timeout (header.toList ++ lost) e rest
      | ended bytes hlength => exact .stop rfl _ _
      | filled contents rest =>
        dsimp only [Except.mapError]
        split
        · exact .stop rfl _ _
        · rename_i message hmessage
          rw [← List.append_assoc, ← Reader.of_bytes_append]
          exact .message hmessage rest

theorem Framed.read_message {message : NetworkMessage} (hframed : Framed rawInst magic message)
    (rest : Reader) :
    (ReadTransport.read_message rawInst magic).run.run
      (.of_bytes (WriteTransport.write_message rawInst magic message) ++ rest) =
      (.ok (some message), rest) := by
  obtain ⟨header, payload, hserialize, hmagic, hlength⟩ := hframed.layout
  have hround := hframed.round_trip
  rw [WriteTransport.write_message, hserialize, Reader.of_bytes_append, List.append_assoc]
  rw [hserialize] at hround
  simp only [ReadTransport.read_message, run_bind, run_adapt, run_read_exact,
    Reader.take_exact_of_bytes, Except.mapError, hmagic, ne_eq, not_true_eq_false, if_false,
    Reader.take_exact_of_length hlength.symm, List.Vector.toList_mk, hround, run_pure]

theorem Framed.length_pos {message : NetworkMessage} (hframed : Framed rawInst magic message) :
    0 < (WriteTransport.write_message rawInst magic message).length := by
  obtain ⟨header, payload, hserialize, -⟩ := hframed.layout
  rw [WriteTransport.write_message, hserialize, List.length_append, header.toList_length]
  omega

/-- The frames are delivered with timeouts only between them. -/
inductive Aligned : List (List UInt8) → Reader → Prop where
  | done : Aligned [] []
  | timeout {frames : List (List UInt8)} {reader : Reader} (e : std.io.Error)
      (haligned : Aligned frames reader) : Aligned frames (.error e :: reader)
  | frame {frames : List (List UInt8)} {reader : Reader} (frame : List UInt8)
      (haligned : Aligned frames reader) : Aligned (frame :: frames) (.of_bytes frame ++ reader)

theorem Aligned.uninterrupted (frames : List (List UInt8)) :
    Aligned frames (.of_bytes frames.flatten) := by
  induction frames with
  | nil => exact .done
  | cons frame frames ih =>
    rw [List.flatten_cons, Reader.of_bytes_append]
    exact .frame frame ih

/-- Every error of a source is a timeout. -/
def OnlyTimeouts (reader : Reader) : Prop := ∀ e, .error e ∈ reader → (Error.Io e).is_timeout

theorem Aligned.of_bytes_eq_nil {reader : Reader} (hbytes : reader.bytes = []) :
    Aligned [] reader := by
  induction reader with
  | nil => exact .done
  | cons item reader ih =>
    cases item with
    | error e => exact .timeout e (ih hbytes)
    | ok byte => cases hbytes

/-- Where no timeout strikes inside a frame, every message is read. -/
theorem Aligned.read_messages {messages : List NetworkMessage} {reader : Reader}
    (haligned : Aligned (messages.map (WriteTransport.write_message rawInst magic)) reader)
    (hframed : ∀ message ∈ messages, Framed rawInst magic message)
    (htimeouts : OnlyTimeouts reader) {calls : Nat} (hcalls : reader.length < calls) :
    net.read_messages rawInst magic calls reader = messages := by
  generalize hframes : messages.map (WriteTransport.write_message rawInst magic) = frames
    at haligned
  induction haligned generalizing messages calls with
  | done =>
    obtain rfl := List.map_eq_nil_iff.mp hframes
    obtain ⟨calls, rfl⟩ := Nat.exists_eq_succ_of_ne_zero (Nat.ne_zero_of_lt hcalls)
    rfl
  | @timeout frames reader e haligned ih =>
    obtain ⟨calls, rfl⟩ := Nat.exists_eq_succ_of_ne_zero (Nat.ne_zero_of_lt hcalls)
    have hcall : (ReadTransport.read_message rawInst magic).run.run (.error e :: reader) =
      (.error (.Io e), reader) := rfl
    simp only [net.read_messages, hcall, htimeouts e List.mem_cons_self, if_true]
    exact ih hframed (fun e he => htimeouts e (List.mem_cons_of_mem _ he))
      (Nat.lt_of_succ_lt_succ hcalls) hframes
  | @frame frames reader frame haligned ih =>
    obtain ⟨message, messages, rfl, rfl, rfl⟩ := List.map_eq_cons_iff.mp hframes
    obtain ⟨calls, rfl⟩ := Nat.exists_eq_succ_of_ne_zero (Nat.ne_zero_of_lt hcalls)
    obtain ⟨hmessage, hmessages⟩ := List.forall_mem_cons.mp hframed
    have hlength := hmessage.length_pos
    simp only [net.read_messages, hmessage.read_message, Option.toList_some, List.singleton_append]
    rw [ih hmessages (fun e he => htimeouts e (List.mem_append_right _ he)) ?_ rfl]
    simp only [Reader.of_bytes, List.length_append, List.length_map] at hcalls
    omega

/-- The messages that are read take no more bytes than there are, and none was
    lost where they take them all. -/
theorem read_messages_bytes {calls : Nat} {reader : Reader} (htimeouts : OnlyTimeouts reader)
    (hframed : ∀ message ∈ read_messages rawInst magic calls reader,
      Framed rawInst magic message) :
    ((read_messages rawInst magic calls reader).map
      (WriteTransport.write_message rawInst magic)).flatten.length ≤ reader.bytes.length ∧
    (((read_messages rawInst magic calls reader).map
      (WriteTransport.write_message rawInst magic)).flatten = reader.bytes →
      Aligned ((read_messages rawInst magic calls reader).map
        (WriteTransport.write_message rawInst magic)) reader) := by
  induction calls generalizing reader with
  | zero => exact ⟨Nat.zero_le _, fun hbytes => .of_bytes_eq_nil hbytes.symm⟩
  | succ calls ih =>
    have hreceived := read_message_received rawInst magic reader
    generalize hcall : (ReadTransport.read_message rawInst magic).run.run reader = result
      at hreceived
    simp only [read_messages, hcall] at hframed ⊢
    cases hreceived with
    | timeout lost e rest =>
      have htimeout := htimeouts e (by simp)
      simp only [htimeout, if_true] at hframed ⊢
      obtain ⟨hle, haligned⟩ := ih (fun e he => htimeouts e (by simp [he])) hframed
      rw [Reader.bytes_of_bytes_append, Reader.bytes_error_cons, List.length_append]
      refine ⟨by omega, fun hbytes => ?_⟩
      -- the messages read after the timeout leave no room for lost bytes
      obtain rfl : lost = [] := by
        have hlength := congrArg List.length hbytes
        rw [List.length_append] at hlength
        exact List.length_eq_zero_iff.mp (by omega)
      exact .timeout e (haligned hbytes)
    | @message frame message hmessage rest =>
      simp only [Option.toList_some, List.singleton_append, List.map_cons, List.flatten_cons,
        List.length_append, Reader.bytes_of_bytes_append] at hframed ⊢
      obtain ⟨hfirst, hmessages⟩ := List.forall_mem_cons.mp hframed
      obtain ⟨hle, haligned⟩ := ih (fun e he => htimeouts e (by simp [he])) hmessages
      have hframe : (WriteTransport.write_message rawInst magic message).length ≤ frame.length :=
        hfirst.no_shorter frame hmessage
      refine ⟨by omega, fun hbytes => ?_⟩
      have hlength := congrArg List.length hbytes
      rw [List.length_append, List.length_append] at hlength
      obtain ⟨rfl, hrest⟩ := List.append_inj hbytes (by omega)
      exact .frame _ (haligned hrest)
    | stop he _ rest =>
      simp only [he]
      exact ⟨Nat.zero_le _, fun hbytes => .of_bytes_eq_nil hbytes.symm⟩

end

/-- A pong on the regtest network. -/
def pong : NetworkMessage := .Pong 0x0807060504030201

def pong_frame : List UInt8 :=
  [0xfa, 0xbf, 0xb5, 0xda] ++ [0x70, 0x6f, 0x6e, 0x67, 0, 0, 0, 0, 0, 0, 0, 0] ++ [8, 0, 0, 0] ++
    [0x25, 0x02, 0xfa, 0x94] ++ [1, 2, 3, 4, 5, 6, 7, 8]

/-- The codec on this message. -/
def pong_raw : RawNetworkMessage where
  serialize magic message := if magic = .REGTEST ∧ message = pong then pong_frame else []
  deserialize bytes := if bytes = pong_frame then .ok pong else .error "unknown message"

theorem pong_framed : Framed pong_raw .REGTEST pong where
  layout := ⟨⟨pong_frame.take 24, rfl⟩, pong_frame.drop 24, rfl, rfl, rfl⟩
  round_trip := rfl
  no_shorter bytes hbytes := by
    simp only [pong_raw] at hbytes
    split_ifs at hbytes with hframe
    rw [hframe]
    rfl

/-- The pong with a timeout after its first ten bytes. -/
def interrupted_pong : Reader :=
  Reader.of_bytes (pong_frame.take 10) ++
    .error ⟨.WouldBlock, "Resource temporarily unavailable"⟩ :: Reader.of_bytes (pong_frame.drop 10)

/-- The pong is delivered and not read, however often the reader tries. -/
theorem interrupted_pong_lost :
    interrupted_pong.bytes = WriteTransport.write_message pong_raw .REGTEST pong ∧
    OnlyTimeouts interrupted_pong ∧
    read_messages pong_raw .REGTEST 34 (.of_bytes pong_frame) = [pong] ∧
    read_messages pong_raw .REGTEST 34 interrupted_pong = [] ∧
    wait_for_pong pong_raw .REGTEST 0x0807060504030201 34 interrupted_pong = false := by
  refine ⟨rfl, ?_, rfl, rfl, rfl⟩
  intro e he
  obtain rfl : e = ⟨.WouldBlock, "Resource temporarily unavailable"⟩ := by
    simpa [interrupted_pong, Reader.of_bytes, pong_frame] using he
  rfl

/-- The messages that are read are those of the uninterrupted stream exactly when
    no timeout strikes inside a frame. -/
theorem framing_survives_iff (rawInst : RawNetworkMessage) (magic : Magic)
    {messages : List NetworkMessage} (hframed : ∀ message ∈ messages, Framed rawInst magic message)
    {reader : Reader}
    (hbytes : reader.bytes =
      (messages.map (WriteTransport.write_message rawInst magic)).flatten)
    (htimeouts : OnlyTimeouts reader) {calls : Nat} (hcalls : reader.length < calls) :
    read_messages rawInst magic calls reader =
        read_messages rawInst magic calls (.of_bytes reader.bytes) ↔
      Aligned (messages.map (WriteTransport.write_message rawInst magic)) reader := by
  have huninterrupted : read_messages rawInst magic calls (.of_bytes reader.bytes) = messages := by
    have hlength : reader.bytes.length ≤ reader.length := List.length_filterMap_le _ _
    rw [hbytes] at hlength ⊢
    refine (Aligned.uninterrupted _).read_messages hframed ?_ ?_
    · intro e he
      simp [Reader.of_bytes] at he
    · rw [Reader.of_bytes, List.length_map]
      omega
  rw [huninterrupted]
  constructor
  · intro hread
    have haligned := (read_messages_bytes htimeouts (hread ▸ hframed)).2
    rw [hread] at haligned
    exact haligned hbytes.symm
  · intro haligned
    exact haligned.read_messages hframed htimeouts hcalls

/-- A timeout before the pong loses nothing. -/
theorem framing_survives_timeout_before :
    read_messages pong_raw .REGTEST 34
        (.error ⟨.TimedOut, "timed out"⟩ :: Reader.of_bytes pong_frame) =
      read_messages pong_raw .REGTEST 34
        (.of_bytes (Reader.bytes
          (.error ⟨.TimedOut, "timed out"⟩ :: Reader.of_bytes pong_frame))) := by
  have hframed : ∀ message ∈ [pong], Framed pong_raw .REGTEST message := by
    simpa using pong_framed
  have htimeouts :
      OnlyTimeouts (.error ⟨.TimedOut, "timed out"⟩ :: Reader.of_bytes pong_frame) := by
    simp [OnlyTimeouts, Reader.of_bytes, Error.is_timeout]
  exact (framing_survives_iff pong_raw .REGTEST hframed rfl htimeouts (by decide)).mpr
    (.timeout _ (.frame pong_frame .done))

end p2p.net
