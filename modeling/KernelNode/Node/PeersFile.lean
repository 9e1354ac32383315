import KernelNode.AddressBook.RoundTrip
import KernelNode.Disk
import KernelNode.Node.ConnectPeers

open address_book bitcoin disk std.bytes std.hash std.io std.net transition

namespace address_book

variable {hasherInst : DefaultHasher} {codecInst : AddrV2Codec} {B S W : Nat}

/-- The pieces in which `write_table` writes the file. -/
def write_pieces (codecInst : AddrV2Codec) (table : Table B S W) :
    Option (List (List UInt8)) := do
  let unordered_records := table.unordered_records
  let bytes ← unordered_records.mapM (Record.serialize codecInst)
  return MAGIC :: (to_le 8 unordered_records.length).toList :: bytes

theorem write_table_eq (table : Table B S W) :
    write_table codecInst table = (write_pieces codecInst table).map List.flatten := by
  simp only [write_table, write_pieces]
  cases table.unordered_records.mapM (Record.serialize codecInst) with
  | none => rfl
  | some bytes => simp

end address_book

namespace node

/-- A path by its components. -/
def with_file_name (path : List String) (file_name : String) : List String :=
  path.dropLast ++ [file_name]

/-- The peers file of a data directory. -/
def peers_file (data_dir : List String) : List String := data_dir ++ ["peers.bin"]

section

variable (hasherInst : DefaultHasher) (codecInst : AddrV2Codec)

/-- The table of the peers file, of which the content is given, or a new one where
    there is no file or it cannot be read. -/
def AddrTableExt.load (content : Option (List UInt8)) : AddrTable :=
  match content with
  | none => .new
  | some bytes =>
    match ((read_table hasherInst codecInst TABLE_WIDTH TABLE_SLOT MAX_BUCKETS).run.run
      (.of_bytes bytes)).1 with
    | .ok table => table
    | .error _ => .new

/-- The operations of a save. -/
def AddrTableExt.save (self : AddrTable) (path : List String) :
    Option (List (Op (List String))) :=
  let tmp := with_file_name path "peers.tmp"
  (write_pieces codecInst self).map fun pieces =>
    .create tmp :: (pieces.map (.write_all tmp) ++ [.sync_data tmp, .rename tmp path])

/-- The disk, the address book of the node while it runs, and every table that a save
    was called with. -/
structure BookState where
  disk : Disk (List String)
  table : Option AddrTable
  saved : List AddrTable

inductive BookAction where
  | start (seeds : List IpAddr)
  | act (action : TableAction)
  | flush (outcome : Outcome)
  /-- The node ends, in whatever way. -/
  | stop
  | power_loss

/-- The address book over any number of starts of the node without `--connect`. -/
inductive BookStep (path : List String) (default_p2p_port : UInt16) : BookState → BookAction →
    BookState → Prop where
  | start {state : BookState} {content : Option (List UInt8)} (seeds : List IpAddr)
      (hstopped : state.table = none)
      -- a file that cannot be opened or read is as none
      (hcontent : content = state.disk.read path ∨ content = none) :
      BookStep path default_p2p_port state (.start seeds) { state with
        table := some (run_table hasherInst (AddrTableExt.load hasherInst codecInst content) seeds
          default_p2p_port []) }
  | act {state : BookState} {table : AddrTable} (action : TableAction)
      (hrunning : state.table = some table) :
      BookStep path default_p2p_port state (.act action)
        { state with table := some (table.act hasherInst action) }
  | flush {state : BookState} {table : AddrTable} {ops : List (Op (List String))}
      {outcome : Outcome} {after : Disk (List String)} (hrunning : state.table = some table)
      (hops : AddrTableExt.save codecInst table path = some ops)
      (hexec : Exec state.disk ops outcome after) :
      BookStep path default_p2p_port state (.flush outcome)
        { disk := after
          table := if outcome = .killed then none else some table
          saved := table :: state.saved }
  | stop {state : BookState} :
      BookStep path default_p2p_port state .stop { state with table := none }
  | power_loss {state : BookState} {after : Disk (List String)}
      (hloss : PowerLoss state.disk after) :
      BookStep path default_p2p_port state .power_loss
        { state with disk := after, table := none }

def book_system (path : List String) (default_p2p_port : UInt16) :
    System BookState BookAction where
  init state := state = ⟨.empty, none, []⟩
  step := BookStep hasherInst codecInst path default_p2p_port

end

section

variable {hasherInst : DefaultHasher} {codecInst : AddrV2Codec} {path : List String}
  {default_p2p_port : UInt16}

theorem peers_tmp_ne (data_dir : List String) :
    with_file_name (peers_file data_dir) "peers.tmp" ≠ peers_file data_dir := by
  simp [with_file_name, peers_file]

/-- A save replaces the file. -/
theorem save_eq {table : AddrTable} {pieces : List (List UInt8)}
    (hpieces : write_pieces codecInst table = some pieces) :
    AddrTableExt.save codecInst table path =
      some (replace_pieces true (with_file_name path "peers.tmp") path pieces) := by
  rw [AddrTableExt.save, hpieces]
  rfl

/-- What the node starts with where the file holds the table. -/
def reloaded (table : AddrTable) : AddrTable :=
  if table.Readable then table.as_written else .new

/-- The bytes of a table that a save was called with. -/
def WrittenFrom (codecInst : AddrV2Codec) (saved : List AddrTable) (bytes : List UInt8) : Prop :=
  ∃ table ∈ saved, write_table codecInst table = some bytes

/-- The tables come from calls on a new table or on one that was read, and the peers
    file is complete on every directory that the device may hold. -/
structure BookState.Sound (hasherInst : DefaultHasher) (codecInst : AddrV2Codec)
    (path : List String) (state : BookState) : Prop where
  file : Replaced true (with_file_name path "peers.tmp") path (WrittenFrom codecInst state.saved)
    state.disk
  saved : ∀ table ∈ state.saved,
    (table_system hasherInst codecInst TABLE_WIDTH TABLE_SLOT MAX_BUCKETS).Reachable table
  running : ∀ table, state.table = some table →
    (table_system hasherInst codecInst TABLE_WIDTH TABLE_SLOT MAX_BUCKETS).Reachable table

theorem load_reachable (content : Option (List UInt8)) :
    (table_system hasherInst codecInst TABLE_WIDTH TABLE_SLOT MAX_BUCKETS).Reachable
      (AddrTableExt.load hasherInst codecInst content) := by
  apply System.Reachable.of_init
  cases content with
  | none => exact .inl rfl
  | some bytes =>
    rw [AddrTableExt.load]
    cases hread : (read_table hasherInst codecInst TABLE_WIDTH TABLE_SLOT MAX_BUCKETS).run.run
      (.of_bytes bytes) with
    | mk result rest =>
      cases result with
      | ok table => exact .inr ⟨.of_bytes bytes, rest, hread⟩
      | error e => exact .inl rfl

/-- The seeds are added one by one. -/
theorem run_table_reachable {loaded : AddrTable}
    (hloaded : (table_system hasherInst codecInst TABLE_WIDTH TABLE_SLOT MAX_BUCKETS).Reachable
      loaded) (seeds : List IpAddr) :
    (table_system hasherInst codecInst TABLE_WIDTH TABLE_SLOT MAX_BUCKETS).Reachable
      (run_table hasherInst loaded seeds default_p2p_port []) := by
  simp only [run_table, List.isEmpty_nil]
  split
  · clear *- hloaded
    induction seeds generalizing loaded with
    | nil => exact hloaded
    | cons addr seeds ih =>
      have hadd : (loaded.add hasherInst (seed_record hasherInst addr default_p2p_port)).2 =
        loaded.act hasherInst (.add (seed_record hasherInst addr default_p2p_port)) := rfl
      exact ih (hloaded.step hadd)
  · exact hloaded

/-- A file with the bytes of a table loads as what of the table can be read. -/
theorem load_written (hcodec : codecInst.Bip155) {table : AddrTable}
    (hreach : (table_system hasherInst codecInst TABLE_WIDTH TABLE_SLOT MAX_BUCKETS).Reachable
      table) {bytes : List UInt8} (hbytes : write_table codecInst table = some bytes) :
    AddrTableExt.load hasherInst codecInst (some bytes) = reloaded table := by
  obtain ⟨written, hwritten, hread, hfail⟩ := read_back hcodec (by decide) hreach
  obtain rfl := Option.some.inj (hwritten.symm.trans hbytes)
  rw [AddrTableExt.load, reloaded]
  split_ifs with hreadable
  · obtain ⟨rest, hok⟩ := hread hreadable
    rw [hok]
  · obtain ⟨e, rest, herror⟩ := hfail hreadable
    rw [herror]

/-- A flush keeps the file complete, and ends as a replacement does. -/
theorem flush_spec (hne : with_file_name path "peers.tmp" ≠ path) {state : BookState}
    (hsound : state.Sound hasherInst codecInst path) {table : AddrTable}
    {ops : List (Op (List String))} (hops : AddrTableExt.save codecInst table path = some ops)
    {outcome : Outcome} {after : Disk (List String)} (hexec : Exec state.disk ops outcome after) :
    Replaced true (with_file_name path "peers.tmp") path
        (WrittenFrom codecInst (table :: state.saved)) after ∧
      (outcome = .ok → ∃ bytes, write_table codecInst table = some bytes ∧
        after.read path = some bytes) ∧
      (outcome = .error → after.read path = state.disk.read path) := by
  obtain ⟨pieces, hpieces, rfl⟩ := Option.map_eq_some_iff.mp hops
  have hwritten : write_table codecInst table = some pieces.flatten := by
    rw [write_table_eq, hpieces, Option.map_some]
  have hkept : Replaced true (with_file_name path "peers.tmp") path
      (WrittenFrom codecInst (table :: state.saved)) state.disk :=
    hsound.file.mono fun _ ⟨other, hother, hbytes⟩ =>
      ⟨other, List.mem_cons_of_mem _ hother, hbytes⟩
  obtain ⟨hafter, hends⟩ := triple_replace_pieces true hne
    ⟨table, List.mem_cons_self, hwritten⟩ state.disk outcome after ⟨hkept, rfl⟩ hexec
  refine ⟨hafter, ?_, ?_⟩
  · rintro rfl
    exact ⟨pieces.flatten, hwritten, hends⟩
  · rintro rfl
    exact hends

theorem BookStep.sound (hne : with_file_name path "peers.tmp" ≠ path) {state next : BookState}
    {action : BookAction} (hsound : state.Sound hasherInst codecInst path)
    (hstep : BookStep hasherInst codecInst path default_p2p_port state action next) :
    next.Sound hasherInst codecInst path := by
  cases hstep with
  | start seeds hstopped hcontent =>
    refine ⟨hsound.file, hsound.saved, ?_⟩
    rintro _ ⟨⟩
    exact run_table_reachable (load_reachable _) seeds
  | act action hrunning =>
    refine ⟨hsound.file, hsound.saved, ?_⟩
    rintro _ ⟨⟩
    exact (hsound.running _ hrunning).step rfl
  | flush hrunning hops hexec =>
    refine ⟨(flush_spec hne hsound hops hexec).1, ?_, ?_⟩
    · exact List.forall_mem_cons.mpr ⟨hsound.running _ hrunning, hsound.saved⟩
    · intro other hother
      split_ifs at hother
      obtain rfl := Option.some.inj hother
      exact hsound.running _ hrunning
  | stop => exact ⟨hsound.file, hsound.saved, nofun⟩
  | power_loss hloss => exact ⟨hsound.file.power_loss hloss, hsound.saved, nofun⟩

theorem book_sound (hne : with_file_name path "peers.tmp" ≠ path) {state : BookState}
    (hreach : (book_system hasherInst codecInst path default_p2p_port).Reachable state) :
    state.Sound hasherInst codecInst path := by
  refine hreach.invariant (P := BookState.Sound hasherInst codecInst path) ?_
    fun _ _ _ hsound hstep => BookStep.sound hne hsound hstep
  rintro _ rfl
  exact ⟨Replaced.empty true _ path _, nofun, nofun⟩

end

/-- The address book over any starts, calls, flushes, I/O errors, kills and power
    losses: the peers file is missing or loads as what can be read of a table that was
    flushed. Every table can be written; a flush that reports success is the one that
    loads, and one that reports an error has changed nothing. -/
theorem peers_file_survives (hasherInst : DefaultHasher) {codecInst : AddrV2Codec}
    (hcodec : codecInst.Bip155) (data_dir : List String) (default_p2p_port : UInt16)
    {state : BookState}
    (hreach : (book_system hasherInst codecInst (peers_file data_dir) default_p2p_port).Reachable
      state) :
    (state.disk.read (peers_file data_dir) = none ∨ ∃ table ∈ state.saved,
      AddrTableExt.load hasherInst codecInst (state.disk.read (peers_file data_dir)) =
        reloaded table) ∧
    ∀ table, state.table = some table →
      (AddrTableExt.save codecInst table (peers_file data_dir)).isSome ∧
      ∀ outcome next, BookStep hasherInst codecInst (peers_file data_dir) default_p2p_port state
          (.flush outcome) next →
        (outcome = .ok → AddrTableExt.load hasherInst codecInst
          (next.disk.read (peers_file data_dir)) = reloaded table) ∧
        (outcome = .error →
          next.disk.read (peers_file data_dir) = state.disk.read (peers_file data_dir)) := by
  have hne := peers_tmp_ne data_dir
  have hsound := book_sound hne hreach
  constructor
  · cases hread : state.disk.read (peers_file data_dir) with
    | none => exact .inl rfl
    | some bytes =>
      obtain ⟨table, htable, hbytes⟩ := hsound.file.accepted_of_read hread
      exact .inr ⟨table, htable, load_written hcodec (hsound.saved table htable) hbytes⟩
  · intro table hrunning
    have htable := hsound.running table hrunning
    constructor
    · obtain ⟨bytes, hbytes, _⟩ := read_back hcodec (by decide) htable
      rw [write_table_eq] at hbytes
      obtain ⟨pieces, hpieces, _⟩ := Option.map_eq_some_iff.mp hbytes
      rw [save_eq hpieces, Option.isSome_some]
    · intro outcome next hstep
      cases hstep with
      | flush hflushed hops hexec =>
        obtain rfl := Option.some.inj (hflushed.symm.trans hrunning)
        obtain ⟨_, hok, herror⟩ := flush_spec hne hsound hops hexec
        refine ⟨?_, herror⟩
        intro houtcome
        obtain ⟨bytes, hbytes, hread⟩ := hok houtcome
        rw [hread]
        exact load_written hcodec htable hbytes

/-- The book of a first start, and the same book with a relayed address. -/
def seeded_book : AddrTable := run_table .sip .new [.V4 (Ipv4Addr.new 10 0 0 1)] 8333 []

def relayed_book : AddrTable :=
  seeded_book.act .sip (.add (relayed (.Ipv4 (Ipv4Addr.new 10 0 0 2))))

/-- Their records as they are written. -/
def seeded_entry : List UInt8 :=
  [39, 1, 4, 10, 0, 0, 1, 0x8d, 0x20, 147, 173, 153, 80, 1, 0, 0, 0, 0, 0, 0, 0] ++
    List.replicate 19 0

def relayed_entry : List UInt8 :=
  [39, 1, 4, 10, 0, 0, 2, 0x8d, 0x20, 182, 151, 35, 72, 9, 0, 0, 0, 0, 0, 0, 0] ++
    List.replicate 19 0

theorem write_pieces_seeded : write_pieces bip155 seeded_book =
    some [MAGIC, [1, 0, 0, 0, 0, 0, 0, 0], seeded_entry] := by
  decide +kernel

theorem write_pieces_relayed : write_pieces bip155 relayed_book =
    some [MAGIC, [2, 0, 0, 0, 0, 0, 0, 0], relayed_entry, seeded_entry] := by
  decide +kernel

/-- The disk after the first flush, and after a second one that was killed while it
    wrote. -/
def seeded_disk : Disk (List String) :=
  (((((Disk.empty.create ["data", "peers.tmp"]).append ["data", "peers.tmp"] MAGIC).append
    ["data", "peers.tmp"] [1, 0, 0, 0, 0, 0, 0, 0]).append ["data", "peers.tmp"]
      seeded_entry).sync ["data", "peers.tmp"]).rename ["data", "peers.tmp"] ["data", "peers.bin"]

def torn_disk : Disk (List String) :=
  ((seeded_disk.create ["data", "peers.tmp"]).append ["data", "peers.tmp"] MAGIC).append
    ["data", "peers.tmp"] [2, 0, 0]

/-- A start without a file, a flush, and after one more address a flush that is killed. -/
theorem peers_file_survives_kill :
    (book_system .sip bip155 (peers_file ["data"]) 8333).Reachable
      ⟨torn_disk, none, [relayed_book, seeded_book]⟩ ∧
    AddrTableExt.load .sip bip155 (seeded_disk.read (peers_file ["data"])) =
      seeded_book.as_written ∧
    (torn_disk.read (peers_file ["data"]) = none ∨ ∃ table ∈ [relayed_book, seeded_book],
      AddrTableExt.load .sip bip155 (torn_disk.read (peers_file ["data"])) = reloaded table) := by
  have hempty : (book_system .sip bip155 (peers_file ["data"]) 8333).Reachable
      ⟨.empty, none, []⟩ := .of_init rfl
  have hstart : (book_system .sip bip155 (peers_file ["data"]) 8333).Reachable
      ⟨.empty, some seeded_book, []⟩ :=
    hempty.step (.start [.V4 (Ipv4Addr.new 10 0 0 1)] rfl (.inl rfl))
  have hflush : BookStep .sip bip155 (peers_file ["data"]) 8333 ⟨.empty, some seeded_book, []⟩
      (.flush .ok) ⟨seeded_disk, some seeded_book, [seeded_book]⟩ :=
    .flush rfl (save_eq write_pieces_seeded) (.next .create (.next .write_all (.next .write_all
      (.next .write_all (.next .sync_data (.next .rename .nil))))))
  have hact : BookStep .sip bip155 (peers_file ["data"]) 8333
      ⟨seeded_disk, some seeded_book, [seeded_book]⟩
      (.act (.add (relayed (.Ipv4 (Ipv4Addr.new 10 0 0 2)))))
      ⟨seeded_disk, some relayed_book, [seeded_book]⟩ := .act _ rfl
  have hkill : BookStep .sip bip155 (peers_file ["data"]) 8333
      ⟨seeded_disk, some relayed_book, [seeded_book]⟩ (.flush .killed)
      ⟨torn_disk, none, [relayed_book, seeded_book]⟩ :=
    .flush rfl (save_eq write_pieces_relayed) (.next .create (.next .write_all
      (.stop (.write_part (by decide) (by decide)) (by decide))))
  have hkilled := ((hstart.step hflush).step hact).step hkill
  have hreadable : seeded_book.Readable := by decide +kernel
  have hloaded := (((peers_file_survives .sip bip155_lawful ["data"] 8333 hstart).2 seeded_book
    rfl).2 .ok _ hflush).1 rfl
  rw [reloaded, if_pos hreadable] at hloaded
  exact ⟨hkilled, hloaded, (peers_file_survives .sip bip155_lawful ["data"] 8333 hkilled).1⟩

end node
