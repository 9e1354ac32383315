import Mathlib.Data.Finset.Card
import Mathlib.Data.Fintype.Card
import KernelNode.AddressBook.Gossip
import KernelNode.AddressBook.Runs
import KernelNode.Collections.SocketAddr

open address_book bitcoin placement std.hash std.net

namespace node

def DNS_RESOLVER : IpAddr := .V4 ⟨[1, 1, 1, 1], rfl⟩

def TABLE_WIDTH : Nat := 16
def TABLE_SLOT : Nat := 16
def MAX_BUCKETS : Nat := 4

abbrev AddrTable := Table TABLE_WIDTH TABLE_SLOT MAX_BUCKETS

instance : NeZero TABLE_WIDTH := ⟨by decide⟩
instance : NeZero TABLE_SLOT := ⟨by decide⟩

/-- `ServiceFlags::NETWORK`. -/
def NETWORK : UInt64 := 1

/-- The peers of the `--connect` options, which are joined with commas, or the
    first piece that is not an address. -/
def parse_connect (connect : Option String) : Except String (List SocketAddr) :=
  (connect.toList.flatMap fun list => list.toList.splitOn ',').mapM fun addr =>
    match SocketAddr.from_str (std.str.trim addr) with
    | some peer => .ok peer
    | none => .error (String.ofList addr)

def addr_v2 : IpAddr → AddrV2
  | .V4 ipv4 => .Ipv4 ipv4
  | .V6 ipv6 => .Ipv6 ipv6

section

variable (hasherInst : DefaultHasher)

/-- The record of a peer that was not gossiped: its source is the DNS resolver. -/
def seed_record (ip : IpAddr) (port : UInt16) : Record :=
  .new hasherInst (addr_v2 ip) port NETWORK DNS_RESOLVER

def connect_record (peer : SocketAddr) : Record :=
  seed_record hasherInst peer.ip peer.port

/-- The address table that `run` starts with: the peers to connect to, or else
    what the peers file holds, or else what the DNS seeds resolve to. -/
def run_table (loaded : AddrTable) (seeds : List IpAddr) (default_p2p_port : UInt16)
    (connect : List SocketAddr) : AddrTable :=
  match connect.isEmpty with
  | false =>
    connect.foldl (fun table peer => (table.add hasherInst (connect_record hasherInst peer)).2) .new
  | true =>
    if loaded.is_empty then
      seeds.foldl (fun table addr =>
        (table.add hasherInst (seed_record hasherInst addr default_p2p_port)).2) loaded
    else loaded

end

/-- The address by which the table knows a peer. -/
def network_addr (peer : SocketAddr) : AddrV2 × UInt16 := (addr_v2 peer.ip, peer.port)

/-- Some record of the table has the network address. -/
def Stores (table : AddrTable) (addr : AddrV2 × UInt16) : Prop :=
  ∃ cell record, table.cells cell = some record ∧ record.network_addr = addr

/-- The bucket and the slot that a peer is put into. -/
def connect_place (hasherInst : DefaultHasher) (peer : SocketAddr) :
    Fin TABLE_WIDTH × Fin TABLE_SLOT :=
  Table.place hasherInst TABLE_WIDTH TABLE_SLOT MAX_BUCKETS (connect_record hasherInst peer)

section

variable {hasherInst : DefaultHasher} {loaded : AddrTable} {seeds : List IpAddr}
  {default_p2p_port : UInt16} {connect : List SocketAddr}

theorem addr_v2_injective : Function.Injective addr_v2 := by
  intro ip other haddr
  cases ip <;> cases other <;> cases haddr <;> rfl

theorem network_addr_injective : Function.Injective network_addr := by
  rintro ⟨ip, port⟩ ⟨other, other_port⟩ haddr
  obtain ⟨hip, rfl⟩ := Prod.mk.inj haddr
  obtain rfl := addr_v2_injective hip
  rfl

theorem run_table_cells (hconnect : connect ≠ []) :
    (run_table hasherInst loaded seeds default_p2p_port connect).cells =
      add_all (Table.place hasherInst TABLE_WIDTH TABLE_SLOT MAX_BUCKETS) (fun _ => none)
        (connect.map (connect_record hasherInst)) := by
  have htable : run_table hasherInst loaded seeds default_p2p_port connect =
      Table.new.add_all hasherInst (connect.map (connect_record hasherInst)) := by
    rw [run_table, List.isEmpty_eq_false_iff.mpr hconnect, Table.add_all, List.foldl_map]
  rw [htable, Table.add_all_cells]
  rfl

/-- A cell holds the record of the first listed peer that belongs there. -/
theorem run_table_cells_apply (hconnect : connect ≠ []) (cell : Fin TABLE_WIDTH × Fin TABLE_SLOT) :
    (run_table hasherInst loaded seeds default_p2p_port connect).cells cell =
      (connect.find? fun peer => connect_place hasherInst peer = cell).map
        (connect_record hasherInst) := by
  rw [run_table_cells hconnect, add_all_apply, Option.none_or, List.find?_map]
  rfl

/-- A listed peer is in the table where no other peer before it in the list
    belongs in its cell. -/
theorem stores_iff (hconnect : connect ≠ []) (peer : SocketAddr) :
    Stores (run_table hasherInst loaded seeds default_p2p_port connect) (network_addr peer) ↔
      connect.find? (fun other => connect_place hasherInst other = connect_place hasherInst peer) =
        some peer := by
  constructor
  · rintro ⟨cell, record, hrecord, haddr⟩
    rw [run_table_cells_apply hconnect, Option.map_eq_some_iff] at hrecord
    obtain ⟨other, hfind, rfl⟩ := hrecord
    obtain rfl := network_addr_injective haddr
    have hcell : connect_place hasherInst other = cell := by simpa using List.find?_some hfind
    rwa [hcell]
  · intro hfind
    refine ⟨connect_place hasherInst peer, connect_record hasherInst peer, ?_, rfl⟩
    rw [run_table_cells_apply hconnect, hfind, Option.map_some]

theorem find_eq_some_of_pairwise {peer : SocketAddr} (hpeer : peer ∈ connect)
    (hplaces : connect.Pairwise fun peer other =>
      connect_place hasherInst peer ≠ connect_place hasherInst other) :
    connect.find? (fun other => connect_place hasherInst other = connect_place hasherInst peer) =
      some peer := by
  have hnodup : (connect.map (connect_place hasherInst)).Nodup := List.pairwise_map.mpr hplaces
  cases hfind : connect.find? fun other =>
    connect_place hasherInst other = connect_place hasherInst peer with
  | none => simpa using List.find?_eq_none.mp hfind peer hpeer
  | some other =>
    have hplace : connect_place hasherInst other = connect_place hasherInst peer := by
      simpa using List.find?_some hfind
    rw [List.inj_on_of_nodup_map hnodup (List.mem_of_find?_eq_some hfind) hpeer hplace]

/-- As many different elements of a list as it is long show that it lists none
    twice. -/
theorem nodup_of_injective {A : Type} [DecidableEq A] {list : List A} {given : Fin list.length → A}
    (hinjective : Function.Injective given) (hmem : ∀ index, given index ∈ list) :
    list.Nodup := by
  have himage : Finset.univ.image given ⊆ list.toFinset := by
    intro element helement
    obtain ⟨index, _, rfl⟩ := Finset.mem_image.mp helement
    exact List.mem_toFinset.mpr (hmem index)
  have hcard := Finset.card_le_card himage
  rw [Finset.card_image_of_injective _ hinjective, Finset.card_univ, Fintype.card_fin,
    List.card_toFinset] at hcard
  rw [← (List.dedup_sublist list).eq_of_length_le hcard]
  exact List.nodup_dedup list

end

/-- Every listed peer is in the table, and the threads can be given different
    listed peers, exactly where no two entries of the list belong in the same
    bucket and slot. -/
theorem connect_peers_kept_iff (hasherInst : DefaultHasher) (loaded : AddrTable)
    (seeds : List IpAddr) (default_p2p_port : UInt16) {text : Option String}
    {connect : List SocketAddr} (_ : parse_connect text = .ok connect) :
    ((∀ peer ∈ connect, Stores (run_table hasherInst loaded seeds default_p2p_port connect)
        (network_addr peer)) ∧
      ∃ given : Fin connect.length → SocketAddr, Function.Injective (network_addr ∘ given) ∧
        ∀ thread, given thread ∈ connect ∧
          Stores (run_table hasherInst loaded seeds default_p2p_port connect)
            (network_addr (given thread))) ↔
    connect.Pairwise fun peer other =>
      connect_place hasherInst peer ≠ connect_place hasherInst other := by
  by_cases hconnect : connect = []
  · subst hconnect
    exact iff_of_true ⟨by simp, ⟨fun thread => thread.elim0, fun thread => thread.elim0,
      fun thread => thread.elim0⟩⟩ List.Pairwise.nil
  · simp only [stores_iff hconnect]
    constructor
    · rintro ⟨hstored, given, hinjective, hgiven⟩
      have hnodup := nodup_of_injective hinjective.of_comp fun thread => (hgiven thread).1
      refine List.pairwise_map.mp (hnodup.map_on ?_)
      intro peer hpeer other hother hplace
      have hfirst := hstored peer hpeer
      rw [hplace, hstored other hother] at hfirst
      exact (Option.some.inj hfirst).symm
    · intro hplaces
      have hnodup : connect.Nodup := List.Nodup.of_map _ (List.pairwise_map.mpr hplaces)
      refine ⟨fun peer hpeer => find_eq_some_of_pairwise hpeer hplaces, connect.get,
        network_addr_injective.comp (List.nodup_iff_injective_get.mp hnodup), ?_⟩
      intro thread
      exact ⟨connect.get_mem thread, find_eq_some_of_pairwise (connect.get_mem thread) hplaces⟩

/-- Two hosts that belong in different cells. -/
def two_hosts : List SocketAddr :=
  [⟨.V4 (Ipv4Addr.new 10 0 0 1), 8333⟩, ⟨.V4 (Ipv4Addr.new 10 0 0 2), 8334⟩]

theorem connect_peers_kept_iff_two_hosts :
    parse_connect (some "10.0.0.1:8333,10.0.0.2:8334") = .ok two_hosts ∧
    ∀ peer ∈ two_hosts, Stores (run_table .sip .new [] 8333 two_hosts) (network_addr peer) := by
  have hparse : parse_connect (some "10.0.0.1:8333,10.0.0.2:8334") = .ok two_hosts := by decide
  have hplaces : two_hosts.Pairwise fun peer other =>
      connect_place .sip peer ≠ connect_place .sip other := by
    decide +kernel
  exact ⟨hparse, ((connect_peers_kept_iff .sip .new [] 8333 hparse).mpr hplaces).1⟩

/-- Of two ports of one host only the first is kept. -/
theorem connect_two_ports :
    parse_connect (some "127.0.0.1:18444,127.0.0.1:18445") =
      .ok [⟨.V4 ⟨[127, 0, 0, 1], rfl⟩, 18444⟩, ⟨.V4 ⟨[127, 0, 0, 1], rfl⟩, 18445⟩] ∧
    ¬Stores (run_table .sip .new [] 18444
      [⟨.V4 ⟨[127, 0, 0, 1], rfl⟩, 18444⟩, ⟨.V4 ⟨[127, 0, 0, 1], rfl⟩, 18445⟩])
      (network_addr ⟨.V4 ⟨[127, 0, 0, 1], rfl⟩, 18445⟩) := by
  refine ⟨by decide, ?_⟩
  rw [stores_iff (by simp), List.find?_cons_of_pos (by exact decide_eq_true rfl)]
  decide

end node
