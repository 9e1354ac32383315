import KernelNode.Collections.Float
import KernelNode.Collections.HashMap
import KernelNode.P2p.Handshake

open bitcoin std.collections std.time

namespace bitcoin

/-- `Transaction`, `WTx` or `WitnessTransaction`. -/
def Inventory.announces_transaction : Inventory → Bool
  | .Other inv_type _ => inv_type = 1 || inv_type = 5 || inv_type = 0x40000001
  | _ => false

/-- `Block`, `WitnessBlock` or `CompactBlock`. -/
def Inventory.announces_block : Inventory → Bool
  | .Block _ | .WitnessBlock _ => true
  | .Other inv_type _ => inv_type = 4

end bitcoin

namespace p2p

/-- How many messages of a kind have come, and since when. -/
inductive MessageRate where
  | NoneReceived
  /-- The count is a double with a whole number. -/
  | Ongoing (count : Nat) (start : Instant)
deriving DecidableEq

namespace MessageRate

def new : MessageRate := .NoneReceived

def add_messages (self : MessageRate) (num_messages : Nat) (now : Instant) : MessageRate :=
  if num_messages = 0 then self
  else
    -- every number of 32 bits is a double
    let num_messages := if num_messages < UInt32.size then num_messages else UInt32.size - 1
    match self with
    | .NoneReceived => .Ongoing num_messages now
    | .Ongoing count start => .Ongoing (round_bits (count + num_messages)) start

def add_single_message (self : MessageRate) (now : Instant) : MessageRate :=
  self.add_messages 1 now

/-- `count as u32`, which saturates. -/
def total_count : MessageRate → UInt32
  | .NoneReceived => 0
  | .Ongoing count _ => .ofNat (min count (UInt32.size - 1))

end MessageRate

inductive TimedMessage where
  | BlockHeaders
  | CFilters
  | Block
  | Addr
  | TransactionAnnouncement
deriving DecidableEq

structure TimedMessages where
  tracked : HashMap TimedMessage MessageRate
  last_block : Instant

namespace TimedMessages

def new (now : Instant) : TimedMessages where
  tracked := [.BlockHeaders, .CFilters, .Block, .Addr, .TransactionAnnouncement].foldl
    (fun map key => map.insert key .new) ∅
  last_block := now

variable (self : TimedMessages)

/-- A message that is not in the map is a panic. -/
def add_many (message : TimedMessage) (num_messages : Nat) (now : Instant) :
    Option TimedMessages :=
  (self.tracked.lookup message).map fun _ =>
    { self with tracked := self.tracked.modify message fun val =>
        val.add_messages num_messages now }

def add_single (message : TimedMessage) (now : Instant) : Option TimedMessages :=
  (self.tracked.lookup message).map fun _ =>
    { self with tracked := self.tracked.modify message fun val => val.add_single_message now }

def message_rate (message : TimedMessage) : Option MessageRate := self.tracked.lookup message

end TimedMessages

inductive OutboundPing where
  | Waiting (nonce : UInt64) (then_ : Instant)
  | LastReceived (then_ : Instant)
deriving DecidableEq

/-- What is known of a connection, shared by its threads. -/
structure ConnectionMetrics where
  feeler : FeelerData
  their_preferences : Preferences
  timed_messages : TimedMessages
  start_time : Instant
  outbound_ping_state : OutboundPing

namespace ConnectionMetrics

variable (self : ConnectionMetrics) (now : Instant) (timeout : Duration)

def ping_timed_out : Bool :=
  match self.outbound_ping_state with
  | .Waiting _ then_ => then_.elapsed now > timeout.as_nanos
  | .LastReceived _ => false

end ConnectionMetrics

namespace net

/-- One announcement of an `inv` message. -/
def note_inv (now : Instant) (lock : TimedMessages) (inv : Inventory) : Option TimedMessages := do
  let lock ← if inv.announces_transaction then lock.add_single .TransactionAnnouncement now
    else some lock
  return if inv.announces_block then { lock with last_block := now } else lock

/-- The counters after a message. The clock is read once, and again for the time
    of the last block. -/
def ConnectionReader.note_timed (lock : TimedMessages) (now later : Instant) :
    NetworkMessage → Option TimedMessages
  | .Block _ => lock.add_single .Block now
  | .Headers _ => do
    let lock ← lock.add_single .BlockHeaders now
    return { lock with last_block := later }
  | .Addr list => lock.add_many .Addr list.length now
  | .AddrV2 list => lock.add_many .Addr list.length now
  | .Inv payload => payload.foldlM (note_inv now) lock
  | .Other command _ =>
    if command = "cfilter" then lock.add_single .CFilters now else some lock
  | _ => some lock

def ConnectionReader.note_preferences (lock : Preferences) : NetworkMessage → Preferences
  | .SendHeaders => { lock with sendheaders := true }
  | .SendCmpct cmpct => { lock with sendcmpct := cmpct }
  | _ => lock

/-- Only the pong that is waited for counts. -/
def ConnectionReader.note_ping (lock : OutboundPing) (now : Instant) :
    NetworkMessage → OutboundPing
  | .Pong pong =>
    match lock with
    | .Waiting nonce _ => if pong = nonce then .LastReceived now else lock
    | .LastReceived _ => lock
  | _ => lock

/-- What `read_message` notes of a message. -/
def ConnectionReader.note (metrics : ConnectionMetrics) (now later : Instant)
    (message : NetworkMessage) : Option ConnectionMetrics :=
  (note_timed metrics.timed_messages now later message).map fun timed_messages =>
    { metrics with
      their_preferences := note_preferences metrics.their_preferences message
      timed_messages
      outbound_ping_state := note_ping metrics.outbound_ping_state now message }

end net

/-- The time of the first message, after so many more. -/
def begun (first : Option Instant) (num_messages : Nat) (now : Instant) : Option Instant :=
  first.or (if num_messages = 0 then none else some now)

theorem begun_begun (first : Option Instant) (num_messages more : Nat) (now : Instant) :
    begun (begun first num_messages now) more now = begun first (num_messages + more) now := by
  cases first with
  | some start => rfl
  | none => by_cases hzero : num_messages = 0 <;> simp [begun, hzero]

/-- What a count stands for: a number of messages since the first one. It is exact
    until it is more than 32 bits can say. -/
inductive MessageRate.Counts : MessageRate → Nat → Option Instant → Prop where
  | none : Counts .NoneReceived 0 none
  | exact {count : Nat} {start : Instant} (hpos : 0 < count) (hfits : count < 2 ^ 53) :
      Counts (.Ongoing count start) count (some start)
  | saturated {count total : Nat} {start : Instant} (hcount : UInt32.size - 1 ≤ count)
      (htotal : UInt32.size - 1 ≤ total) : Counts (.Ongoing count start) total (some start)

theorem round_bits_of_lt {value : Nat} (hlt : value < 2 ^ 53) : round_bits value = value := by
  have hlog : value.log2 - 52 = 0 := Nat.sub_eq_zero_of_le (log2_le_of_lt hlt)
  exact round_bits_of_dvd (by simp [hlog])

/-- Rounding keeps the leading bit. -/
theorem le_round_bits {value : Nat} (hle : 2 ^ 53 ≤ value) : 2 ^ 53 ≤ round_bits value := by
  have hne : value ≠ 0 := by
    rintro rfl
    exact absurd hle (by decide)
  have hlog : 53 ≤ value.log2 := (Nat.le_log2 hne).mpr hle
  have hpower : 2 ^ 52 * 2 ^ (value.log2 - 52) = 2 ^ value.log2 := by
    rw [← pow_add, show 52 + (value.log2 - 52) = value.log2 by omega]
  calc 2 ^ 53 ≤ 2 ^ value.log2 := Nat.pow_le_pow_right (by decide) hlog
    _ = 2 ^ 52 * 2 ^ (value.log2 - 52) := hpower.symm
    _ ≤ round_bits value := by
      refine Nat.mul_le_mul_right _ (le_nearest (Nat.two_pow_pos _) ?_)
      rw [hpower]
      exact Nat.log2_self_le hne

namespace MessageRate

variable {self : MessageRate} {total : Nat} {first : Option Instant}

theorem Counts.add_messages (hcounts : self.Counts total first) (num_messages : Nat)
    (now : Instant) :
    (self.add_messages num_messages now).Counts (total + num_messages)
      (begun first num_messages now) := by
  by_cases hzero : num_messages = 0
  · simpa [MessageRate.add_messages, begun, hzero] using hcounts
  simp only [MessageRate.add_messages, begun, hzero, if_false]
  have hsize : UInt32.size = 2 ^ 32 := rfl
  generalize hclamped : (if num_messages < UInt32.size then num_messages else UInt32.size - 1) =
    clamped
  have hcases : clamped = num_messages ∨
      clamped = UInt32.size - 1 ∧ UInt32.size - 1 ≤ num_messages := by
    split_ifs at hclamped <;> omega
  have hround : ∀ sum, sum < 2 ^ 53 ∧ round_bits sum = sum ∨
      2 ^ 53 ≤ sum ∧ 2 ^ 53 ≤ round_bits sum := fun sum =>
    (Nat.lt_or_ge sum (2 ^ 53)).imp (fun hlt => ⟨hlt, round_bits_of_lt hlt⟩)
      fun hge => ⟨hge, le_round_bits hge⟩
  cases hcounts with
  | none =>
    rw [Nat.zero_add]
    rcases hcases with rfl | ⟨rfl, hlarge⟩
    · by_cases hfits : clamped < 2 ^ 53
      · exact .exact (Nat.pos_of_ne_zero hzero) hfits
      · exact .saturated (by omega) (by omega)
    · exact .saturated le_rfl hlarge
  | @exact start hpos hfits =>
    dsimp only
    rcases hround (total + clamped) with ⟨hlt, hexact⟩ | ⟨hge, hlong⟩
    · rw [hexact]
      rcases hcases with rfl | ⟨rfl, hlarge⟩
      · exact .exact (by omega) hlt
      · exact .saturated (by omega) (by omega)
    · exact .saturated (by omega) (by omega)
  | @saturated count total start hcount htotal =>
    dsimp only
    rcases hround (count + clamped) with ⟨hlt, hexact⟩ | ⟨hge, hlong⟩
    · rw [hexact]
      exact .saturated (by omega) (by omega)
    · exact .saturated (by omega) (by omega)

theorem Counts.total_count (hcounts : self.Counts total first) :
    self.total_count.toNat = min total (UInt32.size - 1) := by
  have hsize : UInt32.size = 2 ^ 32 := rfl
  cases hcounts with
  | none => rfl
  | exact hpos hfits =>
    rw [MessageRate.total_count, UInt32.toNat_ofNat']
    omega
  | saturated hcount htotal =>
    rw [MessageRate.total_count, UInt32.toNat_ofNat']
    omega

theorem Counts.ongoing_iff (hcounts : self.Counts total first) {start : Instant} :
    (∃ count, self = .Ongoing count start) ↔ first = some start := by
  cases hcounts <;> simp

end MessageRate

/-- So many messages of one kind. -/
def TimedMessage.times (self : TimedMessage) (num_messages : Nat) (kind : TimedMessage) : Nat :=
  if kind = self then num_messages else 0

theorem TimedMessage.times_add (self : TimedMessage) (num_messages more : Nat)
    (kind : TimedMessage) :
    self.times (num_messages + more) kind = self.times num_messages kind + self.times more kind := by
  by_cases hkind : kind = self <;> simp [times, hkind]

namespace TimedMessages

/-- Every kind of message has a count, which stands for the given number. -/
def Tracks (self : TimedMessages) (total : TimedMessage → Nat)
    (first : TimedMessage → Option Instant) : Prop :=
  ∀ kind, ∃ rate, self.message_rate kind = some rate ∧ rate.Counts (total kind) (first kind)

theorem new_tracks (now : Instant) : (new now).Tracks (fun _ => 0) fun _ => none := by
  intro kind
  refine ⟨.NoneReceived, ?_, .none⟩
  cases kind <;> rfl

variable {self : TimedMessages} {total : TimedMessage → Nat}
    {first : TimedMessage → Option Instant}

theorem add_many_eq {message : TimedMessage} {rate : MessageRate}
    (hrate : self.message_rate message = some rate) (num_messages : Nat) (now : Instant) :
    self.add_many message num_messages now =
      some { self with
        tracked := self.tracked.modify message fun val => val.add_messages num_messages now } := by
  rw [message_rate] at hrate
  rw [TimedMessages.add_many, hrate, Option.map_some]

theorem Tracks.add_many (htracks : self.Tracks total first) (message : TimedMessage)
    (num_messages : Nat) (now : Instant) :
    ∃ next, self.add_many message num_messages now = some next ∧
      next.last_block = self.last_block ∧
      next.Tracks (fun kind => total kind + message.times num_messages kind)
        fun kind => begun (first kind) (message.times num_messages kind) now := by
  obtain ⟨rate, hrate, _⟩ := htracks message
  refine ⟨_, add_many_eq hrate num_messages now, rfl, fun kind => ?_⟩
  obtain ⟨rate, hrate, hcounts⟩ := htracks kind
  rw [message_rate] at hrate
  simp only [message_rate, HashMap.lookup_modify, hrate, TimedMessage.times]
  by_cases hkind : kind = message
  · simpa [hkind] using hkind ▸ hcounts.add_messages num_messages now
  · simpa [hkind, begun] using hcounts

/-- One announcement. -/
theorem Tracks.note_inv (htracks : self.Tracks total first) (now : Instant) (inv : Inventory) :
    ∃ next, net.note_inv now self inv = some next ∧
      next.last_block = (if inv.announces_block then now else self.last_block) ∧
      next.Tracks
        (fun kind => total kind + TimedMessage.TransactionAnnouncement.times
          (if inv.announces_transaction then 1 else 0) kind)
        fun kind => begun (first kind) (TimedMessage.TransactionAnnouncement.times
          (if inv.announces_transaction then 1 else 0) kind) now := by
  obtain ⟨added, hadded, hlast, hadded_tracks⟩ := htracks.add_many .TransactionAnnouncement 1 now
  cases htransaction : inv.announces_transaction with
  | true =>
    refine ⟨if inv.announces_block then { added with last_block := now } else added, ?_, ?_, ?_⟩
    · simp only [net.note_inv, htransaction, if_true]
      rw [show self.add_single .TransactionAnnouncement now = some added from hadded]
      rfl
    · split <;> simp_all
    · split <;> exact hadded_tracks
  | false =>
    refine ⟨if inv.announces_block then { self with last_block := now } else self, ?_, ?_, ?_⟩
    · simp [net.note_inv, htransaction]
    · split <;> rfl
    · have hsame : self.Tracks
          (fun kind => total kind + TimedMessage.TransactionAnnouncement.times 0 kind)
          fun kind => begun (first kind)
            (TimedMessage.TransactionAnnouncement.times 0 kind) now := by
        simpa [TimedMessage.times, begun] using htracks
      split <;> exact hsame

/-- The announcements of a message, one by one. -/
theorem Tracks.note_invs (htracks : self.Tracks total first) (payload : List Inventory)
    (now : Instant) :
    ∃ next, payload.foldlM (net.note_inv now) self = some next ∧
      next.last_block = (if payload.any Inventory.announces_block then now
        else self.last_block) ∧
      next.Tracks
        (fun kind => total kind + TimedMessage.TransactionAnnouncement.times
          (payload.countP Inventory.announces_transaction) kind)
        fun kind => begun (first kind) (TimedMessage.TransactionAnnouncement.times
          (payload.countP Inventory.announces_transaction) kind) now := by
  induction payload generalizing self total first with
  | nil => exact ⟨self, rfl, rfl, by simpa [TimedMessage.times, begun] using htracks⟩
  | cons inv payload ih =>
    obtain ⟨middle, hmiddle, hmiddle_last, hmiddle_tracks⟩ := htracks.note_inv now inv
    obtain ⟨next, hnext, hlast, hnext_tracks⟩ := ih hmiddle_tracks
    refine ⟨next, ?_, ?_, ?_⟩
    · rw [List.foldlM_cons, hmiddle]
      exact hnext
    · rw [hlast, hmiddle_last]
      cases hblock : inv.announces_block <;> simp [hblock]
    · have hcount : (inv :: payload).countP Inventory.announces_transaction =
          (if inv.announces_transaction then 1 else 0) +
            payload.countP Inventory.announces_transaction := by
        rw [List.countP_cons, Nat.add_comm]
      simp only [begun_begun, Nat.add_assoc, ← TimedMessage.times_add] at hnext_tracks
      rwa [hcount]

end TimedMessages

/-- A message that was read, and the times at which the clock was. -/
structure ReadMessage where
  message : NetworkMessage
  now : Instant
  later : Instant

namespace ReadMessage

variable (self : ReadMessage)

/-- How many messages of a kind it counts for. -/
def counts (kind : TimedMessage) : Nat :=
  match self.message with
  | .Block _ => TimedMessage.Block.times 1 kind
  | .Headers _ => TimedMessage.BlockHeaders.times 1 kind
  | .Addr list => TimedMessage.Addr.times list.length kind
  | .AddrV2 list => TimedMessage.Addr.times list.length kind
  | .Inv payload => TimedMessage.TransactionAnnouncement.times
      (payload.countP Inventory.announces_transaction) kind
  | .Other command _ => if command = "cfilter" then TimedMessage.CFilters.times 1 kind else 0
  | _ => 0

/-- When the message tells of a block. -/
def block_news : Option Instant :=
  match self.message with
  | .Headers _ => some self.later
  | .Inv payload => if payload.any Inventory.announces_block then some self.now else none
  | _ => none

def note (lock : TimedMessages) : Option TimedMessages :=
  net.ConnectionReader.note_timed lock self.now self.later self.message

end ReadMessage

theorem TimedMessages.Tracks.note {self : TimedMessages} {total : TimedMessage → Nat}
    {first : TimedMessage → Option Instant} (htracks : self.Tracks total first)
    (read : ReadMessage) :
    ∃ next, read.note self = some next ∧
      next.last_block = read.block_news.getD self.last_block ∧
      next.Tracks (fun kind => total kind + read.counts kind)
        fun kind => begun (first kind) (read.counts kind) read.now := by
  obtain ⟨message, now, later⟩ := read
  have hnothing : self.Tracks (fun kind => total kind + 0)
      fun kind => begun (first kind) 0 now := by
    simpa [begun] using htracks
  cases message with
  | Block => exact htracks.add_many .Block 1 now
  | Headers =>
    obtain ⟨next, hnext, _, htracks⟩ := htracks.add_many .BlockHeaders 1 now
    refine ⟨{ next with last_block := later }, ?_, rfl, htracks⟩
    simp only [ReadMessage.note, net.ConnectionReader.note_timed]
    rw [show self.add_single .BlockHeaders now = some next from hnext]
    rfl
  | Addr list => exact htracks.add_many .Addr list.length now
  | AddrV2 list => exact htracks.add_many .Addr list.length now
  | Inv payload =>
    obtain ⟨next, hnext, hlast, htracks⟩ := htracks.note_invs payload now
    refine ⟨next, hnext, ?_, htracks⟩
    rw [hlast]
    simp only [ReadMessage.block_news]
    split <;> rfl
  | Other command payload =>
    simp only [ReadMessage.note, net.ConnectionReader.note_timed, ReadMessage.counts]
    split_ifs
    · exact htracks.add_many .CFilters 1 now
    · exact ⟨self, rfl, rfl, hnothing⟩
  | _ => exact ⟨self, rfl, rfl, hnothing⟩

theorem TimedMessages.Tracks.note_all {self : TimedMessages} {total : TimedMessage → Nat}
    {first : TimedMessage → Option Instant} (htracks : self.Tracks total first)
    (history : List ReadMessage) :
    ∃ next, history.foldlM (fun lock read => read.note lock) self = some next ∧
      next.last_block = ((history.filterMap ReadMessage.block_news).getLast?).getD
        self.last_block ∧
      next.Tracks (fun kind => total kind + (history.map fun read => read.counts kind).sum)
        fun kind => (first kind).or
          ((history.find? fun read => read.counts kind ≠ 0).map ReadMessage.now) := by
  induction history generalizing self total first with
  | nil => exact ⟨self, rfl, rfl, by simpa using htracks⟩
  | cons read history ih =>
    obtain ⟨middle, hmiddle, hmiddle_last, hmiddle_tracks⟩ := htracks.note read
    obtain ⟨next, hnext, hlast, hnext_tracks⟩ := ih hmiddle_tracks
    refine ⟨next, ?_, ?_, ?_⟩
    · rw [List.foldlM_cons, hmiddle]
      exact hnext
    · rw [hlast, hmiddle_last, List.filterMap_cons]
      cases read.block_news with
      | none => rfl
      | some news => rw [List.getLast?_cons, Option.getD_some, Option.getD_some]
    · simp only [List.map_cons, List.sum_cons, ← Nat.add_assoc]
      convert hnext_tracks using 2 with kind
      rw [begun, Option.or_assoc, List.find?_cons]
      by_cases hzero : read.counts kind = 0 <;> simp [hzero]

/-- The counters are exact, although they count in doubles: after any messages
    each kind has a count, which is the number of its messages up to the largest
    one of 32 bits, since the first of them, and the last block is the last news of
    one. -/
theorem counts_exact (opened : Instant) (history : List ReadMessage) :
    ∃ timed, history.foldlM (fun lock read => read.note lock) (.new opened) = some timed ∧
      timed.last_block = ((history.filterMap ReadMessage.block_news).getLast?).getD opened ∧
      ∀ kind, ∃ rate, timed.message_rate kind = some rate ∧
        rate.total_count.toNat =
          min (history.map fun read => read.counts kind).sum (UInt32.size - 1) ∧
        ∀ start, (∃ count, rate = .Ongoing count start) ↔
          (history.find? fun read => read.counts kind ≠ 0).map ReadMessage.now = some start := by
  obtain ⟨timed, htimed, hlast, htracks⟩ := (TimedMessages.new_tracks opened).note_all history
  refine ⟨timed, htimed, hlast, fun kind => ?_⟩
  obtain ⟨rate, hrate, hcounts⟩ := htracks kind
  simp only [Nat.zero_add, Option.none_or] at hcounts
  exact ⟨rate, hrate, hcounts.total_count, fun start => hcounts.ongoing_iff⟩

end p2p
