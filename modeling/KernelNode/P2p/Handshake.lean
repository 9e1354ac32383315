import Mathlib.Data.List.Induction
import KernelNode.Bitcoin.Message
import KernelNode.Collections.System

open bitcoin std.time

namespace p2p

/-- The lowest common version, and what the peer reports of itself. -/
structure FeelerData where
  effective_version : UInt32
  services : ServiceFlags
  net_time_difference : Int64
  reported_height : Int32
  nonce : UInt64
deriving DecidableEq

structure Preferences where
  sendheaders : Bool
  sendaddrv2 : Bool
  sendcmpct : SendCmpct
  sendwtxid : Bool
deriving DecidableEq

def Preferences.new : Preferences where
  sendheaders := false
  sendaddrv2 := false
  sendcmpct := ⟨false, 0⟩
  sendwtxid := false

end p2p

namespace p2p.handshake

def WTXID_RELAY_VERSION : UInt32 := 70016
def SENDHEADERS_VERSION : UInt32 := 70012
def MIN_PEER_PROTO_VERSION : UInt32 := 31800

/-- The address `127.0.0.1:1`, mapped to IPv6. -/
def useless_address : Address where
  services := .NONE
  address := ⟨[0, 0, 0, 0, 0, 0xffff, 0x7f00, 1], rfl⟩
  port := 1

structure ConnectionConfig where
  our_version : UInt32
  our_services : ServiceFlags
  expected_version : UInt32
  expected_services : ServiceFlags
  send_cmpct : SendCmpct
  user_agent : String
  our_height : Int32
  fee_filter : Int64
  request_addr : Bool

def ConnectionConfig.new : ConnectionConfig where
  our_version := WTXID_RELAY_VERSION
  our_services := .NONE
  expected_version := WTXID_RELAY_VERSION
  expected_services := .NONE
  send_cmpct := ⟨false, 0⟩
  user_agent := "/bitcoin-p2p:0.1.0/"
  our_height := 0
  fee_filter := 0
  request_addr := false

structure InitializedHandshake where
  feeler : FeelerData
  their_preferences : Preferences
  fee_filter : Int64
  send_cmpct : SendCmpct
  request_addr : Bool

structure CompletedHandshake where
  feeler : FeelerData
  their_preferences : Preferences
deriving DecidableEq

inductive Error where
  | IrrelevantMessage (command : String)
  | ConnectionToSelf
  | TooLowVersion (version : UInt32)
  | MissingService (services : ServiceFlags)
deriving DecidableEq

/-- The messages that announce what we support, for the version in effect. -/
def suggested_messages (effective_version : UInt32) : List NetworkMessage :=
  (if effective_version ≥ WTXID_RELAY_VERSION then [.WtxidRelay] else []) ++
    (if effective_version ≥ 70016 then [.SendAddrV2] else []) ++
    if effective_version ≥ SENDHEADERS_VERSION then [.SendHeaders] else []

namespace ConnectionConfig

variable (self : ConnectionConfig)

def build_our_version (unix_time : Duration) (nonce : UInt64) : VersionMessage where
  version := self.our_version
  services := self.our_services
  timestamp := .ofBitVec unix_time.as_secs.toBitVec
  receiver := useless_address
  sender := useless_address
  nonce
  user_agent := self.user_agent
  start_height := self.our_height
  relay := false

/-- The handshake after the peer's version message. The difference of the clocks
    wraps around. -/
def after_version (unix_time : Duration) (version : VersionMessage) (nonce : UInt64) :
    InitializedHandshake where
  feeler := {
    effective_version := min self.our_version version.version
    services := version.services
    net_time_difference := unix_time.as_secs_f64_as_i64 - version.timestamp
    reported_height := version.start_height
    nonce }
  their_preferences := .new
  send_cmpct := self.send_cmpct
  fee_filter := self.fee_filter
  request_addr := self.request_addr

/-- The first message of the peer. -/
def start_handshake (unix_time : Duration) (network_message : NetworkMessage) (nonce : UInt64) :
    Except Error (InitializedHandshake × List NetworkMessage) :=
  match network_message with
  | .Version version =>
    if version.nonce = nonce then .error .ConnectionToSelf
    else if version.version < self.expected_version ∨
        version.version < MIN_PEER_PROTO_VERSION then .error (.TooLowVersion version.version)
    else if !version.services.has self.expected_services then
      .error (.MissingService version.services)
    else
      .ok (self.after_version unix_time version nonce,
        suggested_messages (min self.our_version version.version))
  | e => .error (.IrrelevantMessage e.command)

end ConnectionConfig

/-- A later message of the peer: an error, the end of the handshake with the
    messages to send, or the handshake with one more preference. -/
def InitializedHandshake.negotiate (self : InitializedHandshake) (message : NetworkMessage) :
    Except Error (Option (CompletedHandshake × List NetworkMessage)) × InitializedHandshake :=
  match message with
  | .Verack =>
    let messages := [.Verack, .SendCmpct self.send_cmpct, .FeeFilter self.fee_filter] ++
      if self.request_addr then [.GetAddr] else []
    (.ok (some ({ feeler := self.feeler, their_preferences := self.their_preferences }, messages)),
      self)
  | .WtxidRelay =>
    (.ok none, { self with their_preferences := { self.their_preferences with sendwtxid := true } })
  | .SendAddrV2 =>
    (.ok none,
      { self with their_preferences := { self.their_preferences with sendaddrv2 := true } })
  | .SendCmpct cmpct =>
    (.ok none,
      { self with their_preferences := { self.their_preferences with sendcmpct := cmpct } })
  | .SendHeaders =>
    (.ok none,
      { self with their_preferences := { self.their_preferences with sendheaders := true } })
  | e => (.error (.IrrelevantMessage e.command), self)

/-- A version message that is not our own, of a peer that is recent enough and
    offers enough. -/
def ConnectionConfig.Accepts (self : ConnectionConfig) (nonce : UInt64) (version : VersionMessage) :
    Prop :=
  version.nonce ≠ nonce ∧ self.expected_version ≤ version.version ∧
    MIN_PEER_PROTO_VERSION ≤ version.version ∧ version.services.has self.expected_services

instance (self : ConnectionConfig) (nonce : UInt64) (version : VersionMessage) :
    Decidable (self.Accepts nonce version) :=
  inferInstanceAs (Decidable (_ ∧ _ ∧ _ ∧ _))

def is_feature : NetworkMessage → Bool
  | .WtxidRelay | .SendAddrV2 | .SendCmpct _ | .SendHeaders => true
  | _ => false

/-- What a peer sends in a complete handshake. -/
def ConnectionConfig.Word (self : ConnectionConfig) (nonce : UInt64)
    (messages : List NetworkMessage) : Prop :=
  ∃ version features, messages = .Version version :: (features ++ [.Verack]) ∧
    self.Accepts nonce version ∧ ∀ feature ∈ features, is_feature feature

/-- The compact block preference that a message announces. -/
def announced_cmpct : NetworkMessage → Option SendCmpct
  | .SendCmpct cmpct => some cmpct
  | _ => none

/-- What a list of feature messages says. -/
def announced_preferences (features : List NetworkMessage) : Preferences where
  sendheaders := .SendHeaders ∈ features
  sendaddrv2 := .SendAddrV2 ∈ features
  sendcmpct := (features.filterMap announced_cmpct).getLast?.getD Preferences.new.sendcmpct
  sendwtxid := .WtxidRelay ∈ features

/-- The preferences after one more feature message. -/
def note (preferences : Preferences) : NetworkMessage → Preferences
  | .WtxidRelay => { preferences with sendwtxid := true }
  | .SendAddrV2 => { preferences with sendaddrv2 := true }
  | .SendCmpct cmpct => { preferences with sendcmpct := cmpct }
  | .SendHeaders => { preferences with sendheaders := true }
  | _ => preferences

theorem foldl_note (features : List NetworkMessage) :
    features.foldl note .new = announced_preferences features := by
  induction features using List.reverseRecOn with
  | nil => rfl
  | append_singleton features feature ih =>
    rw [List.foldl_append, ih]
    cases feature <;> simp [note, announced_preferences, announced_cmpct]

theorem InitializedHandshake.negotiate_feature (self : InitializedHandshake)
    {message : NetworkMessage} (hfeature : is_feature message) :
    self.negotiate message =
      (.ok none, { self with their_preferences := note self.their_preferences message }) := by
  cases message <;> first | rfl | cases hfeature

theorem InitializedHandshake.negotiate_irrelevant (self : InitializedHandshake)
    {message : NetworkMessage} (hfeature : is_feature message = false)
    (hverack : message ≠ .Verack) :
    self.negotiate message = (.error (.IrrelevantMessage message.command), self) := by
  cases message <;> first | rfl | exact absurd rfl hverack | cases hfeature

theorem ConnectionConfig.start_handshake_accepts {self : ConnectionConfig} {nonce : UInt64}
    {version : VersionMessage} (haccepts : self.Accepts nonce version) (unix_time : Duration) :
    self.start_handshake unix_time (.Version version) nonce =
      .ok (self.after_version unix_time version nonce,
        suggested_messages (min self.our_version version.version)) := by
  obtain ⟨hnonce, hexpected, hminimum, hservices⟩ := haccepts
  rw [start_handshake, if_neg hnonce,
    if_neg (by simp [UInt32.not_lt.mpr hexpected, UInt32.not_lt.mpr hminimum]),
    if_neg (by simp [hservices])]

/-- Every other first message ends the handshake. -/
theorem ConnectionConfig.start_handshake_refuses {self : ConnectionConfig} {nonce : UInt64}
    {message : NetworkMessage}
    (hrefused : ∀ version, message = .Version version → ¬self.Accepts nonce version)
    (unix_time : Duration) :
    ∃ e, self.start_handshake unix_time message nonce = .error e := by
  cases message with
  | Version version =>
    simp only [start_handshake]
    split_ifs with hnonce hversion hservices
    · exact ⟨_, rfl⟩
    · exact ⟨_, rfl⟩
    · exact ⟨_, rfl⟩
    · rw [not_or, UInt32.not_lt, UInt32.not_lt] at hversion
      exact absurd ⟨hnonce, hversion.1, hversion.2, by simpa using hservices⟩
        (hrefused version rfl)
  | _ => exact ⟨_, rfl⟩

end p2p.handshake

namespace p2p.net

open p2p.handshake

inductive Outcome where
  | Completed (handshake : CompletedHandshake)
  | Failed (e : Error)
  /-- The peer has sent nothing wrong and not everything. -/
  | Waiting
deriving DecidableEq

/-- How a handshake has gone: what has been sent, and the messages of the peer
    that have not been read. -/
structure Transcript where
  outcome : Outcome
  sent : List NetworkMessage
  unread : List NetworkMessage

/-- The loop of `handshake`, after the given messages have been sent. -/
def negotiate_loop (handshake : InitializedHandshake) (sent : List NetworkMessage) :
    List NetworkMessage → Transcript
  | [] => ⟨.Waiting, sent, []⟩
  | message :: messages =>
    match handshake.negotiate message with
    | (.error e, _) => ⟨.Failed e, sent, messages⟩
    | (.ok (some (completed_handshake, responses)), _) =>
      ⟨.Completed completed_handshake, sent ++ responses, messages⟩
    | (.ok none, handshake) => negotiate_loop handshake sent messages

/-- The handshake with a peer that sends the given messages. -/
def handshake (self : ConnectionConfig) (unix_time : Duration) (nonce : UInt64)
    (messages : List NetworkMessage) : Transcript :=
  let version := .Version (self.build_our_version unix_time nonce)
  match messages with
  | [] => ⟨.Waiting, [version], []⟩
  | message :: messages =>
    match self.start_handshake unix_time message nonce with
    | .error e => ⟨.Failed e, [version], messages⟩
    | .ok (handshake, suggested) => negotiate_loop handshake ([version] ++ suggested) messages

/-- The messages that end the handshake. -/
def responses (handshake : InitializedHandshake) : List NetworkMessage :=
  [.Verack, .SendCmpct handshake.send_cmpct, .FeeFilter handshake.fee_filter] ++
    if handshake.request_addr then [.GetAddr] else []

/-- Feature messages are noted and answered by nothing. -/
theorem negotiate_loop_features {features : List NetworkMessage}
    (hfeatures : ∀ feature ∈ features, is_feature feature) (handshake : InitializedHandshake)
    (sent rest : List NetworkMessage) :
    negotiate_loop handshake sent (features ++ rest) =
      negotiate_loop { handshake with
        their_preferences := features.foldl note handshake.their_preferences } sent rest := by
  induction features generalizing handshake with
  | nil => rfl
  | cons feature features ih =>
    rw [List.forall_mem_cons] at hfeatures
    rw [List.cons_append, negotiate_loop, handshake.negotiate_feature hfeatures.1]
    exact ih hfeatures.2 _

theorem split_features (messages : List NetworkMessage) :
    (∀ feature ∈ messages, is_feature feature) ∨
      ∃ features message rest, messages = features ++ message :: rest ∧
        (∀ feature ∈ features, is_feature feature) ∧ is_feature message = false := by
  induction messages with
  | nil => exact .inl (by simp)
  | cons message messages ih =>
    cases hfeature : is_feature message with
    | false => exact .inr ⟨[], message, messages, rfl, by simp, hfeature⟩
    | true =>
      obtain hall | ⟨features, other, rest, rfl, hfeatures, hother⟩ := ih
      · exact .inl (List.forall_mem_cons.mpr ⟨hfeature, hall⟩)
      · exact .inr ⟨message :: features, other, rest, rfl,
          List.forall_mem_cons.mpr ⟨hfeature, hfeatures⟩, hother⟩

section

variable (self : ConnectionConfig) (unix_time : Duration) (nonce : UInt64)

theorem handshake_refused {message : NetworkMessage}
    (hrefused : ∀ version, message = .Version version → ¬self.Accepts nonce version)
    (rest : List NetworkMessage) :
    ∃ e, handshake self unix_time nonce (message :: rest) =
      ⟨.Failed e, [.Version (self.build_our_version unix_time nonce)], rest⟩ := by
  obtain ⟨e, herror⟩ := ConnectionConfig.start_handshake_refuses hrefused unix_time
  exact ⟨e, by rw [handshake, herror]⟩

variable {self nonce} {version : VersionMessage} (haccepts : self.Accepts nonce version)
    {features : List NetworkMessage} (hfeatures : ∀ feature ∈ features, is_feature feature)

include haccepts hfeatures

/-- After an accepted version and feature messages. -/
theorem handshake_features (rest : List NetworkMessage) :
    handshake self unix_time nonce (.Version version :: (features ++ rest)) =
      negotiate_loop { self.after_version unix_time version nonce with
          their_preferences := announced_preferences features }
        (.Version (self.build_our_version unix_time nonce) ::
          suggested_messages (min self.our_version version.version)) rest := by
  rw [handshake, ConnectionConfig.start_handshake_accepts haccepts, ← foldl_note]
  exact negotiate_loop_features hfeatures _ _ _

theorem handshake_waiting :
    (handshake self unix_time nonce (.Version version :: features)).outcome = .Waiting := by
  have hloop := handshake_features unix_time haccepts hfeatures []
  rw [List.append_nil] at hloop
  rw [hloop, negotiate_loop]

theorem handshake_irrelevant {message : NetworkMessage} (hmessage : is_feature message = false)
    (hverack : message ≠ .Verack) (rest : List NetworkMessage) :
    (handshake self unix_time nonce (.Version version :: (features ++ message :: rest))).outcome =
        .Failed (.IrrelevantMessage message.command) ∧
      (handshake self unix_time nonce (.Version version :: (features ++ message :: rest))).unread =
        rest := by
  rw [handshake_features unix_time haccepts hfeatures, negotiate_loop,
    InitializedHandshake.negotiate_irrelevant _ hmessage hverack]
  exact ⟨rfl, rfl⟩

theorem handshake_verack (rest : List NetworkMessage) :
    handshake self unix_time nonce (.Version version :: (features ++ .Verack :: rest)) =
      ⟨.Completed ⟨(self.after_version unix_time version nonce).feeler,
          announced_preferences features⟩,
        .Version (self.build_our_version unix_time nonce) ::
            suggested_messages (min self.our_version version.version) ++
          responses (self.after_version unix_time version nonce), rest⟩ := by
  rw [handshake_features unix_time haccepts hfeatures]
  rfl

end

/-- How the messages of a peer can go on. -/
inductive Course (self : ConnectionConfig) (nonce : UInt64) : List NetworkMessage → Prop where
  | silent : Course self nonce []
  | refused {message : NetworkMessage}
      (hrefused : ∀ version, message = .Version version → ¬self.Accepts nonce version)
      (rest : List NetworkMessage) : Course self nonce (message :: rest)
  | unfinished {version : VersionMessage} (haccepts : self.Accepts nonce version)
      {features : List NetworkMessage} (hfeatures : ∀ feature ∈ features, is_feature feature) :
      Course self nonce (.Version version :: features)
  | verack {version : VersionMessage} (haccepts : self.Accepts nonce version)
      {features : List NetworkMessage} (hfeatures : ∀ feature ∈ features, is_feature feature)
      (rest : List NetworkMessage) :
      Course self nonce (.Version version :: (features ++ .Verack :: rest))
  | irrelevant {version : VersionMessage} (haccepts : self.Accepts nonce version)
      {features : List NetworkMessage} (hfeatures : ∀ feature ∈ features, is_feature feature)
      {message : NetworkMessage} (hmessage : is_feature message = false)
      (hverack : message ≠ .Verack) (rest : List NetworkMessage) :
      Course self nonce (.Version version :: (features ++ message :: rest))

theorem course (self : ConnectionConfig) (nonce : UInt64) (messages : List NetworkMessage) :
    Course self nonce messages := by
  rcases messages with _ | ⟨message, messages⟩
  · exact .silent
  · by_cases haccepted : ∃ version, message = .Version version ∧ self.Accepts nonce version
    · obtain ⟨version, rfl, haccepts⟩ := haccepted
      obtain hall | ⟨features, message, rest, rfl, hfeatures, hmessage⟩ := split_features messages
      · exact .unfinished haccepts hall
      · by_cases hverack : message = .Verack
        · subst hverack
          exact .verack haccepts hfeatures rest
        · exact .irrelevant haccepts hfeatures hmessage hverack rest
    · exact .refused (fun version hversion haccepts =>
        haccepted ⟨version, hversion, haccepts⟩) messages

/-- Some version message is accepted. -/
theorem exists_accepts (self : ConnectionConfig) (nonce : UInt64) :
    ∃ version, self.Accepts nonce version := by
  have hminimum : MIN_PEER_PROTO_VERSION ≤ 0xffffffff := by decide
  refine ⟨⟨0xffffffff, self.expected_services, 0, useless_address, useless_address, nonce + 1, "",
    0, false⟩, ?_, UInt32.le_iff_toNat_le.mpr ?_, hminimum, ?_⟩
  · simp
  · have := self.expected_version.toNat_lt
    simp
    omega
  · simp [ServiceFlags.has]

/-- The proper beginnings of words: nothing, or an accepted version and features. -/
theorem word_append_iff {self : ConnectionConfig} {nonce : UInt64} {before : List NetworkMessage} :
    (∃ tail, tail ≠ [] ∧ self.Word nonce (before ++ tail)) ↔
      before = [] ∨ ∃ version features, before = .Version version :: features ∧
        self.Accepts nonce version ∧ ∀ feature ∈ features, is_feature feature := by
  constructor
  · rintro ⟨tail, htail, version, features, hword, haccepts, hfeatures⟩
    obtain ⟨tail, last, rfl⟩ := List.eq_nil_or_concat tail |>.resolve_left htail
    rcases before with _ | ⟨first, before⟩
    · exact .inl rfl
    · rw [List.cons_append, List.cons.injEq, List.concat_eq_append, ← List.append_assoc] at hword
      obtain ⟨rfl, hword⟩ := hword
      obtain ⟨rfl, -⟩ := List.append_inj' hword rfl
      exact .inr ⟨version, before, rfl, haccepts, fun feature hfeature =>
        hfeatures feature (List.mem_append_left _ hfeature)⟩
  · rintro (rfl | ⟨version, features, rfl, haccepts, hfeatures⟩)
    · obtain ⟨version, haccepts⟩ := exists_accepts self nonce
      exact ⟨[.Version version, .Verack], by simp, version, [], rfl, haccepts, by simp⟩
    · exact ⟨[.Verack], by simp, version, features, rfl, haccepts, hfeatures⟩

theorem word_first_iff {self : ConnectionConfig} {nonce : UInt64} {message : NetworkMessage} :
    (∃ tail, self.Word nonce (message :: tail)) ↔
      ∃ version, message = .Version version ∧ self.Accepts nonce version := by
  constructor
  · rintro ⟨tail, version, features, hword, haccepts, _⟩
    exact ⟨version, (List.cons.inj hword).1, haccepts⟩
  · rintro ⟨version, rfl, haccepts⟩
    exact ⟨[.Verack], version, [], rfl, haccepts, by simp⟩

theorem word_next_iff {self : ConnectionConfig} {nonce : UInt64} {version : VersionMessage}
    (haccepts : self.Accepts nonce version) {features : List NetworkMessage}
    (hfeatures : ∀ feature ∈ features, is_feature feature) {message : NetworkMessage} :
    (∃ tail, self.Word nonce (.Version version :: (features ++ message :: tail))) ↔
      is_feature message ∨ message = .Verack := by
  constructor
  · rintro ⟨tail, _, others, hword, _, hothers⟩
    have hmem : message ∈ others ++ [.Verack] := by
      rw [← (List.cons.inj hword).2]
      simp
    exact (List.mem_append.mp hmem).imp (hothers message) List.mem_singleton.mp
  · rintro (hfeature | rfl)
    · refine ⟨[.Verack], version, features ++ [message], by simp, haccepts, ?_⟩
      simpa [or_imp, forall_and] using ⟨hfeatures, hfeature⟩
    · exact ⟨[], version, features, rfl, haccepts, hfeatures⟩

/-- A handshake completes exactly where the messages begin with a word. -/
theorem completed_iff (self : ConnectionConfig) (unix_time : Duration) (nonce : UInt64)
    (messages : List NetworkMessage) :
    (∃ completed, (handshake self unix_time nonce messages).outcome = .Completed completed) ↔
      ∃ word rest, messages = word ++ rest ∧ self.Word nonce word := by
  constructor
  · rintro ⟨completed, houtcome⟩
    cases course self nonce messages with
    | silent => cases houtcome
    | refused hrefused rest =>
      obtain ⟨e, hfailed⟩ := handshake_refused self unix_time nonce hrefused rest
      rw [hfailed] at houtcome
      cases houtcome
    | unfinished haccepts hfeatures =>
      rw [handshake_waiting unix_time haccepts hfeatures] at houtcome
      cases houtcome
    | @verack version haccepts features hfeatures rest =>
      exact ⟨.Version version :: (features ++ [.Verack]), rest, by simp, version, features, rfl,
        haccepts, hfeatures⟩
    | irrelevant haccepts hfeatures hmessage hverack rest =>
      rw [(handshake_irrelevant unix_time haccepts hfeatures hmessage hverack rest).1] at houtcome
      cases houtcome
  · rintro ⟨_, rest, rfl, version, features, rfl, haccepts, hfeatures⟩
    rw [List.cons_append, List.append_assoc, List.singleton_append,
      handshake_verack unix_time haccepts hfeatures]
    exact ⟨_, rfl⟩

/-- A handshake fails exactly at the first message that no word goes on with. -/
theorem failed_iff (self : ConnectionConfig) (unix_time : Duration) (nonce : UInt64)
    (messages rest : List NetworkMessage) :
    (∃ e, (handshake self unix_time nonce messages).outcome = .Failed e ∧
        (handshake self unix_time nonce messages).unread = rest) ↔
      ∃ before message, messages = before ++ message :: rest ∧
        (∃ tail, tail ≠ [] ∧ self.Word nonce (before ++ tail)) ∧
        ¬∃ tail, self.Word nonce (before ++ message :: tail) := by
  constructor
  · rintro ⟨e, houtcome, rfl⟩
    cases course self nonce messages with
    | silent => cases houtcome
    | @refused message hrefused rest =>
      obtain ⟨e, hfailed⟩ := handshake_refused self unix_time nonce hrefused rest
      rw [hfailed]
      refine ⟨[], message, rfl, word_append_iff.mpr (.inl rfl), ?_⟩
      refine fun hword => ?_
      obtain ⟨version, hversion, haccepts⟩ := word_first_iff.mp hword
      exact hrefused version hversion haccepts
    | unfinished haccepts hfeatures =>
      rw [handshake_waiting unix_time haccepts hfeatures] at houtcome
      cases houtcome
    | verack haccepts hfeatures rest =>
      rw [handshake_verack unix_time haccepts hfeatures] at houtcome
      cases houtcome
    | @irrelevant version haccepts features hfeatures message hmessage hverack rest =>
      rw [(handshake_irrelevant unix_time haccepts hfeatures hmessage hverack rest).2]
      refine ⟨.Version version :: features, message, rfl,
        word_append_iff.mpr (.inr ⟨version, features, rfl, haccepts, hfeatures⟩), ?_⟩
      intro hword
      rcases (word_next_iff haccepts hfeatures).mp hword with hfeature | hlast
      · rw [hmessage] at hfeature
        cases hfeature
      · exact hverack hlast
  · rintro ⟨before, message, rfl, hviable, hdeparts⟩
    obtain rfl | ⟨version, features, rfl, haccepts, hfeatures⟩ := word_append_iff.mp hviable
    · have hrefused : ∀ version, message = .Version version → ¬self.Accepts nonce version :=
        fun version hversion haccepts =>
          hdeparts (word_first_iff.mpr ⟨version, hversion, haccepts⟩)
      obtain ⟨e, hfailed⟩ := handshake_refused self unix_time nonce hrefused rest
      exact ⟨e, by simp [hfailed]⟩
    · obtain ⟨hmessage, hverack⟩ :=
        not_or.mp (mt (word_next_iff haccepts hfeatures).mpr hdeparts)
      exact ⟨_, handshake_irrelevant unix_time haccepts hfeatures (by simpa using hmessage) hverack
        rest⟩

/-- The features are announced before the verack, or not at all. -/
theorem verack_last (our_version : NetworkMessage) (effective_version : UInt32)
    (handshake : InitializedHandshake) (hversion : our_version ≠ .Verack) :
    ∃ earlier later,
      our_version :: suggested_messages effective_version ++ responses handshake =
        earlier ++ .Verack :: later ∧
      .Verack ∉ earlier ∧ .Verack ∉ later ∧ .WtxidRelay ∉ later ∧ .SendAddrV2 ∉ later := by
  refine ⟨our_version :: suggested_messages effective_version, _, rfl, ?_, ?_, ?_, ?_⟩
  · simp only [suggested_messages, List.mem_cons, List.mem_append, Ne.symm hversion, false_or]
    split_ifs <;> simp
  all_goals cases handshake.request_addr <;> simp

/-- The handshake accepts the words of the grammar and nothing else, and what it
    has learned at the end is what the messages say. -/
theorem handshake_grammar (self : ConnectionConfig) (unix_time : Duration) (nonce : UInt64)
    (messages : List NetworkMessage) :
    ((∃ completed, (handshake self unix_time nonce messages).outcome = .Completed completed) ↔
      ∃ word rest, messages = word ++ rest ∧ self.Word nonce word) ∧
    (∀ rest, (∃ e, (handshake self unix_time nonce messages).outcome = .Failed e ∧
        (handshake self unix_time nonce messages).unread = rest) ↔
      ∃ before message, messages = before ++ message :: rest ∧
        (∃ tail, tail ≠ [] ∧ self.Word nonce (before ++ tail)) ∧
        ¬∃ tail, self.Word nonce (before ++ message :: tail)) ∧
    ∀ version features rest, messages = .Version version :: (features ++ .Verack :: rest) →
      self.Accepts nonce version → (∀ feature ∈ features, is_feature feature) →
      ∃ completed earlier later,
        (handshake self unix_time nonce messages).outcome = .Completed completed ∧
        (handshake self unix_time nonce messages).unread = rest ∧
        completed.feeler.effective_version = min self.our_version version.version ∧
        (completed.their_preferences.sendwtxid ↔ .WtxidRelay ∈ features) ∧
        (completed.their_preferences.sendaddrv2 ↔ .SendAddrV2 ∈ features) ∧
        (completed.their_preferences.sendheaders ↔ .SendHeaders ∈ features) ∧
        completed.their_preferences.sendcmpct =
          (features.filterMap announced_cmpct).getLast?.getD Preferences.new.sendcmpct ∧
        (handshake self unix_time nonce messages).sent = earlier ++ .Verack :: later ∧
        .Verack ∉ earlier ∧ .Verack ∉ later ∧ .WtxidRelay ∉ later ∧ .SendAddrV2 ∉ later := by
  refine ⟨completed_iff self unix_time nonce messages, failed_iff self unix_time nonce messages, ?_⟩
  rintro version features rest rfl haccepts hfeatures
  rw [handshake_verack unix_time haccepts hfeatures]
  obtain ⟨earlier, later, hsent⟩ := verack_last
    (.Version (self.build_our_version unix_time nonce)) (min self.our_version version.version)
    (self.after_version unix_time version nonce) nofun
  exact ⟨_, earlier, later, rfl, rfl, rfl, by simp [announced_preferences],
    by simp [announced_preferences], by simp [announced_preferences], rfl, hsent⟩

/-- A peer with the nonce 42. -/
def mock_version : VersionMessage where
  version := WTXID_RELAY_VERSION
  services := .NONE
  timestamp := 222222222
  receiver := useless_address
  sender := useless_address
  nonce := 42
  user_agent := "hello"
  start_height := 0
  relay := false

/-- The peer relays by wtxid and takes new addresses. -/
theorem handshake_grammar_mock :
    ∃ completed, (handshake .new (.from_secs 1700000000) 43
        [.Version mock_version, .WtxidRelay, .SendAddrV2, .Verack]).outcome =
      .Completed completed ∧ completed.their_preferences.sendwtxid := by
  obtain ⟨completed, _, _, houtcome, _, _, hwtxid, _⟩ :=
    (handshake_grammar .new (.from_secs 1700000000) 43
      [.Version mock_version, .WtxidRelay, .SendAddrV2, .Verack]).2.2 mock_version
      [.WtxidRelay, .SendAddrV2] [] rfl (by decide) (by decide)
  exact ⟨completed, houtcome, hwtxid.mpr (by simp)⟩

end p2p.net
