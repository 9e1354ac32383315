import Mathlib.Logic.Function.Basic
import KernelNode.P2p.Handshake
import KernelNode.Transition

open bitcoin p2p.handshake std.time transition

namespace p2p.net

/-- The two ends of a connection: one is in `open_connection`, the other in `listen`. -/
inductive Side where
  | opener
  | listener
deriving DecidableEq

def Side.other : Side → Side
  | .opener => .listener
  | .listener => .opener

/-- What an end goes into `handshake` with. -/
structure Party where
  config : ConnectionConfig
  unix_time : Duration
  nonce : UInt64

namespace Party

variable (self : Party)

/-- The handshake of an end that has read the messages. -/
def transcript (messages : List NetworkMessage) : Transcript :=
  handshake self.config self.unix_time self.nonce messages

def version : VersionMessage := self.config.build_our_version self.unix_time self.nonce

/-- Everything an end writes before a `verack` is read. -/
def opening (peer : Party) : List NetworkMessage :=
  .Version self.version :: suggested_messages (min self.config.our_version peer.version.version)

/-- The part of it that does not wait for more than has been read. -/
def said (peer : Party) (messages : List NetworkMessage) : List NetworkMessage :=
  if messages = [] then [.Version self.version] else self.opening peer

end Party

/-- What each end has read and written, and which ends have lost the connection. -/
structure Link where
  read : Side → List NetworkMessage
  written : Side → List NetworkMessage
  lost : Side → Bool

def Link.new : Link := ⟨fun _ => [], fun _ => [], fun _ => false⟩

inductive LinkAction where
  | write (side : Side) (message : NetworkMessage)
  | read (side : Side) (message : NetworkMessage)
  /-- A read or a write fails: a timeout, or the other end has closed. -/
  | lose (side : Side)

def LinkAction.is_lose : LinkAction → Bool
  | .lose _ => true
  | _ => false

/-- An end writes what its handshake has to say, message by message, before it reads
    on. It reads what the other end has written, in order. -/
inductive LinkStep (party : Side → Party) : Link → LinkAction → Link → Prop where
  | write {state : Link} (side : Side) {message : NetworkMessage}
      (hopen : state.lost side = false)
      (hnext : state.written side ++ [message] <+:
        ((party side).transcript (state.read side)).sent) :
      LinkStep party state (.write side message) { state with
        written := Function.update state.written side (state.written side ++ [message]) }
  | read {state : Link} (side : Side) {message : NetworkMessage} (hopen : state.lost side = false)
      (hwritten : state.written side = ((party side).transcript (state.read side)).sent)
      (hwaiting : ((party side).transcript (state.read side)).outcome = .Waiting)
      (harrived : state.read side ++ [message] <+: state.written side.other) :
      LinkStep party state (.read side message) { state with
        read := Function.update state.read side (state.read side ++ [message]) }
  | lose {state : Link} (side : Side) :
      LinkStep party state (.lose side) { state with
        lost := Function.update state.lost side true }

def link_system (party : Side → Party) : System Link LinkAction where
  init state := state = .new
  step := LinkStep party

section

variable {party : Side → Party} {state next : Link} {action : LinkAction}

theorem suggested_feature {effective_version : UInt32} {message : NetworkMessage}
    (hmessage : message ∈ suggested_messages effective_version) : is_feature message := by
  simp only [suggested_messages, List.mem_append] at hmessage
  rcases hmessage with (hmessage | hmessage) | hmessage
  all_goals
    split at hmessage
    · obtain rfl := List.mem_singleton.mp hmessage
      rfl
    · cases hmessage

/-- A `verack` is sent in answer to one only. -/
theorem Party.verack_answers (self : Party) {messages : List NetworkMessage}
    (hverack : .Verack ∈ (self.transcript messages).sent) : .Verack ∈ messages := by
  have hsuggested : ∀ effective_version, .Verack ∉ suggested_messages effective_version :=
    fun _ hmessage => Bool.false_ne_true (suggested_feature hmessage)
  rw [transcript] at hverack
  cases course self.config self.nonce messages with
  | silent => simp [handshake] at hverack
  | refused hrefused rest =>
    obtain ⟨e, hhandshake⟩ := handshake_refused self.config self.unix_time self.nonce hrefused rest
    simp [hhandshake] at hverack
  | unfinished haccepts hfeatures =>
    have hloop := handshake_features self.unix_time haccepts hfeatures []
    rw [List.append_nil] at hloop
    simp [hloop, negotiate_loop, hsuggested] at hverack
  | verack haccepts hfeatures rest => simp
  | irrelevant haccepts hfeatures hmessage hother rest =>
    rw [handshake_features self.unix_time haccepts hfeatures, negotiate_loop,
      InitializedHandshake.negotiate_irrelevant _ hmessage hother] at hverack
    simp [hsuggested] at hverack

/-- A handshake is completed by a `verack` only. -/
theorem Party.verack_completes (self : Party) {messages : List NetworkMessage}
    {completed : CompletedHandshake}
    (hcompleted : (self.transcript messages).outcome = .Completed completed) :
    .Verack ∈ messages := by
  rw [transcript] at hcompleted
  obtain ⟨_, rest, rfl, _, features, rfl, _⟩ :=
    (completed_iff self.config self.unix_time self.nonce messages).mp ⟨completed, hcompleted⟩
  simp

/-- An end that accepts the version of the other waits for more, and has more to say
    as soon as it has read the version. -/
theorem Party.transcript_opening {self peer : Party} {messages : List NetworkMessage}
    (haccepts : self.config.Accepts self.nonce peer.version)
    (hmessages : messages <+: peer.opening self) :
    (self.transcript messages).outcome = .Waiting ∧
      (self.transcript messages).sent = self.said peer messages := by
  cases messages with
  | nil => exact ⟨rfl, rfl⟩
  | cons message features =>
    obtain ⟨rfl, hfeatures⟩ := List.cons_prefix_cons.mp hmessages
    have hall : ∀ feature ∈ features, is_feature feature := fun feature hfeature =>
      suggested_feature (hfeatures.subset hfeature)
    refine ⟨handshake_waiting self.unix_time haccepts hall, ?_⟩
    have hloop := handshake_features self.unix_time haccepts hall []
    rw [List.append_nil] at hloop
    rw [transcript, hloop, said, if_neg (List.cons_ne_nil _ _)]
    rfl

/-- What an end has written grows by what its handshake has to say. -/
theorem LinkStep.written (hstep : LinkStep party state action next) (side : Side) :
    state.written side <+: next.written side ∧
      (next.written side = state.written side ∨
        next.written side <+: ((party side).transcript (state.read side)).sent) := by
  cases hstep with
  | @write writer message hopen hnext =>
    dsimp only
    rw [Function.update_apply]
    split_ifs with hside
    · subst hside
      exact ⟨List.prefix_append _ _, .inr hnext⟩
    · exact ⟨List.prefix_refl _, .inl rfl⟩
  | read => exact ⟨List.prefix_refl _, .inl rfl⟩
  | lose => exact ⟨List.prefix_refl _, .inl rfl⟩

/-- What one end has read is a beginning of what the other has written. -/
def Link.Arrived (state : Link) : Prop :=
  ∀ side, state.read side <+: state.written side.other

theorem Link.Arrived.step (harrived : state.Arrived) (hstep : LinkStep party state action next) :
    next.Arrived := by
  intro side
  have hgrows := (hstep.written side.other).1
  cases hstep with
  | write hopen hnext => exact (harrived side).trans hgrows
  | @read reader message hopen hwritten hwaiting hmessage =>
    dsimp only
    rw [Function.update_apply]
    split_ifs with hside
    · exact hside ▸ hmessage
    · exact harrived side
  | lose => exact harrived side

/-- Neither end writes the first `verack`. -/
theorem Link.Arrived.verack_step (harrived : state.Arrived)
    (hverack : ∀ side, .Verack ∉ state.written side) (hstep : LinkStep party state action next)
    (side : Side) : .Verack ∉ next.written side := by
  intro hwritten
  obtain hsame | hsent := (hstep.written side).2
  · exact hverack side (hsame ▸ hwritten)
  · have hread := (party side).verack_answers (hsent.subset hwritten)
    exact hverack side.other ((harrived side).subset hread)

theorem Party.said_opening (self peer : Party) (messages : List NetworkMessage) :
    self.said peer messages <+: self.opening peer := by
  rw [said]
  split
  · exact List.prefix_append [_] _
  · exact List.prefix_refl _

theorem Party.said_ne_nil (self peer : Party) (messages : List NetworkMessage) :
    self.said peer messages ≠ [] := by
  rw [said]
  split <;> exact List.cons_ne_nil _ _

/-- Each end has written a beginning of what it has to say. -/
def Link.Opening (party : Side → Party) (state : Link) : Prop :=
  ∀ side, state.written side <+: (party side).said (party side.other) (state.read side)

/-- The steps that were taken: every message was written once, and read at most once. -/
def Link.steps (state : Link) : Nat :=
  (state.written .opener).length + (state.written .listener).length +
    ((state.read .opener).length + (state.read .listener).length)

theorem LinkStep.steps (hstep : LinkStep party state action next)
    (hlose : action.is_lose = false) : next.steps = state.steps + 1 := by
  cases hstep with
  | @write side => cases side <;> simp [Link.steps] <;> omega
  | @read side => cases side <;> simp [Link.steps] <;> omega
  | lose => cases hlose

section

variable (haccepts : ∀ side, (party side).config.Accepts (party side).nonce
  (party side.other).version)

include haccepts

theorem Link.Opening.transcript (hopening : state.Opening party) (harrived : state.Arrived)
    (side : Side) :
    ((party side).transcript (state.read side)).outcome = .Waiting ∧
      ((party side).transcript (state.read side)).sent =
        (party side).said (party side.other) (state.read side) := by
  have hread := ((harrived side).trans (hopening side.other)).trans (Party.said_opening _ _ _)
  rw [show side.other.other = side by cases side <;> rfl] at hread
  exact Party.transcript_opening (haccepts side) hread

theorem Link.Opening.step (hopening : state.Opening party) (harrived : state.Arrived)
    (hstep : LinkStep party state action next) : next.Opening party := by
  intro side
  cases hstep with
  | @write writer message hopen hnext =>
    dsimp only
    rw [Function.update_apply]
    split_ifs with hside
    · subst hside
      rwa [(hopening.transcript haccepts harrived side).2] at hnext
    · exact hopening side
  | @read reader message hopen hwritten hwaiting hmessage =>
    dsimp only
    rw [Function.update_apply]
    split_ifs with hside
    · rw [Party.said, if_neg (by simp)]
      exact (hopening side).trans (Party.said_opening _ _ _)
    · exact hopening side
  | lose => exact hopening side

/-- Where everything is written and read, there is nothing to do. -/
theorem Link.Opening.rest (hopening : state.Opening party) (harrived : state.Arrived)
    (hrest : ∀ side, state.written side = (party side).opening (party side.other) ∧
      state.read side = state.written side.other) (hlose : action.is_lose = false) :
    ¬LinkStep party state action next := by
  intro hstep
  cases hstep with
  | @write side message hopen hnext =>
    rw [(hopening.transcript haccepts harrived side).2, (hrest side).1] at hnext
    have hlength := (hnext.trans (Party.said_opening _ _ _)).length_le
    rw [List.length_append, List.length_singleton] at hlength
    omega
  | @read side message hopen hwritten hwaiting hmessage =>
    rw [(hrest side).2] at hmessage
    have hlength := hmessage.length_le
    rw [List.length_append, List.length_singleton] at hlength
    omega
  | lose => cases hlose

/-- An end writes on, or it reads on, unless everything is written and read. -/
theorem Link.Opening.progress (hopening : state.Opening party) (harrived : state.Arrived)
    (hopen : ∀ side, state.lost side = false) :
    (∃ action next, action.is_lose = false ∧ LinkStep party state action next) ∨
      ∀ side, state.written side = (party side).opening (party side.other) ∧
        state.read side = state.written side.other := by
  have hmore : ∀ {front whole : List NetworkMessage}, front <+: whole → front ≠ whole →
      ∃ message, front ++ [message] <+: whole := by
    rintro front _ ⟨_ | ⟨message, rest⟩, rfl⟩ hne
    · simp at hne
    · exact ⟨message, rest, by simp⟩
  have htranscript := hopening.transcript haccepts harrived
  by_cases hwritten : ∀ side, state.written side =
      (party side).said (party side.other) (state.read side)
  · by_cases hread : ∀ side, state.read side = state.written side.other
    · refine .inr fun side => ⟨?_, hread side⟩
      have hnonempty : state.read side ≠ [] := by
        rw [hread side, hwritten side.other]
        exact Party.said_ne_nil _ _ _
      rw [hwritten side, Party.said, if_neg hnonempty]
    · obtain ⟨side, hside⟩ := not_forall.mp hread
      obtain ⟨message, hmessage⟩ := hmore (harrived side) hside
      exact .inl ⟨.read side message, _, rfl, .read side (hopen side)
        ((hwritten side).trans (htranscript side).2.symm) (htranscript side).1 hmessage⟩
  · obtain ⟨side, hside⟩ := not_forall.mp hwritten
    obtain ⟨message, hmessage⟩ := hmore (hopening side) hside
    exact .inl ⟨.write side message, _, rfl, .write side (hopen side)
      ((htranscript side).2 ▸ hmessage)⟩

end

theorem opening_length (self peer : Party) : (self.opening peer).length ≤ 4 := by
  simp only [Party.opening, suggested_messages]
  split_ifs <;> simp

theorem run_unanswered {labels : List LinkAction}
    (hrun : (link_system party).Run .new labels state) :
    state.Arrived ∧ ∀ side, .Verack ∉ state.written side := by
  refine hrun.preserves (P := fun state => state.Arrived ∧ ∀ side, .Verack ∉ state.written side)
    ?_ ⟨fun _ => List.nil_prefix, fun _ => List.not_mem_nil⟩
  rintro state action next ⟨harrived, hverack⟩ hstep
  exact ⟨harrived.step hstep, harrived.verack_step hverack hstep⟩

theorem run_opening (haccepts : ∀ side, (party side).config.Accepts (party side).nonce
    (party side.other).version) {labels : List LinkAction}
    (hrun : (link_system party).Run .new labels state) : state.Opening party := by
  have hboth : state.Arrived ∧ state.Opening party := by
    refine hrun.preserves (P := fun state => state.Arrived ∧ state.Opening party) ?_
      ⟨fun _ => List.nil_prefix, fun _ => List.nil_prefix⟩
    rintro state action next ⟨harrived, hopening⟩ hstep
    exact ⟨harrived.step hstep, hopening.step haccepts harrived hstep⟩
  exact hboth.2

theorem run_steps {labels : List LinkAction} (hrun : (link_system party).Run .new labels state)
    (hkept : ∀ label ∈ labels, label.is_lose = false) :
    labels.length = state.steps ∧ ∀ side, state.lost side = false := by
  generalize hfirst : Link.new = first at hrun
  induction hrun with
  | nil =>
    subst hfirst
    exact ⟨rfl, fun _ => rfl⟩
  | @snoc middle last labels label hrun hstep ih =>
    obtain ⟨hearlier, hlabel⟩ := List.forall_mem_append.mp hkept
    have hlose := hlabel label (List.mem_singleton_self label)
    obtain ⟨hlength, hopen⟩ := ih hearlier
    refine ⟨?_, ?_⟩
    · rw [LinkStep.steps hstep hlose, List.length_append, hlength, List.length_singleton]
    · cases hstep with
      | write | read => exact hopen
      | lose => cases hlose

/-- Two ends that both run `handshake` wait for each other: in every interleaving,
    neither writes a `verack` and neither handshake is completed. Where each accepts the
    version of the other, the only way out is a failure to read or write. Without
    one it takes at most sixteen steps until both have said and read everything
    that comes before a `verack`, and then there is no next step. -/
theorem ends_wait_for_each_other {labels : List LinkAction}
    (hrun : (link_system party).Run .new labels state) :
    (∀ side, .Verack ∉ state.written side ∧
      ∀ completed, ((party side).transcript (state.read side)).outcome ≠ .Completed completed) ∧
    ((∀ side, (party side).config.Accepts (party side).nonce (party side.other).version) →
      (∀ side, ((party side).transcript (state.read side)).outcome = .Waiting) ∧
      ((∀ label ∈ labels, label.is_lose = false) →
        labels.length ≤ 16 ∧
        ((∃ action next, action.is_lose = false ∧ LinkStep party state action next) ↔
          ¬∀ side, state.written side = (party side).opening (party side.other) ∧
            state.read side = state.written side.other))) := by
  obtain ⟨harrived, hverack⟩ := run_unanswered hrun
  refine ⟨fun side => ⟨hverack side, fun completed hcompleted => ?_⟩, fun haccepts => ?_⟩
  · exact hverack side.other
      ((harrived side).subset ((party side).verack_completes hcompleted))
  · have hopening := run_opening haccepts hrun
    refine ⟨fun side => (hopening.transcript haccepts harrived side).1, fun hkept => ?_⟩
    obtain ⟨hlength, hopen⟩ := run_steps hrun hkept
    refine ⟨?_, ?_, fun hmore => ?_⟩
    · have hwritten : ∀ side, (state.written side).length ≤ 4 := fun side =>
        ((hopening side).trans (Party.said_opening _ _ _)).length_le.trans (opening_length _ _)
      have hread : ∀ side, (state.read side).length ≤ 4 := fun side =>
        (harrived side).length_le.trans (hwritten side.other)
      have hopener := hwritten .opener
      have hlistener := hwritten .listener
      have hopener_read := hread .opener
      have hlistener_read := hread .listener
      rw [hlength, Link.steps]
      omega
    · rintro ⟨action, next, hlose, hstep⟩ hrest
      exact hopening.rest haccepts harrived hrest hlose hstep
    · exact (hopening.progress haccepts harrived hopen).resolve_right hmore

end

/-- Two ends with the default configuration. -/
def default_party (side : Side) : Party where
  config := .new
  unix_time := .from_secs 1700000000
  nonce := if side = .opener then 42 else 43

/-- The version messages are written, and one end has read and goes on. -/
def default_run : List LinkAction :=
  [.write .opener (.Version (default_party .opener).version),
    .write .listener (.Version (default_party .listener).version),
    .read .listener (.Version (default_party .opener).version), .write .listener .WtxidRelay]

theorem default_runs : ∃ state, (link_system default_party).Run .new default_run state ∧
    state.read .opener = [] := by
  have hnil : (link_system default_party).Run .new [] .new := .nil _
  have hversions := (hnil.snoc (LinkStep.write .opener rfl ⟨[], rfl⟩)).snoc
    (LinkStep.write .listener rfl ⟨[], rfl⟩)
  have hread := hversions.snoc (LinkStep.read .listener rfl rfl rfl ⟨[], rfl⟩)
  exact ⟨_, hread.snoc (LinkStep.write .listener rfl ⟨[.SendAddrV2, .SendHeaders], rfl⟩), rfl⟩

theorem ends_wait_for_each_other_default : ∃ state,
    (link_system default_party).Run .new default_run state ∧
    (∀ side, ((default_party side).transcript (state.read side)).outcome = .Waiting) ∧
    ∃ action next, action.is_lose = false ∧ LinkStep default_party state action next := by
  obtain ⟨state, hrun, hread⟩ := default_runs
  have haccepts : ∀ side, (default_party side).config.Accepts (default_party side).nonce
      (default_party side.other).version := by
    rintro (_ | _) <;> decide
  obtain ⟨hwaiting, hwaits⟩ := (ends_wait_for_each_other hrun).2 haccepts
  refine ⟨state, hrun, hwaiting, (hwaits (by decide)).2.mpr fun hrest => ?_⟩
  have hwritten : state.written .listener = [] := (hrest .opener).2.symm.trans hread
  rw [(hrest .listener).1] at hwritten
  cases hwritten

end p2p.net
