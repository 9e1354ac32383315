import KernelNode.P2p.Connection

open bitcoin std.time transition

namespace p2p.net

/-- The state of the exchange of pings and pongs: the nonce of a ping that has no
    pong yet, and the time of the last ping or pong. -/
structure Keepalive where
  waiting : Option UInt64
  since : Instant

/-- What was written and what was noted decides the state. -/
def Keepalive.next (self : Keepalive) : ConnectionAction → Keepalive
  | .ping nonce time => { waiting := some nonce, since := time }
  | .answer _ time => { waiting := none, since := time }
  | _ => self

def keepalive (opened : Instant) (actions : List ConnectionAction) : Keepalive :=
  actions.foldl Keepalive.next { waiting := none, since := opened }

/-- What the shared state of a connection may say of the exchange. -/
inductive Keepalive.Shows (now : Instant) : Keepalive → OutboundPing → Prop where
  | waiting {nonce : UInt64} {since then_ : Instant} (hsince : since.nanos ≤ then_.nanos)
      (hthen : then_.nanos ≤ now.nanos) :
      Shows now { waiting := some nonce, since } (.Waiting nonce then_)
  | received {since : Instant} (hsince : since.nanos ≤ now.nanos) :
      Shows now { waiting := none, since } (.LastReceived since)

/-- What holds between two steps: the shared state shows the exchange, except
    between a ping and the note that its pong is waited for. -/
inductive Connection.Beats (ping_interval : Duration) (beat : Keepalive) (state : Connection) :
    Prop where
  | shown (hlock : state.writer.locks = false)
      (hshows : beat.Shows state.now state.metrics.outbound_ping_state)
  | pinging {nonce : UInt64} (hphase : state.writer = .pinging nonce)
      (hwaiting : beat.waiting = none)
      (hping : state.metrics.outbound_ping_state = .LastReceived beat.since)
      (hdue : beat.since.nanos + ping_interval.as_nanos < state.now.nanos)
  | storing {nonce : UInt64} (hphase : state.writer = .storing nonce)
      (hwaiting : beat.waiting = some nonce) (hsince : beat.since.nanos ≤ state.now.nanos)

section

variable {rawInst : RawNetworkMessage} {magic : Magic} {ping_interval : Duration}
    {state next : Connection} {action : ConnectionAction} {beat : Keepalive}

theorem keepalive_concat (opened : Instant) (actions : List ConnectionAction)
    (action : ConnectionAction) :
    keepalive opened (actions ++ [action]) = (keepalive opened actions).next action := by
  simp [keepalive]

theorem Keepalive.Shows.later {now later : Instant} {ping : OutboundPing}
    (hshows : beat.Shows now ping) (hlater : now.nanos ≤ later.nanos) : beat.Shows later ping := by
  cases hshows with
  | waiting hsince hthen => exact .waiting hsince (hthen.trans hlater)
  | received hsince => exact .received (hsince.trans hlater)

theorem ConnectionReader.note_outbound_ping {metrics noted : ConnectionMetrics}
    {now later : Instant} {message : NetworkMessage}
    (hnote : ConnectionReader.note metrics now later message = some noted) :
    noted.outbound_ping_state =
      ConnectionReader.note_ping metrics.outbound_ping_state now message := by
  obtain ⟨_, _, rfl⟩ := Option.map_eq_some_iff.mp hnote
  rfl

/-- Another message than the pong that is waited for changes nothing. -/
theorem ConnectionReader.note_ping_other {ping : OutboundPing} {message : NetworkMessage}
    (hother : ∀ nonce then_, ping = .Waiting nonce then_ → message ≠ .Pong nonce) (now : Instant) :
    ConnectionReader.note_ping ping now message = ping := by
  cases message with
  | Pong pong =>
    cases ping with
    | LastReceived => rfl
    | Waiting nonce then_ =>
      have hne : pong ≠ nonce := by
        rintro rfl
        exact hother pong then_ rfl rfl
      simp [note_ping, hne]
  | _ => rfl

namespace Connection.Beats

variable (hbeats : state.Beats ping_interval beat)

include hbeats

/-- What takes the lock sees the state of the exchange. -/
theorem shows (hlock : state.writer.locks = false) :
    beat.Shows state.now state.metrics.outbound_ping_state := by
  cases hbeats with
  | shown _ hshows => exact hshows
  | pinging hphase | storing hphase =>
    rw [hphase] at hlock
    cases hlock

/-- A step of a thread that has not locked the ping state. -/
theorem frame (hwriter : next.writer = state.writer)
    (hping : next.metrics.outbound_ping_state = state.metrics.outbound_ping_state)
    (hnow : state.now.nanos ≤ next.now.nanos) : next.Beats ping_interval beat := by
  cases hbeats with
  | shown hlock hshows => exact .shown (hwriter ▸ hlock) (hping ▸ hshows.later hnow)
  | pinging hphase hwaiting hreceived hdue =>
    exact .pinging (hwriter ▸ hphase) hwaiting (hping ▸ hreceived) (hdue.trans_le hnow)
  | storing hphase hwaiting hsince =>
    exact .storing (hwriter ▸ hphase) hwaiting (hsince.trans hnow)

/-- A step of the writer outside the lock. -/
theorem unlocked (hlock : state.writer.locks = false) (hnext : next.writer.locks = false)
    (hping : next.metrics.outbound_ping_state = state.metrics.outbound_ping_state)
    (hnow : state.now.nanos ≤ next.now.nanos) : next.Beats ping_interval beat :=
  .shown hnext (hping ▸ (hbeats.shows hlock).later hnow)

theorem step (hstep : ConnectionStep rawInst magic ping_interval state action next) :
    next.Beats ping_interval (beat.next action) := by
  cases hstep with
  | request | drop | read => exact hbeats.frame rfl rfl le_rfl
  | wait hlater => exact hbeats.frame rfl rfl hlater
  | note hphase hlock hother hnote hlater =>
    refine hbeats.frame rfl ?_ hlater
    rw [ConnectionReader.note_outbound_ping hnote, ConnectionReader.note_ping_other hother]
  | write hphase | write_failed hphase | shut_down hphase | shut_down_failed hphase
  | timeout hphase | disconnected hphase | waiting hphase | recent hphase =>
    exact hbeats.unlocked (by rw [hphase]; rfl) rfl rfl le_rfl
  | overdue hphase hping hoverdue nonce =>
    have hshows := hbeats.shows (by rw [hphase]; rfl)
    rw [hping] at hshows
    cases hshows with
    | received hsince =>
      refine .pinging rfl rfl hping ?_
      rw [Instant.elapsed] at hoverdue
      exact Nat.add_lt_of_lt_sub' hoverdue
  | ping hphase hopen => exact .storing rfl rfl le_rfl
  | ping_failed hphase htorn e =>
    obtain ⟨waiting, since⟩ := beat
    cases hbeats with
    | pinging _ hwaiting hping hdue =>
      obtain rfl : waiting = none := hwaiting
      have hsince : since.nanos ≤ state.now.nanos := le_of_lt (Nat.lt_of_add_right_lt hdue)
      refine .shown rfl ?_
      rw [hping]
      exact .received hsince
    | shown hlock | storing hother =>
      rw [hphase] at *
      contradiction
  | store hphase =>
    obtain ⟨waiting, since⟩ := beat
    cases hbeats with
    | storing hstoring hwaiting hsince =>
      obtain rfl := WriterPhase.storing.inj (hphase.symm.trans hstoring)
      obtain rfl : waiting = some _ := hwaiting
      exact .shown rfl (.waiting hsince le_rfl)
    | shown hlock | pinging hother =>
      rw [hphase] at *
      contradiction
  | answer hphase hlock hping hnote hlater =>
    refine .shown hlock ?_
    rw [ConnectionReader.note_outbound_ping hnote, hping]
    simp only [ConnectionReader.note_ping, if_true]
    exact .received hlater

end Connection.Beats

variable {greeting : List NetworkMessage} {opened : Instant} {first : Connection}
    {actions : List ConnectionAction}

theorem run_beats
    (hrun : (connection_system rawInst magic ping_interval greeting opened).Run first actions state)
    (hopened : first.Opened greeting opened) :
    state.Beats ping_interval (keepalive opened actions) := by
  induction hrun with
  | nil =>
    refine .shown (by rw [hopened.writer]; rfl) ?_
    rw [hopened.outbound_ping_state]
    exact .received hopened.now
  | snoc _ hstep ih =>
    rw [keepalive_concat]
    exact ih.step hstep

/-- A ping is written only when the last one has its pong, and later than an
    interval after it. The pong is noted whenever it is read after its ping was
    written, and no other message passes for it. A ping that is said to be timed
    out was written so long ago and has no pong. -/
theorem pings_answered (hopened : first.Opened greeting opened)
    (hrun : (connection_system rawInst magic ping_interval greeting opened).Run first actions
      state) :
    (∀ before nonce time after, actions = before ++ .ping nonce time :: after →
      (keepalive opened before).waiting = none ∧
      (keepalive opened before).since.nanos + ping_interval.as_nanos < time.nanos) ∧
    (∀ before nonce time after, actions = before ++ .answer nonce time :: after →
      (keepalive opened before).waiting = some nonce ∧
      (keepalive opened before).since.nanos ≤ time.nanos) ∧
    (∀ before nonce after, actions = before ++ .note (.Pong nonce) :: after →
      (keepalive opened before).waiting ≠ some nonce) ∧
    (state.writer.locks = false → ∀ timeout,
      state.metrics.ping_timed_out state.now timeout = true →
        (keepalive opened actions).waiting ≠ none ∧
        (keepalive opened actions).since.nanos + timeout.as_nanos < state.now.nanos) := by
  refine ⟨?_, ?_, ?_, ?_⟩
  · rintro before nonce time after rfl
    obtain ⟨middle, _, hbefore, hstep, -⟩ := hrun.split
    cases hstep with
    | ping hphase hopen =>
      cases run_beats hbefore hopened with
      | pinging _ hwaiting _ hdue => exact ⟨hwaiting, hdue⟩
      | shown hlock | storing hother =>
        rw [hphase] at *
        contradiction
  · rintro before nonce time after rfl
    obtain ⟨middle, _, hbefore, hstep, -⟩ := hrun.split
    cases hstep with
    | answer hphase hlock hping hnote hlater =>
      have hshows := (run_beats hbefore hopened).shows hlock
      generalize keepalive opened before = beat at hshows
      rw [hping] at hshows
      cases hshows with
      | waiting hsince hthen => exact ⟨rfl, hsince.trans hthen⟩
  · rintro before nonce after rfl hwaiting
    obtain ⟨middle, _, hbefore, hstep, -⟩ := hrun.split
    cases hstep with
    | note hphase hlock hother hnote hlater =>
      have hlock := hlock.resolve_right fun hnot => hnot nonce rfl
      have hshows := (run_beats hbefore hopened).shows hlock
      generalize keepalive opened before = beat at hshows hwaiting
      generalize hping : middle.metrics.outbound_ping_state = ping at hshows hother
      cases hshows with
      | waiting hsince hthen =>
        obtain rfl := Option.some.inj hwaiting
        exact hother _ _ rfl rfl
      | received => cases hwaiting
  · intro hlock timeout htimed_out
    have hshows := (run_beats hrun hopened).shows hlock
    generalize keepalive opened actions = beat at hshows
    generalize hping : state.metrics.outbound_ping_state = ping at hshows
    simp only [ConnectionMetrics.ping_timed_out, hping] at htimed_out
    cases hshows with
    | waiting hsince hthen =>
      have hlate := of_decide_eq_true htimed_out
      rw [Instant.elapsed] at hlate
      exact ⟨Option.some_ne_none _, by dsimp only; omega⟩
    | received => cases htimed_out

end

/-- The first ping after two minutes, up to the arrival of its pong. -/
def first_ping : List ConnectionAction :=
  [.wait, .idle, .idle, .ping 7 ⟨121000000000⟩, .store, .read (.Pong 7)]

theorem first_ping_runs : ∃ state,
    (connection_system plain_raw .REGTEST (.from_secs 120) [.Verack] ⟨0⟩).Run greeted
      (first_ping ++ [.answer 7 ⟨121000000000⟩]) state := by
  have hnil : (connection_system plain_raw .REGTEST (.from_secs 120) [.Verack] ⟨0⟩).Run greeted []
    greeted := .nil _
  have hwait : ConnectionStep plain_raw .REGTEST (.from_secs 120) greeted .wait
    { greeted with now := ⟨121000000000⟩ } := .wait (Nat.zero_le _)
  have hdue := ((hnil.snoc hwait).snoc (ConnectionStep.timeout rfl rfl rfl)).snoc
    (ConnectionStep.overdue rfl rfl (by decide) 7)
  have hping := (hdue.snoc (ConnectionStep.ping rfl rfl)).snoc (ConnectionStep.store rfl)
  have hread := hping.snoc (ConnectionStep.read rfl (.Pong 7))
  exact ⟨_, hread.snoc (ConnectionStep.answer rfl rfl rfl rfl le_rfl)⟩

/-- The pong that is noted is that of the ping. -/
theorem pings_answered_once : (keepalive ⟨0⟩ first_ping).waiting = some 7 := by
  obtain ⟨state, hrun⟩ := first_ping_runs
  exact ((pings_answered greeted_opened hrun).2.1 first_ping 7 ⟨121000000000⟩ [] rfl).1

end p2p.net
