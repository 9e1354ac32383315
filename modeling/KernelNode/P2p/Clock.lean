import KernelNode.Collections.Float
import KernelNode.P2p.Handshake

open bitcoin std.time

namespace std.i64

/-- Subtraction as a debug build does it. -/
def checked_sub (left right : Int64) : Option Int64 :=
  if (left - right).toInt = left.toInt - right.toInt then some (left - right) else none

theorem toInt_sub_of_checked_sub {left right difference : Int64}
    (hsub : checked_sub left right = some difference) :
    (left - right).toInt = left.toInt - right.toInt := by
  rw [checked_sub, Option.ite_none_right_eq_some] at hsub
  exact hsub.1

/-- From a number that is not negative only a very negative one overflows. -/
theorem exists_checked_sub_iff {left right : Int64} (hleft : 0 ≤ left.toInt) :
    (∃ difference, checked_sub left right = some difference) ↔
      left.toInt - right.toInt < 2 ^ 63 := by
  have hright := right.toInt_lt
  constructor
  · rintro ⟨difference, hdifference⟩
    rw [← toInt_sub_of_checked_sub hdifference]
    exact (left - right).toInt_lt
  · intro hupper
    have hexact : (left - right).toInt = left.toInt - right.toInt := by
      rw [Int64.toInt_sub]
      exact Int.bmod_eq_of_le (by omega) (by omega)
    exact ⟨left - right, if_pos hexact⟩

end std.i64

theorem std.time.Duration.toInt_as_secs_f64_as_i64 (self : Duration) :
    self.as_secs_f64_as_i64.toInt = (min (self.as_secs_f64 / 2 ^ 90) (2 ^ 63 - 1) : Nat) := by
  rw [as_secs_f64_as_i64, Int64.toInt_ofNat_of_lt (by omega)]

namespace p2p.handshake

/-- The first message of the peer in a build with overflow checks. The difference of
    the clocks may panic. -/
def ConnectionConfig.start_handshake_checked (self : ConnectionConfig) (unix_time : Duration)
    (network_message : NetworkMessage) (nonce : UInt64) :
    Option (Except Error (InitializedHandshake × List NetworkMessage)) :=
  match network_message, self.start_handshake unix_time network_message nonce with
  | .Version version, .ok (handshake, messages) => do
    let net_time_difference ← std.i64.checked_sub unix_time.as_secs_f64_as_i64 version.timestamp
    let feeler := { handshake.feeler with net_time_difference }
    return .ok ({ handshake with feeler }, messages)
  | _, result => some result

/-- If it does not panic it is the handshake of a release build. -/
theorem ConnectionConfig.start_handshake_checked_accepts {self : ConnectionConfig}
    {nonce : UInt64} {version : VersionMessage} (haccepts : self.Accepts nonce version)
    (unix_time : Duration) :
    self.start_handshake_checked unix_time (.Version version) nonce =
      (std.i64.checked_sub unix_time.as_secs_f64_as_i64 version.timestamp).map fun _ =>
        self.start_handshake unix_time (.Version version) nonce := by
  simp only [start_handshake_checked, start_handshake_accepts haccepts, std.i64.checked_sub]
  split_ifs <;> rfl

/-- The seconds of our clock are the whole seconds of the time where rounding keeps
    them. -/
theorem toInt_clock_eq_secs_iff {unix_time : Duration}
    (htime : unix_time.as_secs.toNat < 2 ^ 62) :
    unix_time.as_secs_f64_as_i64.toInt = unix_time.as_secs.toNat ↔
      WholeSeconds unix_time.as_secs.toNat unix_time.nanos := by
  rw [← round_sum_eq_secs unix_time.nanos.isLt, Duration.toInt_as_secs_f64_as_i64]
  change _ ↔ unix_time.as_secs_f64 / 2 ^ 90 = unix_time.as_secs.toNat
  omega

/-- An accepted version message gives the difference of the clocks exactly if its
    timestamp is not too far in the past and rounding keeps the whole seconds of our
    clock. -/
theorem clock_difference_exact_iff {self : ConnectionConfig} {nonce : UInt64}
    {version : VersionMessage} (haccepts : self.Accepts nonce version) {unix_time : Duration}
    (htime : unix_time.as_secs.toNat < 2 ^ 62) :
    (∃ handshake messages,
        self.start_handshake_checked unix_time (.Version version) nonce =
          some (.ok (handshake, messages)) ∧
        self.start_handshake unix_time (.Version version) nonce = .ok (handshake, messages) ∧
        handshake.feeler.net_time_difference.toInt =
          unix_time.as_secs.toNat - version.timestamp.toInt) ↔
      unix_time.as_secs.toNat - 2 ^ 63 < version.timestamp.toInt ∧
        WholeSeconds unix_time.as_secs.toNat unix_time.nanos := by
  have hclock : 0 ≤ unix_time.as_secs_f64_as_i64.toInt := by
    rw [Duration.toInt_as_secs_f64_as_i64]
    omega
  rw [← toInt_clock_eq_secs_iff htime, ConnectionConfig.start_handshake_checked_accepts haccepts,
    ConnectionConfig.start_handshake_accepts haccepts]
  constructor
  · rintro ⟨handshake, messages, hchecked, hhandshake, hexact⟩
    obtain ⟨difference, hdifference, -⟩ := Option.map_eq_some_iff.mp hchecked
    have hrange := (std.i64.exists_checked_sub_iff hclock).mp ⟨difference, hdifference⟩
    obtain ⟨rfl, -⟩ := Prod.mk.inj (Except.ok.inj hhandshake)
    have hwrapped := std.i64.toInt_sub_of_checked_sub hdifference
    rw [show (self.after_version unix_time version nonce).feeler.net_time_difference =
      unix_time.as_secs_f64_as_i64 - version.timestamp from rfl, hwrapped] at hexact
    omega
  · rintro ⟨hrange, hsecs⟩
    rw [← hsecs] at hrange ⊢
    have hfits : unix_time.as_secs_f64_as_i64.toInt - version.timestamp.toInt < 2 ^ 63 := by omega
    obtain ⟨difference, hdifference⟩ := (std.i64.exists_checked_sub_iff hclock).mpr hfits
    rw [hdifference]
    exact ⟨_, _, rfl, rfl, std.i64.toInt_sub_of_checked_sub hdifference⟩

/-- A quarter of a second after a whole one. -/
theorem clock_difference_exact_iff_mock :
    ∃ handshake messages,
      ConnectionConfig.new.start_handshake_checked ⟨1700000000, 250000000⟩
        (.Version net.mock_version) 43 = some (.ok (handshake, messages)) ∧
      handshake.feeler.net_time_difference.toInt = 1477777778 := by
  obtain ⟨handshake, messages, hchecked, -, hexact⟩ :=
    (clock_difference_exact_iff (show ConnectionConfig.new.Accepts 43 net.mock_version by decide)
      (show (⟨1700000000, 250000000⟩ : Duration).as_secs.toNat < 2 ^ 62 by decide)).mpr
      ⟨by decide, by decide⟩
  exact ⟨handshake, messages, hchecked, hexact⟩

/-- A peer with the least timestamp. -/
def ancient_version : VersionMessage := { net.mock_version with timestamp := Int64.minValue }

/-- The version of the peer is accepted. In a build with overflow checks it panics,
    otherwise the difference wraps around. -/
theorem clock_difference_overflow :
    ConnectionConfig.new.Accepts 43 ancient_version ∧
      ConnectionConfig.new.start_handshake_checked (.from_secs 1700000000)
        (.Version ancient_version) 43 = none ∧
      (ConnectionConfig.new.after_version (.from_secs 1700000000) ancient_version
        43).feeler.net_time_difference.toInt = 1700000000 - 2 ^ 63 := by
  decide

end p2p.handshake
