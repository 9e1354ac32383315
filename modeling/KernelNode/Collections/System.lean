import Mathlib.Data.Vector.Basic
import Mathlib.Data.List.Basic
import KernelNode.Collections.Bytes

namespace std.time

structure Duration where
  secs : UInt64
  nanos : Fin 1000000000
deriving DecidableEq

def Duration.from_secs (secs : UInt64) : Duration := ⟨secs, 0⟩

def Duration.as_secs (self : Duration) : UInt64 := self.secs

def Duration.as_nanos (self : Duration) : Nat := self.secs.toNat * 1000000000 + self.nanos

def Duration.saturating_sub (self other : Duration) : Duration :=
  let nanos := self.as_nanos - other.as_nanos
  ⟨.ofNat (nanos / 1000000000), Fin.ofNat _ nanos⟩

/-- A reading of the monotonic clock, in nanoseconds since some start. -/
structure Instant where
  nanos : Nat
deriving DecidableEq

/-- The nanoseconds from an earlier reading to this one, none from a later one. -/
def Instant.elapsed (self now : Instant) : Nat := now.nanos - self.nanos

/-- The nearest whole number to a fraction, the even one of two. -/
def nearest (num den : Nat) : Nat :=
  let quotient := num / den
  let twice := 2 * (num % den)
  if twice < den then quotient else if den < twice then quotient + 1 else quotient + quotient % 2

/-- The float nearest to a fraction, in units of `2 ^ -90`, with so many places
    after its leading bit. -/
def round_float (places num den : Nat) : Nat :=
  let scaled := num * 2 ^ 90
  let unit := 2 ^ ((scaled / den).log2 - places)
  nearest scaled (den * unit) * unit

def round_f32 : Nat → Nat → Nat := round_float 23

def round_f64 : Nat → Nat → Nat := round_float 52

/-- The seconds as a double, in the same units: a sum of two doubles. -/
def Duration.as_secs_f64 (self : Duration) : Nat :=
  round_f64 (round_f64 self.secs.toNat 1 + round_f64 self.nanos 1000000000) (2 ^ 90)

/-- `as_secs_f64() as i64`, which cuts the fraction off and saturates. -/
def Duration.as_secs_f64_as_i64 (self : Duration) : Int64 :=
  .ofNat (min (self.as_secs_f64 / 2 ^ 90) (2 ^ 63 - 1))

end std.time

namespace std.net

def Ipv4Addr.new (a b c d : UInt8) : List.Vector UInt8 4 := ⟨[a, b, c, d], rfl⟩

inductive IpAddr where
  | V4 (octets : List.Vector UInt8 4)
  | V6 (octets : List.Vector UInt8 16)
deriving DecidableEq

end std.net

namespace std.hash

/-- The hashes of a new `DefaultHasher`. Its algorithm is not specified, only
    that every new hasher hashes alike. -/
structure DefaultHasher where
  /-- After one byte array. -/
  hash_bytes : List UInt8 → UInt64
  /-- After one string. -/
  hash_str : String → UInt64

/-- The four words of SipHash. -/
structure Sip where
  v0 : UInt64
  v1 : UInt64
  v2 : UInt64
  v3 : UInt64

def rotate_left (word bits : UInt64) : UInt64 := word <<< bits ||| word >>> (64 - bits)

def Sip.round (self : Sip) : Sip :=
  let v0 := self.v0 + self.v1
  let v2 := self.v2 + self.v3
  let v1 := rotate_left self.v1 13 ^^^ v0
  let v3 := rotate_left self.v3 16 ^^^ v2
  let v0 := rotate_left v0 32 + v3
  let v2 := v2 + v1
  ⟨v0, rotate_left v1 17 ^^^ v2, rotate_left v2 32, rotate_left v3 21 ^^^ v0⟩

def Sip.absorb (self : Sip) (word : UInt64) : Sip :=
  let self := Sip.round { self with v3 := self.v3 ^^^ word }
  { self with v0 := self.v0 ^^^ word }

/-- The input in words, with its length in the last byte of the last one. -/
def Sip.words (len : Nat) : List UInt8 → List UInt64
  | b0 :: b1 :: b2 :: b3 :: b4 :: b5 :: b6 :: b7 :: bytes =>
    .ofNat (std.bytes.of_le [b0, b1, b2, b3, b4, b5, b6, b7]) :: Sip.words len bytes
  | bytes => [.ofNat (std.bytes.of_le bytes + len % 256 * 2 ^ 56)]

/-- SipHash-1-3 with the keys 0 and 0. -/
def sip13 (bytes : List UInt8) : UInt64 :=
  let start : Sip := ⟨0x736f6d6570736575, 0x646f72616e646f6d, 0x6c7967656e657261,
    0x7465646279746573⟩
  let last := (Sip.words bytes.length bytes).foldl Sip.absorb start
  let last := Sip.round (Sip.round (Sip.round { last with v2 := last.v2 ^^^ 0xff }))
  last.v0 ^^^ last.v1 ^^^ last.v2 ^^^ last.v3

example : sip13 [] = 15130871412783076140 := by decide

/-- The hasher of the current standard library. An array is hashed after its
    length, a string is followed by the byte `0xff`. -/
def DefaultHasher.sip : DefaultHasher where
  hash_bytes bytes := sip13 ((std.bytes.to_le 8 bytes.length).toList ++ bytes)
  hash_str text := sip13 (text.toUTF8.toList ++ [0xff])

end std.hash

namespace std.io

inductive ErrorKind where
  | UnexpectedEof
  | InvalidData
  | WouldBlock
  | TimedOut
  | Other
deriving DecidableEq

structure Error where
  kind : ErrorKind
  message : String
deriving DecidableEq

def Error.unexpected_eof : Error := ⟨.UnexpectedEof, "failed to fill whole buffer"⟩

/-- What the reads on a source give, one by one: a byte, or an error between two
    bytes. After the last one the source is at its end. -/
abbrev Reader := List (Except Error UInt8)

/-- A source that gives the bytes of a list without an error. -/
def Reader.of_bytes (bytes : List UInt8) : Reader := bytes.map .ok

/-- The bytes that a source gives, between whatever errors. -/
def Reader.bytes (self : Reader) : List UInt8 := self.filterMap Except.toOption

/-- Code that reads from a source. What it has read before it fails is lost. -/
abbrev Read (E : Type) := ExceptT E (StateM Reader)

def Reader.take_exact : (len : Nat) → Reader → Except Error (List.Vector UInt8 len) × Reader
  | 0, reader => (.ok .nil, reader)
  | _ + 1, [] => (.error .unexpected_eof, [])
  | _ + 1, .error e :: reader => (.error e, reader)
  | len + 1, .ok byte :: reader =>
    match Reader.take_exact len reader with
    | (.ok bytes, reader) => (.ok (.cons byte bytes), reader)
    | (.error e, reader) => (.error e, reader)

/-- Fill a buffer of the given length. -/
def read_exact (len : Nat) : Read Error (List.Vector UInt8 len) :=
  ExceptT.mk fun reader => reader.take_exact len

/-- Fill a buffer of one byte. -/
def read_u8 : Read Error UInt8 := do
  let buf ← read_exact 1
  return buf.head

namespace Reader

@[simp]
theorem of_bytes_nil : of_bytes [] = [] := rfl

@[simp]
theorem of_bytes_cons (byte : UInt8) (bytes : List UInt8) :
    of_bytes (byte :: bytes) = .ok byte :: of_bytes bytes := rfl

@[simp]
theorem of_bytes_append (first second : List UInt8) :
    of_bytes (first ++ second) = of_bytes first ++ of_bytes second :=
  List.map_append

/-- Where a source without errors is split, both parts are without errors. -/
theorem of_bytes_eq_append {bytes first : List UInt8} {rest : Reader} :
    of_bytes bytes = of_bytes first ++ rest ↔
      ∃ second, bytes = first ++ second ∧ rest = of_bytes second := by
  constructor
  · intro hsplit
    obtain ⟨front, second, rfl, hfront, rfl⟩ := List.map_eq_append_iff.mp hsplit
    obtain rfl : front = first :=
      List.map_injective_iff.mpr (fun _ _ hbyte => Except.ok.inj hbyte) hfront
    exact ⟨second, rfl, rfl⟩
  · rintro ⟨second, rfl, rfl⟩
    exact of_bytes_append first second

/-- Enough bytes before the next error: they are taken. -/
@[simp]
theorem take_exact_of_bytes {len : Nat} (bytes : List.Vector UInt8 len) (rest : Reader) :
    take_exact len (of_bytes bytes.toList ++ rest) = (.ok bytes, rest) := by
  induction len with
  | zero => simp [take_exact, bytes.eq_nil]
  | succ len ih =>
    obtain ⟨byte, bytes, rfl⟩ := bytes.exists_eq_cons
    simp [take_exact, ih]

theorem take_exact_of_length {len : Nat} {bytes : List UInt8} (hlength : bytes.length = len)
    (rest : Reader) : take_exact len (of_bytes bytes ++ rest) = (.ok ⟨bytes, hlength⟩, rest) :=
  take_exact_of_bytes ⟨bytes, hlength⟩ rest

@[simp]
theorem bytes_of_bytes_append (bytes : List UInt8) (rest : Reader) :
    (of_bytes bytes ++ rest).bytes = bytes ++ rest.bytes := by
  simp [Reader.bytes, of_bytes, List.filterMap_map, Function.comp_def, Except.toOption]

@[simp]
theorem bytes_error_cons (e : Error) (rest : Reader) :
    Reader.bytes (.error e :: rest) = rest.bytes := rfl

/-- What a read finds: enough bytes, an error too early, or the end. -/
inductive TakeExact (len : Nat) : Reader → Except Error (List.Vector UInt8 len) × Reader →
    Prop where
  | filled (bytes : List.Vector UInt8 len) (rest : Reader) :
      TakeExact len (of_bytes bytes.toList ++ rest) (.ok bytes, rest)
  | interrupted (bytes : List UInt8) (hlength : bytes.length < len) (e : Error) (rest : Reader) :
      TakeExact len (of_bytes bytes ++ .error e :: rest) (.error e, rest)
  | ended (bytes : List UInt8) (hlength : bytes.length < len) :
      TakeExact len (of_bytes bytes) (.error .unexpected_eof, [])

theorem take_exact_cases (len : Nat) (reader : Reader) :
    TakeExact len reader (take_exact len reader) := by
  induction len generalizing reader with
  | zero => exact .filled .nil reader
  | succ len ih =>
    rcases reader with _ | ⟨_ | byte, reader⟩
    · exact .ended [] (by simp)
    · exact .interrupted [] (by simp) _ reader
    · rw [take_exact]
      have htaken := ih reader
      generalize take_exact len reader = taken at htaken
      cases htaken with
      | filled bytes rest => exact .filled (.cons byte bytes) rest
      | interrupted bytes hlength e rest =>
        exact .interrupted (byte :: bytes) (by simpa using hlength) e rest
      | ended bytes hlength => exact .ended (byte :: bytes) (by simpa using hlength)

end Reader

@[simp]
theorem run_read_exact (len : Nat) (reader : Reader) :
    (read_exact len).run.run reader = reader.take_exact len := rfl

@[simp]
theorem run_read_u8 (byte : UInt8) (reader : Reader) :
    read_u8.run.run (.ok byte :: reader) = (.ok byte, reader) := rfl

/-- A buffer is filled exactly with the bytes that come next. -/
theorem run_read_exact_eq_ok {len : Nat} {bytes : List.Vector UInt8 len} {reader rest : Reader} :
    (read_exact len).run.run reader = (.ok bytes, rest) ↔
      reader = .of_bytes bytes.toList ++ rest := by
  constructor
  · intro hread
    have htaken := Reader.take_exact_cases len reader
    rw [← run_read_exact, hread] at htaken
    cases htaken with
    | filled => rfl
  · rintro rfl
    rw [run_read_exact, Reader.take_exact_of_bytes]

theorem run_read_u8_eq_ok {byte : UInt8} {reader rest : Reader} :
    read_u8.run.run reader = (.ok byte, rest) ↔ reader = .ok byte :: rest := by
  constructor
  · intro hread
    rcases reader with _ | ⟨_ | head, reader⟩
    · cases hread
    · cases hread
    · rw [run_read_u8] at hread
      obtain ⟨hhead, rfl⟩ := Prod.mk.inj hread
      rw [Except.ok.inj hhead]
  · rintro rfl
    exact run_read_u8 byte rest

@[simp]
theorem run_lift {E A : Type} (result : Except E A) (reader : Reader) :
    (liftM result : Read E A).run.run reader = (result, reader) := rfl

@[simp]
theorem run_adapt {D E A : Type} (convert : D → E) (code : Read D A) (reader : Reader) :
    (code.adapt convert).run.run reader =
      ((code.run.run reader).1.mapError convert, (code.run.run reader).2) := rfl

@[simp]
theorem run_pure {E A : Type} (value : A) (reader : Reader) :
    (pure value : Read E A).run.run reader = (.ok value, reader) := rfl

@[simp]
theorem run_throw {E A : Type} (e : E) (reader : Reader) :
    (throw e : Read E A).run.run reader = (.error e, reader) := rfl

/-- Code goes on where its first part has stopped reading, or fails with it. -/
theorem run_bind {E A B : Type} (first : Read E A) (second : A → Read E B) (reader : Reader) :
    (first >>= second).run.run reader = match first.run.run reader with
      | (.ok value, rest) => (second value).run.run rest
      | (.error e, rest) => (.error e, rest) := by
  simp only [ExceptT.run_bind, StateT.run_bind]
  rcases first.run.run reader with ⟨_ | value, rest⟩ <;> rfl

/-- Code that succeeds has succeeded in both of its parts. -/
theorem run_bind_eq_ok {E A B : Type} {first : Read E A} {second : A → Read E B}
    {reader rest : Reader} {result : B}
    (hrun : (first >>= second).run.run reader = (.ok result, rest)) :
    ∃ value middle, first.run.run reader = (.ok value, middle) ∧
      (second value).run.run middle = (.ok result, rest) := by
  rw [run_bind] at hrun
  rcases hfirst : first.run.run reader with ⟨_ | value, middle⟩ <;> rw [hfirst] at hrun
  · cases hrun
  · exact ⟨value, middle, rfl, hrun⟩

end std.io
