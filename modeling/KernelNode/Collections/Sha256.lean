import KernelNode.Collections.Bytes

open std.bytes

namespace bitcoin_hashes.sha256

/-- The eight words that are carried from block to block. -/
structure State where
  a : UInt32
  b : UInt32
  c : UInt32
  d : UInt32
  e : UInt32
  f : UInt32
  g : UInt32
  h : UInt32

/-- One constant for each round. -/
def K : List UInt32 := [
  0x428a2f98, 0x71374491, 0xb5c0fbcf, 0xe9b5dba5, 0x3956c25b, 0x59f111f1, 0x923f82a4, 0xab1c5ed5,
  0xd807aa98, 0x12835b01, 0x243185be, 0x550c7dc3, 0x72be5d74, 0x80deb1fe, 0x9bdc06a7, 0xc19bf174,
  0xe49b69c1, 0xefbe4786, 0x0fc19dc6, 0x240ca1cc, 0x2de92c6f, 0x4a7484aa, 0x5cb0a9dc, 0x76f988da,
  0x983e5152, 0xa831c66d, 0xb00327c8, 0xbf597fc7, 0xc6e00bf3, 0xd5a79147, 0x06ca6351, 0x14292967,
  0x27b70a85, 0x2e1b2138, 0x4d2c6dfc, 0x53380d13, 0x650a7354, 0x766a0abb, 0x81c2c92e, 0x92722c85,
  0xa2bfe8a1, 0xa81a664b, 0xc24b8b70, 0xc76c51a3, 0xd192e819, 0xd6990624, 0xf40e3585, 0x106aa070,
  0x19a4c116, 0x1e376c08, 0x2748774c, 0x34b0bcb5, 0x391c0cb3, 0x4ed8aa4a, 0x5b9cca4f, 0x682e6ff3,
  0x748f82ee, 0x78a5636f, 0x84c87814, 0x8cc70208, 0x90befffa, 0xa4506ceb, 0xbef9a3f7, 0xc67178f2]

def IV : State where
  a := 0x6a09e667
  b := 0xbb67ae85
  c := 0x3c6ef372
  d := 0xa54ff53a
  e := 0x510e527f
  f := 0x9b05688c
  g := 0x1f83d9ab
  h := 0x5be0cd19

def rotate_right (word n : UInt32) : UInt32 := (word >>> n) ||| (word <<< (32 - n))

def round (self : State) (k w : UInt32) : State :=
  let ch := (self.e &&& self.f) ^^^ (~~~self.e &&& self.g)
  let maj := (self.a &&& self.b) ^^^ (self.a &&& self.c) ^^^ (self.b &&& self.c)
  let t1 := self.h + ch + k + w +
    (rotate_right self.e 6 ^^^ rotate_right self.e 11 ^^^ rotate_right self.e 25)
  let t2 := maj + (rotate_right self.a 2 ^^^ rotate_right self.a 13 ^^^ rotate_right self.a 22)
  ⟨t1 + t2, self.a, self.b, self.c, self.d + t1, self.e, self.f, self.g⟩

/-- The word after a window of sixteen words of the message schedule. -/
def next_word (window : List UInt32) : UInt32 :=
  let w := fun i => window.getD i 0
  w 0 + (rotate_right (w 1) 7 ^^^ rotate_right (w 1) 18 ^^^ (w 1 >>> 3)) + w 9 +
    (rotate_right (w 14) 17 ^^^ rotate_right (w 14) 19 ^^^ (w 14 >>> 10))

/-- One round for each constant, with the window moved on. -/
def rounds : List UInt32 → List UInt32 → State → State
  | [], _, state => state
  | k :: constants, window, state =>
    rounds constants (window.tail ++ [next_word window]) (round state k (window.headD 0))

/-- The big-endian words of a block. -/
def words : Nat → List UInt8 → List UInt32
  | 0, _ => []
  | count + 1, bytes => .ofNat (of_be (bytes.take 4)) :: words count (bytes.drop 4)

def process_block (self : State) (block : List UInt8) : State :=
  let last := rounds K (words 16 block) self
  ⟨self.a + last.a, self.b + last.b, self.c + last.c, self.d + last.d, self.e + last.e,
    self.f + last.f, self.g + last.g, self.h + last.h⟩

def process_blocks : Nat → List UInt8 → State → State
  | 0, _, state => state
  | count + 1, bytes, state =>
    process_blocks count (bytes.drop 64) (process_block state (bytes.take 64))

/-- A one bit, zeros up to eight bytes before the end of a block, and the number of
    bits. -/
def pad (data : List UInt8) : List UInt8 :=
  data ++ 0x80 :: List.replicate ((119 - data.length % 64) % 64) 0 ++
    (to_be 8 (data.length * 8)).toList

def State.bytes (self : State) : List.Vector UInt8 32 :=
  ⟨[self.a, self.b, self.c, self.d, self.e, self.f, self.g, self.h].flatMap fun word =>
    (to_be 4 word.toNat).toList, by simp⟩

def hash (data : List UInt8) : List.Vector UInt8 32 :=
  (process_blocks ((pad data).length / 64) (pad data) IV).bytes

end bitcoin_hashes.sha256

namespace bitcoin_hashes.sha256d

def hash (data : List UInt8) : List.Vector UInt8 32 := sha256.hash (sha256.hash data).toList

example : hash [] =
    to_be 32 0x5df6e0e2761359d30a8275058e299fcc0381534545f55cf43e41983f5d4c9456 := by
  decide +kernel

example : hash ((List.range 100).map UInt8.ofNat) =
    to_be 32 0x0ed719fdd718f0fc76f04b678a150f8423e8a0a6c3db2d30a264f2b822f57ba4 := by
  decide +kernel

end bitcoin_hashes.sha256d
