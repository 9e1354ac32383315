import Mathlib.Data.Nat.Bitwise
import KernelNode.Collections.Bytes

open std.array std.bytes

namespace std.array

/-- `self[i] = value`; outside the array it is a panic, here `none`. -/
def assign {α : Type} {size : Nat} (self : List.Vector α size) (i : Nat) (value : α) :
    Option (List.Vector α size) :=
  if h : i < size then some (self.set ⟨i, h⟩ value) else none

end std.array

namespace net

/-- The bytes of `.onion checksum`. -/
def SALT : List.Vector UInt8 15 :=
  ⟨[46, 111, 110, 105, 111, 110, 32, 99, 104, 101, 99, 107, 115, 117, 109], rfl⟩

def TOR_VERSION : UInt8 := 0x03

/-- The bytes of `.onion`. -/
def ONION_SUFFIX : List.Vector UInt8 6 := ⟨[46, 111, 110, 105, 111, 110], rfl⟩

/-- The bytes of `abcdefghijklmnopqrstuvwxyz234567`. -/
def ALPHABET : List.Vector UInt8 32 :=
  ⟨[97, 98, 99, 100, 101, 102, 103, 104, 105, 106, 107, 108, 109, 110, 111, 112, 113, 114, 115, 116,
    117, 118, 119, 120, 121, 122, 50, 51, 52, 53, 54, 55], rfl⟩

/-- The variables of `base32_encode_35`. -/
structure Base32 where
  out : List.Vector UInt8 56
  buffer : UInt64
  bits_left : UInt32
  i : Nat

namespace Base32

def new : Base32 := ⟨List.Vector.replicate 56 0, 0, 0, 0⟩

/-- The inner loop. A letter takes five bits, so that there are more than enough
    rounds in as many as there are bits; running out of them would be `none`. -/
def drain : Nat → Base32 → Option Base32
  | 0, _ => none
  | rounds + 1, self =>
    if self.bits_left ≥ 5 then do
      let bits_left := self.bits_left - 5
      let letter ← ALPHABET.toList[((self.buffer >>> bits_left.toUInt64) &&& 0x1f).toNat]?
      let out ← assign self.out self.i letter
      drain rounds { self with out, bits_left, i := self.i + 1 }
    else some self

/-- One round of the outer loop. -/
def push (self : Base32) (byte : UInt8) : Option Base32 :=
  let self := { self with
    buffer := (self.buffer <<< 8) ||| byte.toUInt64
    bits_left := self.bits_left + 8 }
  self.drain self.bits_left.toNat

end Base32

def base32_encode_35 (data : List.Vector UInt8 35) : Option (List.Vector UInt8 56) :=
  (data.toList.foldlM Base32.push .new).map Base32.out

/-- The host name of an onion service. -/
def pubkey_to_service (sha3_256 : List.Vector UInt8 48 → List.Vector UInt8 32)
    (ed25519 : List.Vector UInt8 32) : Option (List.Vector UInt8 62) := do
  let cs_input := List.Vector.replicate 48 0
  let cs_input := copy_from_slice cs_input 0 SALT (by decide)
  let cs_input := copy_from_slice cs_input 15 ed25519 (by decide)
  let cs_input := copy_from_slice cs_input 47 (singleton TOR_VERSION) (by decide)
  let cs := sha3_256 cs_input
  let payload := List.Vector.replicate 35 0
  let payload := copy_from_slice payload 0 ed25519 (by decide)
  let payload := copy_from_slice payload 32 (singleton (cs.get 0)) (by decide)
  let payload := copy_from_slice payload 33 (singleton (cs.get 1)) (by decide)
  let payload := copy_from_slice payload 34 (singleton TOR_VERSION) (by decide)
  let encoded ← base32_encode_35 payload
  let out := List.Vector.replicate 62 0
  let out := copy_from_slice out 0 encoded (by decide)
  return copy_from_slice out 56 ONION_SUFFIX (by decide)

/-- The number that the letters are the digits of. -/
def base32_value (letters : List UInt8) : Nat :=
  letters.foldl (fun value letter => value * 32 + ALPHABET.toList.idxOf letter) 0

/-- The bytes that 56 letters stand for. -/
def base32_decode_35 (letters : List.Vector UInt8 56) : List.Vector UInt8 35 :=
  to_be 35 (base32_value letters.toList)

theorem toNat_shift_or (buffer : UInt64) (byte : UInt8) :
    ((buffer <<< 8) ||| byte.toUInt64).toNat = (buffer.toNat * 256 + byte.toNat) % 2 ^ 64 := by
  have hbyte : byte.toNat < 2 ^ 8 := byte.toNat_lt
  have hshift : (buffer <<< 8).toNat = (buffer.toNat % 2 ^ 56) <<< 8 := by
    rw [UInt64.toNat_shiftLeft, Nat.shiftLeft_eq, Nat.shiftLeft_eq]
    change buffer.toNat * 256 % 2 ^ 64 = _
    omega
  rw [UInt64.toNat_or, hshift, UInt8.toNat_toUInt64, ← Nat.shiftLeft_add_eq_or_of_lt hbyte,
    Nat.shiftLeft_eq]
  omega

theorem toNat_shift_and (buffer : UInt64) {bits : UInt32} (hbits : bits.toNat < 64) :
    ((buffer >>> bits.toUInt64) &&& 0x1f).toNat = buffer.toNat / 2 ^ bits.toNat % 32 := by
  rw [UInt64.toNat_and, UInt64.toNat_shiftRight, UInt32.toNat_toUInt64, Nat.mod_eq_of_lt hbits,
    Nat.shiftRight_eq_div_pow]
  exact Nat.and_two_pow_sub_one_eq_mod _ 5

/-- What is shifted out of a word does not reach the five bits above its low ones. -/
theorem mod_word_div_mod (value : Nat) {bits : Nat} (hbits : bits + 5 ≤ 64) :
    value % 2 ^ 64 / 2 ^ bits % 32 = value / 2 ^ bits % 32 := by
  have hword : 2 ^ 64 = 2 ^ bits * 2 ^ (64 - bits) := by
    rw [← pow_add, Nat.add_sub_cancel' (by omega)]
  have hdvd : 2 ^ 5 ∣ 2 ^ (64 - bits) := pow_dvd_pow 2 (by omega)
  rw [hword, Nat.mod_mul_right_div_self]
  exact Nat.mod_mod_of_dvd _ hdvd

/-- What the encoder has done with the bytes seen so far: the buffer ends with
    them, the letters written are their first groups of five bits, and fewer than
    five bits of the buffer are left over between two bytes. -/
structure Base32.Encodes (state : Base32) (seen : List UInt8) : Prop where
  buffer : state.buffer.toNat = of_be seen % 2 ^ 64
  bits : 5 * state.i + state.bits_left.toNat = 8 * seen.length
  out : ∀ j : Fin 56, j < state.i →
    ALPHABET.toList[of_be seen / 2 ^ (8 * seen.length - 5 * (j + 1)) % 32]? = some (state.out.get j)

theorem Base32.new_encodes : Base32.new.Encodes [] where
  buffer := rfl
  bits := rfl
  out _ hj := absurd hj (Nat.not_lt_zero _)

/-- A letter is written for the first five bits that are left. -/
theorem Base32.Encodes.emit {state : Base32} {seen : List UInt8} (hstate : state.Encodes seen)
    (hseen : seen.length ≤ 35) (henough : 5 ≤ state.bits_left.toNat)
    (hfew : state.bits_left.toNat ≤ 64) :
    ∃ letter out, ALPHABET.toList[((state.buffer >>> (state.bits_left - 5).toUInt64) &&&
        0x1f).toNat]? = some letter ∧
      assign state.out state.i letter = some out ∧
      (state.bits_left - 5).toNat = state.bits_left.toNat - 5 ∧
      Base32.Encodes
        { state with out, bits_left := state.bits_left - 5, i := state.i + 1 } seen := by
  have hbits := hstate.bits
  have hleft : (state.bits_left - 5).toNat = state.bits_left.toNat - 5 :=
    UInt32.toNat_sub_of_le _ _ (UInt32.le_iff_toNat_le.mpr henough)
  have hroom : state.i < 56 := by omega
  have hindex : ((state.buffer >>> (state.bits_left - 5).toUInt64) &&& 0x1f).toNat =
      of_be seen / 2 ^ (8 * seen.length - 5 * (state.i + 1)) % 32 := by
    rw [toNat_shift_and _ (by omega), hstate.buffer, mod_word_div_mod _ (by omega), hleft]
    congr 3
    omega
  have hlt : of_be seen / 2 ^ (8 * seen.length - 5 * (state.i + 1)) % 32 <
      ALPHABET.toList.length := Nat.mod_lt _ (by decide)
  obtain ⟨letter, hletter⟩ : ∃ letter, ALPHABET.toList[of_be seen /
      2 ^ (8 * seen.length - 5 * (state.i + 1)) % 32]? = some letter :=
    ⟨_, List.getElem?_eq_getElem hlt⟩
  refine ⟨letter, state.out.set ⟨state.i, hroom⟩ letter, by rw [hindex, hletter],
    by rw [assign, dif_pos hroom], hleft, hstate.buffer, ?_, ?_⟩
  · dsimp only
    omega
  · intro j hj
    dsimp only at hj ⊢
    rw [List.Vector.get_set_eq_if]
    split
    · rename_i heq
      rw [← heq]
      exact hletter
    · rename_i hne
      refine hstate.out j (Nat.lt_of_le_of_ne (Nat.lt_succ_iff.mp hj) fun heq => hne ?_)
      exact Fin.ext heq.symm

/-- The inner loop ends, with less than a letter left. -/
theorem Base32.Encodes.drain {state : Base32} {seen : List UInt8} (hstate : state.Encodes seen)
    (hseen : seen.length ≤ 35) (hfew : state.bits_left.toNat ≤ 64) {rounds : Nat}
    (hrounds : state.bits_left.toNat < 5 * rounds) :
    ∃ next, state.drain rounds = some next ∧ next.Encodes seen ∧ next.bits_left.toNat < 5 := by
  induction rounds generalizing state with
  | zero => omega
  | succ rounds ih =>
    rw [Base32.drain]
    by_cases henough : state.bits_left ≥ 5
    · have hfive : 5 ≤ state.bits_left.toNat := UInt32.le_iff_toNat_le.mp henough
      obtain ⟨letter, out, hletter, hout, hleft, hnext⟩ := hstate.emit hseen hfive hfew
      rw [if_pos henough]
      simp only [hletter, hout, Option.bind_eq_bind, Option.bind_some]
      exact ih hnext (by dsimp only; omega) (by dsimp only; omega)
    · have hless : state.bits_left.toNat < 5 := by
        have hnot := mt UInt32.le_iff_toNat_le.mpr henough
        exact Nat.lt_of_not_le hnot
      exact ⟨state, if_neg henough, hstate, hless⟩

theorem Base32.toNat_bits_left_add {state : Base32} (hleft : state.bits_left.toNat < 5) :
    (state.bits_left + 8).toNat = state.bits_left.toNat + 8 := by
  rw [UInt32.toNat_add]
  exact Nat.mod_eq_of_lt (by change _ + 8 < _; omega)

/-- A byte is put at the end of the buffer. -/
theorem Base32.Encodes.fill {state : Base32} {seen : List UInt8} (hstate : state.Encodes seen)
    (hleft : state.bits_left.toNat < 5) (byte : UInt8) :
    Base32.Encodes { state with
      buffer := (state.buffer <<< 8) ||| byte.toUInt64
      bits_left := state.bits_left + 8 } (seen ++ [byte]) := by
  have hbits := hstate.bits
  have hadd := Base32.toNat_bits_left_add hleft
  refine ⟨?_, ?_, fun j hj => ?_⟩
  · rw [toNat_shift_or, hstate.buffer, of_be_concat]
    omega
  · rw [List.length_append, List.length_singleton]
    dsimp only
    omega
  · -- the bits of the earlier bytes stand eight places further up
    have hold := hstate.out j hj
    dsimp only at hj ⊢
    have hplaces : 8 * (seen ++ [byte]).length - 5 * (j + 1) =
        8 + (8 * seen.length - 5 * (j + 1)) := by
      rw [List.length_append, List.length_singleton]
      omega
    have hbyte : byte.toNat < 256 := byte.toNat_lt
    have hseen : of_be (seen ++ [byte]) / 2 ^ 8 = of_be seen := by
      rw [of_be_concat]
      omega
    rw [hplaces, pow_add, ← Nat.div_div_eq_div_mul, hseen]
    exact hold

/-- A byte goes through the buffer. -/
theorem Base32.Encodes.push {state : Base32} {seen : List UInt8} (hstate : state.Encodes seen)
    (hleft : state.bits_left.toNat < 5) (byte : UInt8) (hseen : seen.length < 35) :
    ∃ next, state.push byte = some next ∧ next.Encodes (seen ++ [byte]) ∧
      next.bits_left.toNat < 5 := by
  have hadd := Base32.toNat_bits_left_add hleft
  rw [Base32.push]
  exact (hstate.fill hleft byte).drain
    (by rw [List.length_append, List.length_singleton]; omega) (by dsimp only; omega)
    (by dsimp only; omega)

/-- The outer loop, from what it has seen over the rest. -/
theorem Base32.Encodes.foldlM {rest seen : List UInt8} {state : Base32}
    (hstate : state.Encodes seen) (hleft : state.bits_left.toNat < 5)
    (hlength : seen.length + rest.length ≤ 35) :
    ∃ last, rest.foldlM Base32.push state = some last ∧ last.Encodes (seen ++ rest) ∧
      last.bits_left.toNat < 5 := by
  induction rest generalizing seen state with
  | nil => exact ⟨state, rfl, by rwa [List.append_nil], hleft⟩
  | cons byte rest ih =>
    rw [List.length_cons] at hlength
    obtain ⟨next, hpush, hnext, hnext_left⟩ := hstate.push hleft byte (by omega)
    obtain ⟨last, hlast, hencodes, hlast_left⟩ := ih hnext hnext_left (by simp; omega)
    refine ⟨last, ?_, by simpa using hencodes, hlast_left⟩
    rw [List.foldlM_cons, hpush]
    exact hlast

/-- All letters are written, each for its five bits. -/
theorem base32_encode_35_letters (data : List.Vector UInt8 35) :
    ∃ state : Base32, data.toList.foldlM Base32.push .new = some state ∧ state.i = 56 ∧
      base32_encode_35 data = some state.out ∧
      ∀ j : Fin 56, ALPHABET.toList[of_be data.toList / 2 ^ (275 - 5 * j.val) % 32]? =
        some (state.out.get j) := by
  have hlength : ([] : List UInt8).length + data.toList.length ≤ 35 := by simp
  obtain ⟨state, hfold, hencodes, hleft⟩ := Base32.new_encodes.foldlM (by decide) hlength
  rw [List.nil_append] at hencodes
  have hbits := hencodes.bits
  rw [data.toList_length] at hbits
  refine ⟨state, hfold, by omega, by rw [base32_encode_35, hfold]; rfl, fun j => ?_⟩
  have hletter := hencodes.out j (by omega)
  rw [data.toList_length] at hletter
  rw [← hletter, show 8 * 35 - 5 * (j.val + 1) = 275 - 5 * j.val by omega]

theorem base32_value_concat (letters : List UInt8) (letter : UInt8) :
    base32_value (letters ++ [letter]) =
      base32_value letters * 32 + ALPHABET.toList.idxOf letter := by
  simp [base32_value]

/-- Letters that stand for the digits of a number in base 32. -/
theorem base32_value_of_digits {value : Nat} (hvalue : value < 32 ^ 56)
    {letters : List.Vector UInt8 56}
    (hletters : ∀ j : Fin 56, ALPHABET.toList[value / 32 ^ (55 - j.val) % 32]? =
      some (letters.get j)) :
    base32_value letters.toList = value := by
  have hdigit (j : Fin 56) : ALPHABET.toList.idxOf (letters.get j) =
      value / 32 ^ (55 - j.val) % 32 := by
    obtain ⟨hlt, hletter⟩ := List.getElem?_eq_some_iff.mp (hletters j)
    rw [← hletter]
    exact List.Nodup.idxOf_getElem (by decide) _ hlt
  have hfront : ∀ count ≤ 56, base32_value (letters.toList.take count) =
      value / 32 ^ (56 - count) := by
    intro count
    induction count with
    | zero => exact fun _ => (Nat.div_eq_of_lt hvalue).symm
    | succ count ih =>
      intro hcount
      have hindex : count < letters.toList.length := by
        rw [letters.toList_length]
        exact hcount
      have hlast : letters.toList[count] = letters.get ⟨count, hcount⟩ :=
        (List.Vector.get_eq_get_toList letters ⟨count, hcount⟩).symm
      rw [List.take_succ_eq_append_getElem hindex, base32_value_concat, ih (by omega), hlast,
        hdigit, show 56 - count = 55 - count + 1 by omega,
        show 56 - (count + 1) = 55 - count by omega, pow_succ, ← Nat.div_div_eq_div_mul,
        Nat.div_add_mod']
  have hall := hfront 56 (Nat.le_refl 56)
  rw [List.take_of_length_le (by simp)] at hall
  rw [hall]
  exact Nat.div_one value

theorem base32_decode_encode {data : List.Vector UInt8 35} {letters : List.Vector UInt8 56}
    (hletters : ∀ j : Fin 56, ALPHABET.toList[of_be data.toList / 2 ^ (275 - 5 * j.val) % 32]? =
      some (letters.get j)) :
    base32_decode_35 letters = data := by
  have hvalue : of_be data.toList < 32 ^ 56 := by
    have hlt := of_be_lt data.toList
    rw [data.toList_length] at hlt
    exact hlt
  have hdigits (j : Fin 56) : ALPHABET.toList[of_be data.toList / 32 ^ (55 - j.val) % 32]? =
      some (letters.get j) := by
    rw [← hletters j, show 275 - 5 * j.val = 5 * (55 - j.val) by omega, pow_mul]
    rfl
  rw [base32_decode_35, base32_value_of_digits hvalue hdigits, to_be_of_be]

/-- The encoding of any input, and the way back. -/
theorem base32_encode_35_spec (data : List.Vector UInt8 35) :
    ∃ state : Base32, data.toList.foldlM Base32.push .new = some state ∧ state.i = 56 ∧
      base32_encode_35 data = some state.out ∧
      (∀ j : Fin 56, ALPHABET.toList[of_be data.toList / 2 ^ (275 - 5 * j.val) % 32]? =
        some (state.out.get j)) ∧
      base32_decode_35 state.out = data := by
  obtain ⟨state, hfold, hwritten, hencode, hletters⟩ := base32_encode_35_letters data
  exact ⟨state, hfold, hwritten, hencode, hletters, base32_decode_encode hletters⟩

example : base32_encode_35 ⟨[215, 90, 152, 1, 130, 177, 10, 183, 213, 75, 254, 211, 201, 100, 7, 58,
    14, 225, 114, 243, 218, 166, 35, 37, 175, 2, 26, 104, 247, 7, 81, 26, 190, 201, 3], rfl⟩ =
    some ⟨[50, 53, 110, 106, 113, 97, 109, 99, 119, 101, 102, 108, 112, 118, 107, 108, 55, 51, 106,
      52, 115, 122, 97, 104, 104, 105, 104, 111, 99, 52, 120, 116, 51, 107, 116, 99, 103, 106, 110,
      112, 97, 105, 110, 103, 114, 53, 121, 104, 107, 101, 110, 108, 53, 115, 105, 100], rfl⟩ := by
  decide

theorem base32_encode_35_injective {data other : List.Vector UInt8 35}
    {encoded : List.Vector UInt8 56} (hdata : base32_encode_35 data = some encoded)
    (hother : base32_encode_35 other = some encoded) : data = other := by
  obtain ⟨state, _, _, hstate, _, hdecode⟩ := base32_encode_35_spec data
  obtain ⟨state', _, _, hstate', _, hdecode'⟩ := base32_encode_35_spec other
  rw [hdata, Option.some.injEq] at hstate
  rw [hother, Option.some.injEq] at hstate'
  rw [← hdecode, ← hdecode', ← hstate, ← hstate']

/-- A host name is the encoding of a payload that starts with the key, and the
    suffix. -/
theorem pubkey_to_service_spec (sha3_256 : List.Vector UInt8 48 → List.Vector UInt8 32)
    (ed25519 : List.Vector UInt8 32) :
    ∃ (payload : List.Vector UInt8 35) (encoded : List.Vector UInt8 56)
      (name : List.Vector UInt8 62),
      slice payload 0 32 (by decide) = ed25519 ∧ base32_encode_35 payload = some encoded ∧
      pubkey_to_service sha3_256 ed25519 = some name ∧
      slice name 0 56 (by decide) = encoded ∧ slice name 56 6 (by decide) = ONION_SUFFIX := by
  rw [pubkey_to_service]
  generalize sha3_256 _ = cs
  dsimp only
  generalize hpayload : copy_from_slice _ 34 (singleton TOR_VERSION) _ = payload
  obtain ⟨state, _, _, hencoded, _⟩ := base32_encode_35_spec payload
  refine ⟨payload, state.out, _, ?_, hencoded, by rw [hencoded]; rfl, ?_, slice_copy_same _ _ _ _ _⟩
  · rw [← hpayload, slice_copy_disjoint _ _ _ _ (by omega), slice_copy_disjoint _ _ _ _ (by omega),
      slice_copy_disjoint _ _ _ _ (by omega), slice_copy_same]
  · rw [slice_copy_disjoint _ _ _ _ (by omega), slice_copy_same]

theorem onion_suffix_of_slice {name : List.Vector UInt8 62}
    (hend : slice name 56 6 (by decide) = ONION_SUFFIX) : ONION_SUFFIX.toList <:+ name.toList := by
  have hdrop : ONION_SUFFIX.toList = name.toList.drop 56 := by
    rw [← hend, slice]
    exact List.take_of_length_le (by simp)
  rw [hdrop]
  exact List.drop_suffix 56 name.toList

/-- An onion host name has the key in it. The encoder writes every letter, for its
    own five bits of the input, and the input can be decoded from them. So different
    keys have different names, whatever the checksum. -/
theorem onion_host_names (sha3_256 : List.Vector UInt8 48 → List.Vector UInt8 32) :
    (∀ data : List.Vector UInt8 35, ∃ state : Base32,
      data.toList.foldlM Base32.push .new = some state ∧ state.i = 56 ∧
      base32_encode_35 data = some state.out ∧
      (∀ j : Fin 56, ALPHABET.toList[of_be data.toList / 2 ^ (275 - 5 * j.val) % 32]? =
        some (state.out.get j)) ∧
      base32_decode_35 state.out = data) ∧
    ∀ ed25519 other : List.Vector UInt8 32, ed25519 ≠ other →
      ∃ name other_name : List.Vector UInt8 62,
        pubkey_to_service sha3_256 ed25519 = some name ∧
        pubkey_to_service sha3_256 other = some other_name ∧ name ≠ other_name ∧
        ONION_SUFFIX.toList <:+ name.toList ∧ ONION_SUFFIX.toList <:+ other_name.toList := by
  refine ⟨base32_encode_35_spec, fun ed25519 other hne => ?_⟩
  obtain ⟨payload, encoded, name, hkey, hencoded, hname, hfront, hend⟩ :=
    pubkey_to_service_spec sha3_256 ed25519
  obtain ⟨payload', encoded', name', hkey', hencoded', hname', hfront', hend'⟩ :=
    pubkey_to_service_spec sha3_256 other
  refine ⟨name, name', hname, hname', fun hsame => hne ?_, onion_suffix_of_slice hend,
    onion_suffix_of_slice hend'⟩
  have hpayload : payload = payload' := by
    refine base32_encode_35_injective hencoded ?_
    rw [hencoded', ← hfront', ← hsame, hfront]
  rw [← hkey, hpayload, hkey']

/-- Two keys under a checksum that is the same for all. -/
theorem onion_host_names_fixed_checksum :
    ∃ name other_name : List.Vector UInt8 62,
      pubkey_to_service (fun _ => List.Vector.replicate 32 7) (List.Vector.replicate 32 1) =
        some name ∧
      pubkey_to_service (fun _ => List.Vector.replicate 32 7) (List.Vector.replicate 32 2) =
        some other_name ∧ name ≠ other_name := by
  obtain ⟨name, other_name, hname, hother, hne, _⟩ :=
    (onion_host_names fun _ => List.Vector.replicate 32 7).2 (List.Vector.replicate 32 1)
      (List.Vector.replicate 32 2) (by decide)
  exact ⟨name, other_name, hname, hother, hne⟩

end net
