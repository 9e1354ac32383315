import Mathlib.Data.Vector.Basic

namespace std.bytes

/-- The little-endian bytes of a number, cut to the given width. -/
def to_le : (len : Nat) → Nat → List.Vector UInt8 len
  | 0, _ => .nil
  | len + 1, value => .cons (UInt8.ofNat value) (to_le len (value / 256))

/-- The number with the given little-endian bytes. -/
def of_le : List UInt8 → Nat
  | [] => 0
  | byte :: bytes => byte.toNat + 256 * of_le bytes

/-- The big-endian bytes of a number, cut to the given width. -/
def to_be (len value : Nat) : List.Vector UInt8 len :=
  (to_le len value).reverse

/-- The number with the given big-endian bytes. -/
def of_be (bytes : List UInt8) : Nat :=
  of_le bytes.reverse

theorem of_le_to_le (len value : Nat) : of_le (to_le len value).toList = value % 256 ^ len := by
  induction len generalizing value with
  | zero => simp [to_le, of_le, Nat.mod_one]
  | succ len ih =>
    rw [to_le, List.Vector.toList_cons, of_le, ih, UInt8.toNat_ofNat', pow_succ' 256, Nat.mod_mul]

theorem of_be_to_be (len value : Nat) : of_be (to_be len value).toList = value % 256 ^ len := by
  simp [of_be, to_be, List.Vector.toList_reverse, of_le_to_le]

theorem to_le_of_le {len : Nat} (bytes : List.Vector UInt8 len) :
    to_le len (of_le bytes.toList) = bytes := by
  induction len with
  | zero => exact bytes.eq_nil.symm
  | succ len ih =>
    obtain ⟨byte, bytes, rfl⟩ := bytes.exists_eq_cons
    have hbyte : byte.toNat < 256 := byte.toNat_lt
    have hrest : (byte.toNat + 256 * of_le bytes.toList) / 256 = of_le bytes.toList := by omega
    have hfirst : UInt8.ofNat (byte.toNat + 256 * of_le bytes.toList) = byte := by
      apply UInt8.toNat_inj.mp
      rw [UInt8.toNat_ofNat']
      omega
    rw [List.Vector.toList_cons, of_le, to_le, hrest, hfirst, ih]

theorem to_be_of_be {len : Nat} (bytes : List.Vector UInt8 len) :
    to_be len (of_be bytes.toList) = bytes := by
  rw [to_be, of_be, ← List.Vector.toList_reverse, to_le_of_le, List.Vector.reverse_reverse]

theorem of_le_lt (bytes : List UInt8) : of_le bytes < 256 ^ bytes.length := by
  induction bytes with
  | nil => exact Nat.one_pos
  | cons byte bytes ih =>
    have hbyte : byte.toNat < 256 := byte.toNat_lt
    rw [of_le, List.length_cons, pow_succ]
    omega

theorem of_be_lt (bytes : List UInt8) : of_be bytes < 256 ^ bytes.length := by
  rw [of_be, ← List.length_reverse]
  exact of_le_lt bytes.reverse

theorem of_be_concat (bytes : List UInt8) (byte : UInt8) :
    of_be (bytes ++ [byte]) = of_be bytes * 256 + byte.toNat := by
  rw [of_be, List.reverse_append, List.reverse_singleton, List.singleton_append, of_le, of_be]
  omega

/-- Reading a 16-bit word back from its two bytes. -/
theorem of_le_u16 (word : UInt16) : UInt16.ofNat (of_le (to_le 2 word.toNat).toList) = word := by
  rw [of_le_to_le, Nat.mod_eq_of_lt (by simpa using word.toNat_lt), UInt16.ofNat_toNat]

/-- Reading a 32-bit word back from its four bytes. -/
theorem of_le_u32 (word : UInt32) : UInt32.ofNat (of_le (to_le 4 word.toNat).toList) = word := by
  rw [of_le_to_le, Nat.mod_eq_of_lt (by simpa using word.toNat_lt), UInt32.ofNat_toNat]

/-- Reading a 64-bit word back from its eight bytes. -/
theorem of_le_u64 (word : UInt64) : UInt64.ofNat (of_le (to_le 8 word.toNat).toList) = word := by
  rw [of_le_to_le, Nat.mod_eq_of_lt (by simpa using word.toNat_lt), UInt64.ofNat_toNat]

end std.bytes

namespace std.array

variable {α : Type} {size count : Nat}

/-- The part `[start..start + len]` of an array. -/
def slice (self : List.Vector α size) (start len : Nat) (h : start + len ≤ size) :
    List.Vector α len :=
  ⟨(self.toList.drop start).take len, by simp; omega⟩

/-- The array with `bytes` copied over its part from `start` on. -/
def copy_from_slice (self : List.Vector α size) (start : Nat) (bytes : List.Vector α count)
    (_ : start + count ≤ size) : List.Vector α size :=
  ⟨self.toList.take start ++ bytes.toList ++ self.toList.drop (start + count), by simp; omega⟩

/-- A list of the right length as an array. -/
def from_list (list : List α) (h : list.length = size) : List.Vector α size := ⟨list, h⟩

@[simp]
theorem toList_from_list (list : List α) (h : list.length = size) :
    (from_list list h).toList = list := rfl

/-- The array of one element. -/
def singleton (value : α) : List.Vector α 1 := ⟨[value], rfl⟩

@[simp]
theorem head_singleton (value : α) : (singleton value).head = value := rfl

@[simp]
theorem slice_copy_same (self : List.Vector α size) (start : Nat) (bytes : List.Vector α count)
    (h h' : start + count ≤ size) : slice (copy_from_slice self start bytes h) start count
      h' = bytes := by
  apply List.Vector.eq
  have hstart : min start size = start := by omega
  simp [slice, copy_from_slice, hstart]

/-- A copy does not change what lies beside it. -/
theorem slice_copy_disjoint (self : List.Vector α size) {start start' len : Nat}
    (bytes : List.Vector α count) (h : start + count ≤ size) (h' : start' + len ≤ size)
    (hdisjoint : start' + len ≤ start ∨ start + count ≤ start') :
    slice (copy_from_slice self start bytes h) start' len h' = slice self start' len h' := by
  apply List.Vector.eq
  apply List.ext_getElem?
  intro i
  simp only [slice, copy_from_slice, List.Vector.toList_mk, List.getElem?_take, List.getElem?_drop]
  split
  · rename_i hi
    rcases hdisjoint with hbefore | hafter
    · rw [List.append_assoc, List.getElem?_append_left (by simp; omega),
        List.getElem?_take_of_lt (by omega)]
    · rw [List.getElem?_append_right (by simp; omega), List.getElem?_drop]
      congr 1
      simp
      omega
  · rfl

end std.array
