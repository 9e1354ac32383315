import KernelNode.Collections.Traverse
import KernelNode.Disk
import KernelNode.Transition
import KernelNode.Wallet.State

open bitcoin disk secp256k1 silentpayments transition

namespace secp256k1

inductive SecpError where
  | InvalidSecretKey
  | InvalidPublicKey
deriving DecidableEq

def SecretKey.secret_bytes (self : SecretKey) : List.Vector UInt8 32 := self.scalar.to_be_bytes

/-- Refused on a wrong length, on zero and from the group order on. -/
def SecretKey.from_slice (bytes : List UInt8) : Except SecpError SecretKey :=
  if hlength : bytes.length = 32 then
    match Scalar.from_be_bytes ⟨bytes, hlength⟩ with
    | some scalar => if h : scalar ≠ 0 then .ok ⟨scalar, h⟩ else .error .InvalidSecretKey
    | none => .error .InvalidSecretKey
  else .error .InvalidSecretKey

theorem Scalar.from_be_bytes_eq_some {bytes : List.Vector UInt8 32} {scalar : Scalar}
    (hscalar : Scalar.from_be_bytes bytes = some scalar) : scalar.to_be_bytes = bytes := by
  simp only [Scalar.from_be_bytes] at hscalar
  split at hscalar
  · cases hscalar
    exact std.bytes.to_be_of_be bytes
  · cases hscalar

/-- A secret key is read from its own bytes and from no others. -/
theorem SecretKey.from_slice_eq_ok_iff {bytes : List UInt8} {key : SecretKey} :
    SecretKey.from_slice bytes = .ok key ↔ bytes = key.secret_bytes.toList := by
  constructor
  · intro hkey
    simp only [SecretKey.from_slice] at hkey
    split at hkey
    · split at hkey
      · rename_i scalar hscalar
        split at hkey
        · cases hkey
          rw [SecretKey.secret_bytes, Scalar.from_be_bytes_eq_some hscalar]
          rfl
        · cases hkey
      · cases hkey
    · cases hkey
  · rintro rfl
    have hlength := key.secret_bytes.toList_length
    have hscalar : Scalar.from_be_bytes ⟨key.secret_bytes.toList, hlength⟩ = some key.scalar :=
      Scalar.from_be_bytes_to_be_bytes key.scalar
    simp only [SecretKey.from_slice, hlength, dite_true, hscalar]
    exact dif_pos key.ne_zero

theorem Api.x_only_from_slice_eq_some_iff {api : Api} {bytes : List UInt8}
    {key : XOnlyPublicKey} :
    api.x_only_from_slice bytes = some key ↔ bytes = key.bytes.toList ∧
      api.is_x_coordinate key.bytes := by
  constructor
  · intro hkey
    simp only [Api.x_only_from_slice] at hkey
    split_ifs at hkey with hlength hpoint
    cases hkey
    exact ⟨rfl, hpoint⟩
  · rintro ⟨rfl, hpoint⟩
    simp only [Api.x_only_from_slice]
    rw [dif_pos key.bytes.toList_length]
    exact if_pos hpoint

end secp256k1

namespace wallet.keys_file

/-- The bytes of `SPKF`. -/
def MAGIC : List UInt8 := [0x53, 0x50, 0x4b, 0x46]
abbrev KEY_LEN : Nat := 32
abbrev TAG_LEN : Nat := 1
abbrev FILE_LEN : Nat := 4 + KEY_LEN + TAG_LEN + KEY_LEN

def SPEND_TAG_SECRET : UInt8 := 0
def SPEND_TAG_XONLY_PUB : UInt8 := 1

inductive KeysFileError where
  | BadMagic
  | WrongLength (expected actual : Nat)
  | UnknownSpendTag (tag : UInt8)
  | InvalidKey (e : secp256k1.SecpError)
deriving DecidableEq

/-- The tag and the bytes of a spend key. -/
def encode_spend_key : SpendKey → List UInt8
  | .Secret sk => SPEND_TAG_SECRET :: sk.secret_bytes.toList
  | .XOnlyPublic pk => SPEND_TAG_XONLY_PUB :: pk.bytes.toList

def to_bytes (self : SilentPaymentKeysFile) : List UInt8 :=
  MAGIC ++ self.scan_key.secret_bytes.toList ++ encode_spend_key self.spend_key

/-- The spend key by its tag. -/
def decode_spend_key (secpInst : secp256k1.Api) (tag : UInt8) (spend_bytes : List UInt8) :
    Except KeysFileError SpendKey :=
  if tag = SPEND_TAG_SECRET then
    match SecretKey.from_slice spend_bytes with
    | .ok sk => .ok (.Secret sk)
    | .error e => .error (.InvalidKey e)
  else if tag = SPEND_TAG_XONLY_PUB then
    match secpInst.x_only_from_slice spend_bytes with
    | some pk => .ok (.XOnlyPublic pk)
    | none => .error (.InvalidKey .InvalidPublicKey)
  else .error (.UnknownSpendTag tag)

def from_bytes (secpInst : secp256k1.Api) (bytes : List UInt8) :
    Except KeysFileError SilentPaymentKeysFile :=
  if hlength : bytes.length = FILE_LEN then
    if bytes.take MAGIC.length ≠ MAGIC then .error .BadMagic else
    let body := bytes.drop MAGIC.length
    match SecretKey.from_slice (body.take KEY_LEN) with
    | .error e => .error (.InvalidKey e)
    | .ok scan_key => do
      have hbody : KEY_LEN < body.length := by simp [body, hlength, MAGIC, FILE_LEN, KEY_LEN, TAG_LEN]
      let tag := body[KEY_LEN]
      let spend_bytes := body.drop (KEY_LEN + TAG_LEN)
      let spend_key ← decode_spend_key secpInst tag spend_bytes
      return { scan_key, spend_key }
  else .error (.WrongLength FILE_LEN bytes.length)

/-- An x-only spend key is a point of the curve. -/
def OnCurve (secpInst : secp256k1.Api) : SpendKey → Prop
  | .Secret _ => True
  | .XOnlyPublic pk => secpInst.is_x_coordinate pk.bytes

theorem length_to_bytes (file : SilentPaymentKeysFile) : (to_bytes file).length = FILE_LEN := by
  obtain ⟨scan_key, spend_key⟩ := file
  cases spend_key <;> simp [to_bytes, encode_spend_key, MAGIC, FILE_LEN, KEY_LEN, TAG_LEN]

/-- The parts of a file of the right length. -/
theorem from_bytes_append (secpInst : secp256k1.Api) {scan spend_bytes : List UInt8} (tag : UInt8)
    (hscan : scan.length = KEY_LEN) (hspend : spend_bytes.length = KEY_LEN) :
    from_bytes secpInst (MAGIC ++ scan ++ tag :: spend_bytes) =
      match SecretKey.from_slice scan with
      | .error e => .error (.InvalidKey e)
      | .ok scan_key => do
        let spend_key ← decode_spend_key secpInst tag spend_bytes
        return { scan_key, spend_key } := by
  have hlength : (MAGIC ++ scan ++ tag :: spend_bytes).length = FILE_LEN := by
    simp [hscan, hspend, MAGIC, FILE_LEN, KEY_LEN, TAG_LEN]
  have hbody : (MAGIC ++ scan ++ tag :: spend_bytes).drop MAGIC.length =
      scan ++ tag :: spend_bytes := by
    rw [List.append_assoc, List.drop_left]
  have hmagic : (MAGIC ++ scan ++ tag :: spend_bytes).take MAGIC.length = MAGIC := by
    rw [List.append_assoc, List.take_left]
  have hkey : (scan ++ tag :: spend_bytes).take KEY_LEN = scan := by rw [← hscan, List.take_left]
  have hrest : (scan ++ tag :: spend_bytes).drop (KEY_LEN + TAG_LEN) = spend_bytes := by
    rw [← hscan, ← List.drop_drop, List.drop_left]
    rfl
  simp only [from_bytes, hlength, dite_true, hmagic, ne_eq, not_true_eq_false, if_false, hbody,
    hkey, hrest]
  simp [← hscan]

theorem decode_spend_key_eq_ok_iff {secpInst : secp256k1.Api} {tag : UInt8}
    {spend_bytes : List UInt8} {spend_key : SpendKey} :
    decode_spend_key secpInst tag spend_bytes = .ok spend_key ↔
      tag :: spend_bytes = encode_spend_key spend_key ∧ OnCurve secpInst spend_key := by
  constructor
  · intro hkey
    simp only [decode_spend_key] at hkey
    split at hkey
    · rename_i htag
      split at hkey
      · rename_i sk hsk
        cases hkey
        rw [htag, SecretKey.from_slice_eq_ok_iff.mp hsk]
        exact ⟨rfl, trivial⟩
      · cases hkey
    · split at hkey
      · rename_i htag
        split at hkey
        · rename_i pk hpk
          cases hkey
          obtain ⟨rfl, hpoint⟩ := Api.x_only_from_slice_eq_some_iff.mp hpk
          exact ⟨by rw [htag]; rfl, hpoint⟩
        · cases hkey
      · cases hkey
  · rintro ⟨hbytes, hpoint⟩
    cases spend_key with
    | Secret sk =>
      cases hbytes
      simp only [decode_spend_key, if_true, SecretKey.from_slice_eq_ok_iff.mpr rfl]
    | XOnlyPublic pk =>
      cases hbytes
      have hpk := Api.x_only_from_slice_eq_some_iff.mpr ⟨rfl, hpoint⟩
      have htag : SPEND_TAG_XONLY_PUB ≠ SPEND_TAG_SECRET := by decide
      simp only [decode_spend_key, htag, if_false, if_true, hpk]

/-- A file of the right length with the magic bytes has the other parts. -/
theorem exists_parts {bytes : List UInt8} (hlength : bytes.length = FILE_LEN)
    (hmagic : bytes.take MAGIC.length = MAGIC) : ∃ scan tag spend_bytes,
      bytes = MAGIC ++ scan ++ tag :: spend_bytes ∧ scan.length = KEY_LEN ∧
      spend_bytes.length = KEY_LEN := by
  have hbody : (bytes.drop MAGIC.length).length = 65 := by
    simp [hlength, MAGIC, FILE_LEN, KEY_LEN, TAG_LEN]
  have hlt : KEY_LEN < (bytes.drop MAGIC.length).length := by
    rw [hbody]
    decide
  refine ⟨(bytes.drop MAGIC.length).take KEY_LEN, (bytes.drop MAGIC.length)[KEY_LEN],
    (bytes.drop MAGIC.length).drop (KEY_LEN + TAG_LEN), ?_, ?_, ?_⟩
  · rw [← List.drop_eq_getElem_cons hlt, List.append_assoc, List.take_append_drop]
    nth_rewrite 1 [← hmagic]
    exact (List.take_append_drop ..).symm
  · rw [List.length_take, hbody]
    rfl
  · rw [List.length_drop, hbody]
    rfl

/-- A keys file is accepted exactly where it is what a save of its keys writes. -/
theorem from_bytes_eq_ok_iff {secpInst : secp256k1.Api} {bytes : List UInt8}
    {file : SilentPaymentKeysFile} :
    from_bytes secpInst bytes = .ok file ↔
      bytes = to_bytes file ∧ OnCurve secpInst file.spend_key := by
  constructor
  · intro hfile
    have hlength : bytes.length = FILE_LEN := by
      by_contra hlength
      simp only [from_bytes, hlength, dite_false] at hfile
      cases hfile
    have hmagic : bytes.take MAGIC.length = MAGIC := by
      by_contra hmagic
      simp only [from_bytes, hlength, dite_true, hmagic, ne_eq, not_false_iff, if_true] at hfile
      cases hfile
    obtain ⟨scan, tag, spend_bytes, rfl, hscan, hspend⟩ := exists_parts hlength hmagic
    rw [from_bytes_append secpInst tag hscan hspend] at hfile
    split at hfile
    · cases hfile
    · rename_i scan_key hkey
      obtain ⟨spend_key, hspend_key, hfile⟩ := std.result.bind_eq_ok_iff.mp hfile
      cases hfile
      obtain ⟨hbytes, hpoint⟩ := decode_spend_key_eq_ok_iff.mp hspend_key
      rw [hbytes, SecretKey.from_slice_eq_ok_iff.mp hkey]
      exact ⟨rfl, hpoint⟩
  · rintro ⟨rfl, hpoint⟩
    obtain ⟨scan_key, spend_key⟩ := file
    obtain ⟨tag, spend_bytes, hparts, hspend⟩ : ∃ tag spend_bytes,
        encode_spend_key spend_key = tag :: spend_bytes ∧ spend_bytes.length = KEY_LEN := by
      cases spend_key with
      | Secret sk => exact ⟨_, _, rfl, sk.secret_bytes.toList_length⟩
      | XOnlyPublic pk => exact ⟨_, _, rfl, pk.bytes.toList_length⟩
    have hdecode := decode_spend_key_eq_ok_iff.mpr ⟨hparts.symm, hpoint⟩
    rw [to_bytes, hparts, from_bytes_append secpInst tag scan_key.secret_bytes.toList_length hspend,
      SecretKey.from_slice_eq_ok_iff.mpr rfl]
    simp only [hdecode]
    rfl

/-- A save refuses to overwrite, and a load fails where there is no file. -/
def save (path : String) (file : SilentPaymentKeysFile) : List (Op String) :=
  write_new path (to_bytes file)

def load (secpInst : secp256k1.Api) (path : String) (disk : Disk String) :
    Option (Except KeysFileError SilentPaymentKeysFile) :=
  (disk.read path).map (from_bytes secpInst)

/-- The disk and every keys file that a save was called with. -/
structure KeysState where
  disk : Disk String
  saved : List SilentPaymentKeysFile

inductive KeysStep (secpInst : secp256k1.Api) (path : String) : KeysState →
    SilentPaymentKeysFile × Outcome → KeysState → Prop where
  | save {state : KeysState} {file : SilentPaymentKeysFile} {outcome : Outcome}
      {after : Disk String} (hpoint : OnCurve secpInst file.spend_key)
      (hexec : Exec state.disk (save path file) outcome after) :
      KeysStep secpInst path state (file, outcome) ⟨after, file :: state.saved⟩

/-- Saves that may fail or be killed, from a disk without the file. -/
def keys_system (secpInst : secp256k1.Api) (path : String) :
    System KeysState (SilentPaymentKeysFile × Outcome) where
  init state := state = ⟨.empty, []⟩
  step := KeysStep secpInst path

/-- There is no file, or a part of one that was saved. -/
def KeysState.Sound (secpInst : secp256k1.Api) (path : String) (state : KeysState) : Prop :=
  state.disk.dir path = none ∨ ∃ file ∈ state.saved, OnCurve secpInst file.spend_key ∧
    ∃ part, part <+: to_bytes file ∧ state.disk.read path = some part

section

variable {secpInst : secp256k1.Api} {path : String} {state next : KeysState}

theorem dir_of_read {disk : Disk String} {bytes : List UInt8} (hread : disk.read path = some bytes) :
    disk.dir path ≠ none := by
  intro hnone
  simp [Disk.read, Disk.inode, hnone] at hread

theorem KeysStep.sound {label : SilentPaymentKeysFile × Outcome}
    (hsound : state.Sound secpInst path) (hstep : KeysStep secpInst path state label next) :
    next.Sound secpInst path := by
  cases hstep with
  | @save file outcome after hpoint hexec =>
    rcases triple_write_new state.disk path _ _ _ _ rfl hexec with
      ⟨rfl, _⟩ | ⟨_, part, hpart, hread, _⟩
    · exact hsound.imp_right fun ⟨saved, hmem, hfile⟩ =>
        ⟨saved, List.mem_cons_of_mem _ hmem, hfile⟩
    · exact .inr ⟨file, List.mem_cons_self, hpoint, part, hpart, hread⟩

/-- A file that is there stays as it is. -/
theorem KeysStep.read_eq {label : SilentPaymentKeysFile × Outcome} {bytes : List UInt8}
    (hread : state.disk.read path = some bytes) (hstep : KeysStep secpInst path state label next) :
    next.disk.read path = some bytes := by
  cases hstep with
  | save _ hexec =>
    rcases triple_write_new state.disk path _ _ _ _ rfl hexec with ⟨rfl, _⟩ | ⟨hfree, _⟩
    · exact hread
    · exact absurd hfree (dir_of_read hread)

/-- A part of a saved file is the whole file or has the wrong length. -/
theorem from_bytes_part {file : SilentPaymentKeysFile} (hpoint : OnCurve secpInst file.spend_key)
    {part : List UInt8} (hpart : part <+: to_bytes file) :
    from_bytes secpInst part = .ok file ∨
      (part.length < FILE_LEN ∧
        from_bytes secpInst part = .error (.WrongLength FILE_LEN part.length)) := by
  have hlength := length_to_bytes file
  rcases hpart.length_le.eq_or_lt with heq | hlt
  · rw [hpart.eq_of_length heq]
    exact .inl (from_bytes_eq_ok_iff.mpr ⟨rfl, hpoint⟩)
  · rw [hlength] at hlt
    exact .inr ⟨hlt, by simp only [from_bytes, hlt.ne, dite_false]⟩

theorem keys_sound (hreach : (keys_system secpInst path).Reachable state) :
    state.Sound secpInst path := by
  refine hreach.invariant (P := KeysState.Sound secpInst path) ?_ fun _ _ _ hsound hstep =>
    KeysStep.sound hsound hstep
  rintro _ rfl
  exact .inl rfl

end

/-- A keys file that is there is never changed, whatever is saved to its path
    later. At any time it is missing, refused for its length, or holds the keys of
    a save; and a save that reports success is the one that loads. -/
theorem keys_file_kept (secpInst : secp256k1.Api) (path : String) {state : KeysState}
    (hreach : (keys_system secpInst path).Reachable state) :
    (load secpInst path state.disk = none ∨
      (∃ actual < FILE_LEN, load secpInst path state.disk =
        some (.error (.WrongLength FILE_LEN actual))) ∨
      ∃ file ∈ state.saved, load secpInst path state.disk = some (.ok file)) ∧
    (∀ labels later bytes, (keys_system secpInst path).Run state labels later →
      state.disk.read path = some bytes → later.disk.read path = some bytes) ∧
    ∀ file next, KeysStep secpInst path state (file, .ok) next →
      load secpInst path next.disk = some (.ok file) := by
  refine ⟨?_, ?_, ?_⟩
  · rcases keys_sound hreach with hnone | ⟨file, hmem, hpoint, part, hpart, hread⟩
    · exact .inl (by simp [load, Disk.read, Disk.inode, hnone])
    · right
      rw [load, hread, Option.map_some]
      rcases from_bytes_part hpoint hpart with hfile | ⟨hlt, herror⟩
      · exact .inr ⟨file, hmem, by rw [hfile]⟩
      · exact .inl ⟨part.length, hlt, by rw [herror]⟩
  · intro labels later bytes hrun hread
    refine hrun.preserves (P := fun state => state.disk.read path = some bytes) ?_ hread
    exact fun _ _ _ hread hstep => KeysStep.read_eq hread hstep
  · intro file next hstep
    cases hstep with
    | save hpoint hexec =>
      rcases triple_write_new state.disk path _ _ _ _ rfl hexec with
        ⟨_, hfailed⟩ | ⟨_, part, _, hread, hall⟩
      · exact absurd rfl hfailed
      · rw [load, hread, hall rfl, Option.map_some, from_bytes_eq_ok_iff.mpr ⟨rfl, hpoint⟩]

def first_keys : SilentPaymentKeysFile := ⟨regtest.scan_key, .Secret regtest.spend_secret⟩

def keys_disk : Disk String :=
  (Disk.empty.create "keys").append "keys" (to_bytes first_keys)

/-- Keys are saved, and other keys are refused. -/
theorem keys_file_kept_second_save :
    (keys_system regtest.secp "keys").Reachable
      ⟨keys_disk, [⟨regtest.spend_secret, .Secret regtest.scan_key⟩, first_keys]⟩ ∧
    load regtest.secp "keys" keys_disk = some (.ok first_keys) := by
  have hempty : (keys_system regtest.secp "keys").Reachable ⟨.empty, []⟩ := .of_init rfl
  have hfirst : KeysStep regtest.secp "keys" ⟨.empty, []⟩ (first_keys, .ok)
      ⟨keys_disk, [first_keys]⟩ :=
    .save trivial (.next (.create_new rfl) (.next .write_all .nil))
  have hsecond : KeysStep regtest.secp "keys" ⟨keys_disk, [first_keys]⟩
      (⟨regtest.spend_secret, .Secret regtest.scan_key⟩, .error)
      ⟨keys_disk, [⟨regtest.spend_secret, .Secret regtest.scan_key⟩, first_keys]⟩ :=
    .save trivial (.stop .failed (by decide))
  exact ⟨(hempty.step hfirst).step hsecond, (keys_file_kept _ _ hempty).2.2 _ _ hfirst⟩

end wallet.keys_file
