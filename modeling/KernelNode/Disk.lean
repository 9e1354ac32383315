import Mathlib.Data.List.Infix
import Mathlib.Logic.Function.Basic

namespace disk

/-- The content of a file, and whether all of it has reached the device. -/
structure Inode where
  content : List UInt8
  synced : Bool

/-- A file system as a process sees it. Changes of the directory reach the device
    in their order but at any later time, so that a power loss may bring back one
    of the `older` directories. -/
structure Disk (P : Type) where
  inodes : List Inode
  dir : P → Option Nat
  older : List (P → Option Nat)

inductive Op (P : Type) where
  | create (path : P)
  | create_new (path : P)
  | write_all (path : P) (bytes : List UInt8)
  | sync_data (path : P)
  | rename (source target : P)

/-- How a sequence of operations ends: completed, stopped at the first error, or
    cut off together with its process. -/
inductive Outcome where
  | ok
  | error
  | killed
deriving DecidableEq

namespace Disk

variable {P : Type}

def empty : Disk P := ⟨[], fun _ => none, []⟩

/-- Every directory that the device may hold. -/
def versions (self : Disk P) : List (P → Option Nat) := self.dir :: self.older

def inode (self : Disk P) (path : P) : Option Inode :=
  (self.dir path).bind fun number => self.inodes[number]?

def read (self : Disk P) (path : P) : Option (List UInt8) :=
  (self.inode path).map Inode.content

def modify (self : Disk P) (path : P) (f : Inode → Inode) : Disk P :=
  match self.dir path with
  | some number => { self with inodes := self.inodes.modify number f }
  | none => self

/-- Append to a file that is open for writing. -/
def append (self : Disk P) (path : P) (bytes : List UInt8) : Disk P :=
  self.modify path fun inode => ⟨inode.content ++ bytes, false⟩

def sync (self : Disk P) (path : P) : Disk P :=
  self.modify path fun inode => { inode with synced := true }

variable [DecidableEq P]

/-- Enter a new empty file. -/
def link (self : Disk P) (path : P) : Disk P where
  inodes := self.inodes ++ [⟨[], false⟩]
  dir := Function.update self.dir path (some self.inodes.length)
  older := self.versions

/-- Open for writing: a file that exists is truncated. -/
def create (self : Disk P) (path : P) : Disk P :=
  match self.dir path with
  | some _ => self.modify path fun _ => ⟨[], false⟩
  | none => self.link path

/-- Replace the target by the source. -/
def rename (self : Disk P) (source target : P) : Disk P :=
  { self with
    dir := Function.update (Function.update self.dir target (self.dir source)) source none
    older := self.versions }

end Disk

section

variable {P : Type} [DecidableEq P]

/-- The effect of one operation. A write that does not complete leaves a part of
    its bytes; any other operation takes effect as a whole or not at all. -/
inductive OpStep (before : Disk P) : Op P → Outcome → Disk P → Prop where
  | create {path : P} : OpStep before (.create path) .ok (before.create path)
  | create_new {path : P} (hfree : before.dir path = none) :
      OpStep before (.create_new path) .ok (before.create path)
  | write_all {path : P} {bytes : List UInt8} :
      OpStep before (.write_all path bytes) .ok (before.append path bytes)
  | write_part {path : P} {bytes part : List UInt8} {outcome : Outcome} (hpart : part <+: bytes)
      (hstop : outcome ≠ .ok) :
      OpStep before (.write_all path bytes) outcome (before.append path part)
  | sync_data {path : P} : OpStep before (.sync_data path) .ok (before.sync path)
  | rename {source target : P} :
      OpStep before (.rename source target) .ok (before.rename source target)
  | failed {op : Op P} : OpStep before op .error before

/-- A sequence of operations, each of which runs where the one before succeeded.
    The process may be killed between any two. -/
inductive Exec : Disk P → List (Op P) → Outcome → Disk P → Prop where
  | nil {before : Disk P} : Exec before [] .ok before
  | killed {before : Disk P} {ops : List (Op P)} : Exec before ops .killed before
  | next {before between after : Disk P} {op : Op P} {ops : List (Op P)} {outcome : Outcome}
      (hop : OpStep before op .ok between) (hrest : Exec between ops outcome after) :
      Exec before (op :: ops) outcome after
  | stop {before after : Disk P} {op : Op P} {ops : List (Op P)} {outcome : Outcome}
      (hop : OpStep before op outcome after) (hstop : outcome ≠ .ok) :
      Exec before (op :: ops) outcome after

/-- From `pre`, a sequence ends in `post` however it ends. -/
def Triple (pre : Disk P → Prop) (ops : List (Op P)) (post : Outcome → Disk P → Prop) : Prop :=
  ∀ before outcome after, pre before → Exec before ops outcome after → post outcome after

theorem Triple.nil {pre : Disk P → Prop} {post : Outcome → Disk P → Prop}
    (hok : ∀ disk, pre disk → post .ok disk) (hkilled : ∀ disk, pre disk → post .killed disk) :
    Triple pre [] post := by
  intro before outcome after hpre hexec
  cases hexec with
  | nil => exact hok _ hpre
  | killed => exact hkilled _ hpre

/-- The rule for one more operation: it either establishes what the rest needs or
    ends the sequence. -/
theorem Triple.cons {pre between : Disk P → Prop} {op : Op P} {ops : List (Op P)}
    {post : Outcome → Disk P → Prop} (hkilled : ∀ disk, pre disk → post .killed disk)
    (hok : ∀ before after, pre before → OpStep before op .ok after → between after)
    (hstop : ∀ before outcome after, pre before → outcome ≠ .ok →
      OpStep before op outcome after → post outcome after)
    (hrest : Triple between ops post) : Triple pre (op :: ops) post := by
  intro before outcome after hpre hexec
  cases hexec with
  | killed => exact hkilled _ hpre
  | next hop hexec => exact hrest _ _ _ (hok _ _ hpre hop) hexec
  | stop hop hne => exact hstop _ _ _ hpre hne hop

/-- The operations that replace a file by way of a temporary one, which is written in
    pieces, with or without a sync in between. -/
def replace_pieces (durable : Bool) (tmp path : P) (pieces : List (List UInt8)) : List (Op P) :=
  .create tmp :: (pieces.map (Op.write_all tmp) ++ ((if durable then [.sync_data tmp] else []) ++
    [.rename tmp path]))

/-- The same, where the file is written at once. -/
def replace (durable : Bool) (tmp path : P) (bytes : List UInt8) : List (Op P) :=
  [.create tmp, .write_all tmp bytes] ++ (if durable then [.sync_data tmp] else []) ++
    [.rename tmp path]

end

section

variable {P : Type}

/-- After a power loss the device has one of the directories and, of a file that
    was not synced, any content. -/
structure PowerLoss (before after : Disk P) : Prop where
  dir : after.dir ∈ before.versions
  older : after.older = []
  length : after.inodes.length = before.inodes.length
  inodes : ∀ (number : Nat) inode, before.inodes[number]? = some inode →
    ∃ kept, after.inodes[number]? = some kept ∧ kept.synced = true ∧
      (inode.synced = true → kept.content = inode.content)

/-- The file at `path` is complete in every directory that the device may hold,
    and the temporary file, which may be anything, is another file. -/
structure Replaced (durable : Bool) (tmp path : P) (accepted : List UInt8 → Prop)
    (disk : Disk P) : Prop where
  complete : ∀ dir ∈ disk.versions, ∀ number, dir path = some number →
    ∃ inode, disk.inodes[number]? = some inode ∧ accepted inode.content ∧
      (durable = true → inode.synced = true)
  apart : ∀ dir ∈ disk.versions, ∀ number, dir path = some number →
    dir tmp ≠ some number ∧ disk.dir tmp ≠ some number
  tmp_lt : ∀ dir ∈ disk.versions, ∀ number, dir tmp = some number → number < disk.inodes.length

theorem Replaced.empty (durable : Bool) (tmp path : P) (accepted : List UInt8 → Prop) :
    Replaced durable tmp path accepted (Disk.empty : Disk P) := by
  constructor <;> intro dir hdir number hnumber <;> cases List.mem_singleton.mp hdir <;>
    cases hnumber

variable {durable : Bool} {tmp path : P} {accepted : List UInt8 → Prop} {disk : Disk P}

theorem Replaced.mono {more : List UInt8 → Prop} (hmore : ∀ bytes, accepted bytes → more bytes)
    (hdisk : Replaced durable tmp path accepted disk) : Replaced durable tmp path more disk where
  complete dir hdir number hnumber := by
    obtain ⟨inode, hinode, haccepted, hsynced⟩ := hdisk.complete dir hdir number hnumber
    exact ⟨inode, hinode, hmore _ haccepted, hsynced⟩
  apart := hdisk.apart
  tmp_lt := hdisk.tmp_lt

/-- The file that a process reads is complete. -/
theorem Replaced.accepted_of_read (hdisk : Replaced durable tmp path accepted disk)
    {bytes : List UInt8} (hread : disk.read path = some bytes) : accepted bytes := by
  obtain ⟨inode, hinode, rfl⟩ := Option.map_eq_some_iff.mp hread
  obtain ⟨number, hnumber, hfile⟩ := Option.bind_eq_some_iff.mp hinode
  obtain ⟨other, hother, haccepted, _⟩ :=
    hdisk.complete disk.dir List.mem_cons_self number hnumber
  obtain rfl := Option.some.inj (hfile.symm.trans hother)
  exact haccepted

theorem Disk.dir_modify (f : Inode → Inode) : (disk.modify tmp f).dir = disk.dir := by
  simp only [Disk.modify]
  split <;> rfl

theorem Disk.versions_modify (f : Inode → Inode) :
    (disk.modify tmp f).versions = disk.versions := by
  simp only [Disk.modify]
  split <;> rfl

theorem Disk.length_inodes_modify (f : Inode → Inode) :
    (disk.modify tmp f).inodes.length = disk.inodes.length := by
  simp only [Disk.modify]
  split
  · exact List.length_modify ..
  · rfl

/-- A modification leaves every other file as it is. -/
theorem Disk.getElem?_inodes_modify {f : Inode → Inode} {number : Nat}
    (hother : disk.dir tmp ≠ some number) :
    (disk.modify tmp f).inodes[number]? = disk.inodes[number]? := by
  simp only [Disk.modify]
  split
  · rename_i other hother'
    exact List.getElem?_modify_ne f _ fun heq => hother (heq ▸ hother')
  · rfl

theorem Disk.inode_modify (f : Inode → Inode) :
    (disk.modify tmp f).inode tmp = (disk.inode tmp).map f := by
  rw [Disk.inode, Disk.dir_modify, Disk.inode]
  cases hdir : disk.dir tmp with
  | none => rfl
  | some number => simp [Disk.modify, hdir]

theorem Replaced.modify (hdisk : Replaced durable tmp path accepted disk) (f : Inode → Inode) :
    Replaced durable tmp path accepted (disk.modify tmp f) where
  complete dir hdir number hnumber := by
    rw [Disk.versions_modify] at hdir
    rw [Disk.getElem?_inodes_modify (hdisk.apart dir hdir number hnumber).2]
    exact hdisk.complete dir hdir number hnumber
  apart dir hdir number hnumber := by
    rw [Disk.versions_modify] at hdir
    rw [Disk.dir_modify]
    exact hdisk.apart dir hdir number hnumber
  tmp_lt dir hdir number hnumber := by
    rw [Disk.versions_modify] at hdir
    rw [Disk.length_inodes_modify]
    exact hdisk.tmp_lt dir hdir number hnumber

theorem Replaced.read_modify (hdisk : Replaced durable tmp path accepted disk)
    (f : Inode → Inode) : (disk.modify tmp f).read path = disk.read path := by
  rw [Disk.read, Disk.inode, Disk.dir_modify, Disk.read, Disk.inode]
  cases hdir : disk.dir path with
  | none => rfl
  | some number =>
    rw [Option.bind_some, Option.bind_some, Disk.getElem?_inodes_modify
      (hdisk.apart disk.dir List.mem_cons_self number hdir).2]

theorem Replaced.path_lt (hdisk : Replaced durable tmp path accepted disk) {dir : P → Option Nat}
    (hdir : dir ∈ disk.versions) {number : Nat} (hnumber : dir path = some number) :
    number < disk.inodes.length := by
  obtain ⟨inode, hinode, _⟩ := hdisk.complete dir hdir number hnumber
  exact (List.getElem?_eq_some_iff.mp hinode).1

/-- A complete file survives a power loss where it has been synced. -/
theorem Replaced.power_loss {after : Disk P} (hdisk : Replaced true tmp path accepted disk)
    (hloss : PowerLoss disk after) : Replaced true tmp path accepted after := by
  have hversions : ∀ dir ∈ after.versions, dir = after.dir := by
    intro dir hdir
    rw [Disk.versions, hloss.older] at hdir
    exact List.mem_singleton.mp hdir
  constructor
  · intro dir hdir number hnumber
    obtain rfl := hversions dir hdir
    obtain ⟨inode, hinode, haccepted, hsynced⟩ :=
      hdisk.complete after.dir hloss.dir number hnumber
    obtain ⟨kept, hkept, hdurable, hcontent⟩ := hloss.inodes number inode hinode
    exact ⟨kept, hkept, by rwa [hcontent (hsynced rfl)], fun _ => hdurable⟩
  · intro dir hdir number hnumber
    obtain rfl := hversions dir hdir
    have hapart := (hdisk.apart after.dir hloss.dir number hnumber).1
    exact ⟨hapart, hapart⟩
  · intro dir hdir number hnumber
    obtain rfl := hversions dir hdir
    rw [hloss.length]
    exact hdisk.tmp_lt after.dir hloss.dir number hnumber

end

section

variable {P : Type} [DecidableEq P] {durable : Bool} {tmp path : P} {accepted : List UInt8 → Prop}
    {disk : Disk P}

theorem Disk.inode_link : (disk.link tmp).inode tmp = some ⟨[], false⟩ := by
  simp [Disk.inode, Disk.link]

/-- A new temporary file gets a number that is not in use. -/
theorem Replaced.link (hdisk : Replaced durable tmp path accepted disk) (hne : tmp ≠ path) :
    Replaced durable tmp path accepted (disk.link tmp) ∧
      (disk.link tmp).read path = disk.read path := by
  have hpath : (disk.link tmp).dir path = disk.dir path := Function.update_of_ne hne.symm _ _
  have htmp : (disk.link tmp).dir tmp = some disk.inodes.length := Function.update_self ..
  have hkept : ∀ number < disk.inodes.length,
      (disk.link tmp).inodes[number]? = disk.inodes[number]? := fun number hlt =>
    List.getElem?_append_left hlt
  refine ⟨⟨?_, ?_, ?_⟩, ?_⟩
  · intro dir hdir number hnumber
    rcases List.mem_cons.mp hdir with rfl | hdir
    · rw [hpath] at hnumber
      rw [hkept number (hdisk.path_lt List.mem_cons_self hnumber)]
      exact hdisk.complete disk.dir List.mem_cons_self number hnumber
    · rw [hkept number (hdisk.path_lt hdir hnumber)]
      exact hdisk.complete dir hdir number hnumber
  · intro dir hdir number hnumber
    have hfresh : number < disk.inodes.length → (disk.link tmp).dir tmp ≠ some number := by
      intro hlt heq
      rw [htmp, Option.some.injEq] at heq
      omega
    rcases List.mem_cons.mp hdir with rfl | hdir
    · rw [hpath] at hnumber
      have hapart := hfresh (hdisk.path_lt List.mem_cons_self hnumber)
      exact ⟨hapart, hapart⟩
    · exact ⟨(hdisk.apart dir hdir number hnumber).1, hfresh (hdisk.path_lt hdir hnumber)⟩
  · intro dir hdir number hnumber
    have hlength : (disk.link tmp).inodes.length = disk.inodes.length + 1 := List.length_append ..
    rcases List.mem_cons.mp hdir with rfl | hdir
    · rw [htmp, Option.some.injEq] at hnumber
      omega
    · have hlt := hdisk.tmp_lt dir hdir number hnumber
      omega
  · rw [Disk.read, Disk.inode, hpath, Disk.read, Disk.inode]
    cases hnumber : disk.dir path with
    | none => rfl
    | some number =>
      rw [Option.bind_some, Option.bind_some,
        hkept number (hdisk.path_lt List.mem_cons_self hnumber)]

/-- Opening the temporary file leaves an empty one. -/
theorem Replaced.create (hdisk : Replaced durable tmp path accepted disk) (hne : tmp ≠ path) :
    Replaced durable tmp path accepted (disk.create tmp) ∧
      (disk.create tmp).inode tmp = some ⟨[], false⟩ ∧
      (disk.create tmp).read path = disk.read path := by
  cases hdir : disk.dir tmp with
  | some number =>
    have hlt := hdisk.tmp_lt disk.dir List.mem_cons_self number hdir
    simp only [Disk.create, hdir]
    refine ⟨hdisk.modify _, ?_, hdisk.read_modify _⟩
    rw [Disk.inode_modify, Disk.inode, hdir, Option.bind_some, List.getElem?_eq_getElem hlt]
    rfl
  | none =>
    obtain ⟨hlink, hread⟩ := hdisk.link hne
    simp only [Disk.create, hdir]
    exact ⟨hlink, Disk.inode_link, hread⟩

/-- Renaming a complete temporary file makes it the file. -/
theorem Replaced.rename (hdisk : Replaced durable tmp path accepted disk) (hne : tmp ≠ path)
    {bytes : List UInt8} {synced : Bool} (hinode : disk.inode tmp = some ⟨bytes, synced⟩)
    (haccepted : accepted bytes) (hdurable : durable = true → synced = true) :
    Replaced durable tmp path accepted (disk.rename tmp path) ∧
      (disk.rename tmp path).read path = some bytes := by
  obtain ⟨number, hnumber, hfile⟩ := Option.bind_eq_some_iff.mp hinode
  have hpath : Function.update (Function.update disk.dir path (disk.dir tmp)) tmp none path =
      some number := by
    rw [Function.update_of_ne hne.symm, Function.update_self, hnumber]
  refine ⟨⟨?_, ?_, ?_⟩, ?_⟩
  · intro dir hdir other hother
    rcases List.mem_cons.mp hdir with rfl | hdir
    · obtain rfl := Option.some.inj (hpath.symm.trans hother)
      exact ⟨_, hfile, haccepted, hdurable⟩
    · exact hdisk.complete dir hdir other hother
  · intro dir hdir other hother
    have htmp : (disk.rename tmp path).dir tmp ≠ some other := by simp [Disk.rename]
    rcases List.mem_cons.mp hdir with rfl | hdir
    · exact ⟨htmp, htmp⟩
    · exact ⟨(hdisk.apart dir hdir other hother).1, htmp⟩
  · intro dir hdir other hother
    rcases List.mem_cons.mp hdir with rfl | hdir
    · simp [Disk.rename] at hother
    · exact hdisk.tmp_lt dir hdir other hother
  · simp only [Disk.read, Disk.inode, Disk.rename, hpath, Option.bind_some, hfile, Option.map_some]

/-- What a replacement leaves at `path`: the new bytes, the old ones where it
    failed, and either where it was cut off. -/
def Ends (old : Option (List UInt8)) (bytes : List UInt8) (path : P) (outcome : Outcome)
    (disk : Disk P) : Prop :=
  match outcome with
  | .ok => disk.read path = some bytes
  | .error => disk.read path = old
  | .killed => disk.read path = old ∨ disk.read path = some bytes

omit [DecidableEq P] in
theorem Ends.of_old {old : Option (List UInt8)} {bytes : List UInt8} {outcome : Outcome}
    (hstop : outcome ≠ .ok) (hread : disk.read path = old) : Ends old bytes path outcome disk := by
  cases outcome with
  | ok => exact absurd rfl hstop
  | error => exact hread
  | killed => exact .inl hread

/-- The file as it was, and the temporary file with some content. -/
structure Staged (durable : Bool) (tmp path : P) (accepted : List UInt8 → Prop)
    (old : Option (List UInt8)) (content : List UInt8) (synced : Bool) (disk : Disk P) : Prop where
  replaced : Replaced durable tmp path accepted disk
  read : disk.read path = old
  inode : disk.inode tmp = some ⟨content, synced⟩

section

variable {old : Option (List UInt8)} {bytes : List UInt8}

theorem triple_rename (hne : tmp ≠ path) (haccepted : accepted bytes) {synced : Bool}
    (hdurable : durable = true → synced = true) :
    Triple (Staged durable tmp path accepted old bytes synced) [.rename tmp path]
      fun outcome disk => Replaced durable tmp path accepted disk ∧
        Ends old bytes path outcome disk := by
  have hdone : Triple (fun disk => Replaced durable tmp path accepted disk ∧
      disk.read path = some bytes) [] fun outcome disk =>
        Replaced durable tmp path accepted disk ∧ Ends old bytes path outcome disk :=
    Triple.nil (fun disk h => h) fun disk h => ⟨h.1, .inr h.2⟩
  refine Triple.cons ?_ ?_ ?_ hdone
  · exact fun disk hpre => ⟨hpre.replaced, .inl hpre.read⟩
  · intro before after hpre hop
    cases hop
    exact hpre.replaced.rename hne hpre.inode haccepted hdurable
  · intro before outcome after hpre hstop hop
    cases hop with
    | failed => exact ⟨hpre.replaced, hpre.read⟩
    | rename => exact absurd rfl hstop

theorem triple_sync_rename (hne : tmp ≠ path) (haccepted : accepted bytes) {synced : Bool} :
    Triple (Staged durable tmp path accepted old bytes synced) [.sync_data tmp, .rename tmp path]
      fun outcome disk => Replaced durable tmp path accepted disk ∧
        Ends old bytes path outcome disk := by
  refine Triple.cons ?_ ?_ ?_ (triple_rename hne haccepted fun _ => rfl)
  · exact fun disk hpre => ⟨hpre.replaced, .inl hpre.read⟩
  · intro before after hpre hop
    cases hop
    refine ⟨hpre.replaced.modify _, (hpre.replaced.read_modify _).trans hpre.read, ?_⟩
    rw [Disk.sync, Disk.inode_modify, hpre.inode]
    rfl
  · intro before outcome after hpre hstop hop
    cases hop with
    | failed => exact ⟨hpre.replaced, hpre.read⟩
    | sync_data => exact absurd rfl hstop

/-- The rule for writing a file in pieces. -/
theorem triple_write_pieces {rest : List (Op P)} {post : Outcome → Disk P → Prop}
    (hstop : ∀ content outcome disk, outcome ≠ .ok →
      Staged durable tmp path accepted old content false disk → post outcome disk)
    (pieces : List (List UInt8)) {content : List UInt8}
    (hrest : Triple (Staged durable tmp path accepted old (content ++ pieces.flatten) false) rest
      post) :
    Triple (Staged durable tmp path accepted old content false)
      (pieces.map (Op.write_all tmp) ++ rest) post := by
  have happend : ∀ {content : List UInt8} {disk : Disk P} (part : List UInt8),
      Staged durable tmp path accepted old content false disk →
        Staged durable tmp path accepted old (content ++ part) false (disk.append tmp part) := by
    intro content disk part hstaged
    refine ⟨hstaged.replaced.modify _, (hstaged.replaced.read_modify _).trans hstaged.read, ?_⟩
    rw [Disk.append, Disk.inode_modify, hstaged.inode]
    rfl
  induction pieces generalizing content with
  | nil => simpa using hrest
  | cons piece pieces ih =>
    rw [List.flatten_cons, ← List.append_assoc] at hrest
    refine Triple.cons ?_ ?_ ?_ (ih hrest)
    · exact fun disk hpre => hstop content .killed disk (by simp) hpre
    · intro before after hpre hop
      cases hop with
      | write_all => exact happend piece hpre
      | write_part _ hne => exact absurd rfl hne
    · intro before outcome after hpre hne hop
      cases hop with
      | failed => exact hstop content .error before (by simp) hpre
      | write_all => exact absurd rfl hne
      | write_part => exact hstop _ outcome _ hne (happend _ hpre)

/-- The rule for replacing a file: however it ends, the file is complete, and it
    is the new one where the replacement reports success. -/
theorem triple_replace_pieces (durable : Bool) (hne : tmp ≠ path) {pieces : List (List UInt8)}
    (haccepted : accepted pieces.flatten) :
    Triple (fun disk => Replaced durable tmp path accepted disk ∧ disk.read path = old)
      (replace_pieces durable tmp path pieces) fun outcome disk =>
        Replaced durable tmp path accepted disk ∧ Ends old pieces.flatten path outcome disk := by
  have hrename : Triple (Staged durable tmp path accepted old pieces.flatten false)
      ((if durable then [.sync_data tmp] else []) ++ [.rename tmp path]) fun outcome disk =>
        Replaced durable tmp path accepted disk ∧ Ends old pieces.flatten path outcome disk := by
    cases durable with
    | true => exact triple_sync_rename hne haccepted
    | false => exact triple_rename hne haccepted fun h => absurd h Bool.false_ne_true
  have hwrite : Triple (Staged durable tmp path accepted old [] false)
      (pieces.map (Op.write_all tmp) ++ ((if durable then [.sync_data tmp] else []) ++
        [.rename tmp path])) fun outcome disk =>
          Replaced durable tmp path accepted disk ∧ Ends old pieces.flatten path outcome disk :=
    triple_write_pieces (fun _ _ _ hstop hpre => ⟨hpre.replaced, .of_old hstop hpre.read⟩) pieces
      hrename
  refine Triple.cons ?_ ?_ ?_ hwrite
  · exact fun disk hpre => ⟨hpre.1, .inl hpre.2⟩
  · intro before after hpre hop
    cases hop
    obtain ⟨hcreated, hinode, hread⟩ := hpre.1.create hne
    exact ⟨hcreated, hread.trans hpre.2, hinode⟩
  · intro before outcome after hpre hstop hop
    cases hop with
    | failed => exact hpre
    | create => exact absurd rfl hstop

theorem triple_replace (durable : Bool) (hne : tmp ≠ path) (haccepted : accepted bytes) :
    Triple (fun disk => Replaced durable tmp path accepted disk ∧ disk.read path = old)
      (replace durable tmp path bytes) fun outcome disk =>
        Replaced durable tmp path accepted disk ∧ Ends old bytes path outcome disk := by
  have hflat : [bytes].flatten = bytes := List.flatten_singleton
  intro before outcome after hpre hexec
  have hsame : replace durable tmp path bytes = replace_pieces durable tmp path [bytes] := rfl
  rw [hsame] at hexec
  rw [← hflat] at haccepted
  have hpieces := triple_replace_pieces durable hne haccepted before outcome after hpre hexec
  rwa [hflat] at hpieces

end

/-- The operations that write a file which must not exist. -/
def write_new (path : P) (bytes : List UInt8) : List (Op P) :=
  [.create_new path, .write_all path bytes]

/-- What such a write leaves: a file that existed as it was, and otherwise a part
    of the bytes, which is all of them where it reports success. -/
def WrittenNew (disk : Disk P) (path : P) (bytes : List UInt8) (outcome : Outcome)
    (after : Disk P) : Prop :=
  (after = disk ∧ outcome ≠ .ok) ∨
    (disk.dir path = none ∧ ∃ part, part <+: bytes ∧ after.read path = some part ∧
      (outcome = .ok → part = bytes))

theorem Disk.read_link : (disk.link path).read path = some [] := by
  rw [Disk.read, Disk.inode_link]
  rfl

theorem Disk.read_append_link (part : List UInt8) :
    ((disk.link path).append path part).read path = some part := by
  rw [Disk.read, Disk.append, Disk.inode_modify, Disk.inode_link]
  rfl

theorem triple_write_new (disk : Disk P) (path : P) (bytes : List UInt8) :
    Triple (fun before => before = disk) (write_new path bytes)
      (WrittenNew disk path bytes) := by
  have hdone : Triple (fun after => disk.dir path = none ∧ after.read path = some bytes) []
      (WrittenNew disk path bytes) :=
    Triple.nil (fun _ h => .inr ⟨h.1, bytes, List.prefix_rfl, h.2, fun _ => rfl⟩)
      fun _ h => .inr ⟨h.1, bytes, List.prefix_rfl, h.2, fun _ => rfl⟩
  have hwrite : Triple (fun before => disk.dir path = none ∧ before = disk.link path)
      [.write_all path bytes] (WrittenNew disk path bytes) := by
    refine Triple.cons ?_ ?_ ?_ hdone
    · rintro _ ⟨hfree, rfl⟩
      exact .inr ⟨hfree, [], List.nil_prefix, Disk.read_link, by simp⟩
    · rintro _ after ⟨hfree, rfl⟩ hop
      cases hop with
      | write_all => exact ⟨hfree, Disk.read_append_link bytes⟩
      | write_part _ hstop => exact absurd rfl hstop
    · rintro _ outcome after ⟨hfree, rfl⟩ hstop hop
      cases hop with
      | write_all => exact absurd rfl hstop
      | write_part hpart =>
        exact .inr ⟨hfree, _, hpart, Disk.read_append_link _, fun hok => absurd hok hstop⟩
      | failed => exact .inr ⟨hfree, [], List.nil_prefix, Disk.read_link, by simp⟩
  refine Triple.cons ?_ ?_ ?_ hwrite
  · rintro _ rfl
    exact .inl ⟨rfl, by simp⟩
  · rintro _ after rfl hop
    cases hop with
    | create_new hfree => exact ⟨hfree, by simp only [Disk.create, hfree]⟩
  · rintro _ outcome after rfl hstop hop
    cases hop with
    | create_new => exact absurd rfl hstop
    | failed => exact .inl ⟨rfl, hstop⟩

end

end disk
