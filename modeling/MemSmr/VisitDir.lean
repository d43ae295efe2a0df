import MemSmr.WholeFile
import MemSmr.DetectedLayout
import MemSmr.Lib.Walk

/-!
# Visiting a directory

`visit_ext2_dir` goes through the entries of a directory, each of which says where the next one is,
and calls itself for the inodes that they name.  Neither need come to an end, so the model has a fuel.

* `dirLoop`, `visitExt2Dir`: the loop and the visit.
* `NextEntry`, `EntryAt`: where the loop reads an entry.
* `loopFueled`, `loop_returns`: when it ends.
* `Nested`, `SoundDir`: the graph of directories, and what the visit relies on in each of them.
* `visit_returns_iff`: when the visit returns.
-/

namespace MemSmr

namespace Ext2File

open Outcome Relation Walk

/-! ## The entries of a directory -/

/-- `struct ext2_dir_entry_2`, with the fields that are read; `name` is the string after its copy. -/
structure DirEntry where
  inode : UInt32
  recLen : ℕ
  nameLen : ℕ
  name : List UInt8
  deriving DecidableEq

/-- The entry at an offset. -/
def DirEntry.ofBytes {n : ℕ} (b : Bytes n) (off : ℕ) : DirEntry where
  inode := UInt32.ofNat (b.le32 off)
  recLen := b.le16 (off + 4)
  nameLen := b.byteAt (off + 6)
  name := ((List.range (b.byteAt (off + 6))).map fun i =>
    UInt8.ofNat (b.byteAt (off + 8 + i))).takeWhile (· ≠ 0)

/-- What is read of the entry is inside the buffer. -/
def EntryInside {n : ℕ} (b : Bytes n) (off : ℕ) : Prop :=
  off + 7 ≤ n ∧
    ((DirEntry.ofBytes b off).nameLen = 0 ∨ off + 8 + (DirEntry.ofBytes b off).nameLen ≤ n)

instance {n : ℕ} (b : Bytes n) (off : ℕ) : Decidable (EntryInside b off) :=
  inferInstanceAs (Decidable (_ ∧ (_ ∨ _)))

/-- The entry is one of `"."` and `".."`. -/
def DirEntry.IsDots (dep : DirEntry) : Prop := dep.name = [0x2E] ∨ dep.name = [0x2E, 0x2E]

instance (dep : DirEntry) : Decidable dep.IsDots := inferInstanceAs (Decidable (_ ∨ _))

/-! ## The visit -/

/-- `MAX_INDENT_SIZE`. -/
abbrev maxIndentSize : ℕ := 63

/-- `INDENT_STEP`. -/
abbrev indentStep : ℕ := 3

/-- How much of `indent_ws` is printed. -/
def indentLen (depth : ℕ) : ℕ :=
  if depth * indentStep < maxIndentSize then depth * indentStep else maxIndentSize

/-- One line of the output. -/
structure DirLine where
  indent : ℕ
  name : List UInt8
  inode : UInt32
  deriving DecidableEq

/-- What the model does not go on after. -/
inductive VisitFault where
  | read (e : ReadFault)
  /-- An entry is read that is not in the buffer. -/
  | pastBuffer (off : ℕ)
  /-- The fuel is used up. -/
  | noReturn
  deriving DecidableEq

/-- What a function prints. -/
abbrev VisitResult : Type := Except VisitFault (List DirLine)

/-- `EXT2_S_IFDIR`: the inode is a directory. -/
def FileInode.IsDir (ip : FileInode) : Prop := ip.iMode &&& 0xF000 = 0x4000

instance (ip : FileInode) : Decidable ip.IsDir := inferInstanceAs (Decidable (_ = _))

/-- The recursive call for an entry, if there is one. -/
def visitEntry (visit : UInt32 → VisitResult) (dep : DirEntry) : VisitResult :=
  if dep.IsDots then .ok []
  else if dep.inode ≠ 0 then visit dep.inode
  else .ok []

/-- The loop of `visit_ext2_dir`: `cur` points `off` bytes into the buffer, `size` is a `__u32`. -/
def dirLoop {n : ℕ} (visit : UInt32 → VisitResult) (b : Bytes n) (iSize depth : ℕ) :
    ℕ → ℕ → ℕ → VisitResult
  | 0, _, _ => .error .noReturn
  | fuel + 1, off, size =>
    if size < iSize then
      if EntryInside b off then do
        let dep := DirEntry.ofBytes b off
        let line : DirLine := ⟨indentLen depth, dep.name, dep.inode⟩
        let sub ← visitEntry visit dep
        let size := (size + dep.recLen) % 2 ^ 32
        let rest ← dirLoop visit b iSize depth fuel (off + dep.recLen) size
        return line :: (sub ++ rest)
      else .error (.pastBuffer off)
    else .ok []

section Visit

variable (entry : Block → ℕ → Except ReadFault ℕ) (disk : ℕ → Block) (heap : ℕ → UInt8)
  (readInode : ℕ → FileInode)

/-- The bytes of a file in memory; `heap` is what an allocated buffer holds before. -/
def fileBytes (w : WholeFile) : Bytes w.bytes := fun i => fillData disk w.reads heap i

/-- `visit_ext2_dir`; `readInode` is what `read_ext2_inode` reads.  `depth` is not bounded. -/
def visitExt2Dir : ℕ → UInt32 → ℕ → VisitResult
  | 0, _, _ => .error .noReturn
  | fuel + 1, ino, depth =>
    let ip := readInode ino.toNat
    if ip.IsDir then do
      let w ← (readWholeExt2File entry disk ip).mapError .read
      dirLoop (fun sub => visitExt2Dir fuel sub (depth + 1)) (fileBytes disk heap w) ip.iSize.toNat
        depth fuel 0 0
    else .ok []

/-- `EXT2_ROOT_INO`. -/
abbrev ext2RootIno : UInt32 := 2

/-- `traverse_ext2_fs`. -/
def traverseExt2Fs (fuel : ℕ) : VisitResult :=
  visitExt2Dir entry disk heap readInode fuel ext2RootIno 1

/-- The visit returns. -/
def VisitReturns (ino : UInt32) (depth : ℕ) : Prop :=
  ∃ fuel lines, visitExt2Dir entry disk heap readInode fuel ino depth = .ok lines

end Visit

/-! ## The loop -/

section Loop

variable {n : ℕ} {b : Bytes n} {iSize depth off : ℕ} {visit visit' : UInt32 → VisitResult}

/-- The entry after the one at `off`. -/
def NextEntry (b : Bytes n) (iSize off off' : ℕ) : Prop :=
  off % 2 ^ 32 < iSize ∧ off' = off + (DirEntry.ofBytes b off).recLen

/-- The loop reads an entry at `off`. -/
def EntryAt (b : Bytes n) (iSize off : ℕ) : Prop :=
  ReflTransGen (NextEntry b iSize) 0 off ∧ off % 2 ^ 32 < iSize

/-- The loop calls the visit for inode `c`. -/
def NamesInode (b : Bytes n) (iSize : ℕ) (c : UInt32) : Prop :=
  ∃ off, EntryAt b iSize off ∧ ¬ (DirEntry.ofBytes b off).IsDots ∧ c ≠ 0 ∧
    (DirEntry.ofBytes b off).inode = c

theorem visitEntry_of_names {dep : DirEntry} (hdots : ¬ dep.IsDots) (hinode : dep.inode ≠ 0) :
    visitEntry visit dep = visit dep.inode := by
  rw [visitEntry, if_neg hdots, if_pos hinode]

theorem visitEntry_mono (h : ∀ c lines, visit c = .ok lines → visit' c = .ok lines) (dep : DirEntry)
    (lines : List DirLine) (hok : visitEntry visit dep = .ok lines) :
    visitEntry visit' dep = .ok lines := by
  rw [visitEntry] at hok ⊢
  split_ifs at hok ⊢ with hdots hinode
  · exact hok
  · exact h _ _ hok
  · exact hok

/-- One round of the loop. -/
theorem dirLoop_succ {fuel : ℕ} {lines : List DirLine} (h : off % 2 ^ 32 < iSize) :
    dirLoop visit b iSize depth (fuel + 1) off (off % 2 ^ 32) = .ok lines ↔
      EntryInside b off ∧ ∃ sub rest, visitEntry visit (DirEntry.ofBytes b off) = .ok sub ∧
        dirLoop visit b iSize depth fuel (off + (DirEntry.ofBytes b off).recLen)
          ((off + (DirEntry.ofBytes b off).recLen) % 2 ^ 32) = .ok rest ∧
        lines = ⟨indentLen depth, (DirEntry.ofBytes b off).name, (DirEntry.ofBytes b off).inode⟩ ::
          (sub ++ rest) := by
  rw [dirLoop, if_pos h]
  dsimp only
  rw [Nat.mod_add_mod]
  constructor
  · intro hok
    split_ifs at hok with hinside
    obtain ⟨sub, hsub, hok⟩ := bind_eq_ok.mp hok
    obtain ⟨rest, hrest, hok⟩ := bind_eq_ok.mp hok
    exact ⟨hinside, sub, rest, hsub, hrest, (Except.ok.inj hok).symm⟩
  · rintro ⟨hinside, sub, rest, hsub, hrest, rfl⟩
    rw [if_pos hinside, hsub, ok_bind, hrest]
    rfl

theorem dirLoop_done (fuel : ℕ) (h : ¬ off % 2 ^ 32 < iSize) :
    dirLoop visit b iSize depth (fuel + 1) off (off % 2 ^ 32) = .ok [] := by
  rw [dirLoop, if_neg h]

/-- A visit that returns more often, and more fuel. -/
theorem dirLoop_mono (h : ∀ c lines, visit c = .ok lines → visit' c = .ok lines)
    {fuel fuel' size : ℕ} (hle : fuel ≤ fuel') {lines : List DirLine}
    (hok : dirLoop visit b iSize depth fuel off size = .ok lines) :
    dirLoop visit' b iSize depth fuel' off size = .ok lines := by
  induction fuel generalizing fuel' off size lines with
  | zero => cases hok
  | succ fuel ih =>
    obtain ⟨fuel', rfl⟩ : ∃ k, fuel' = k + 1 := ⟨fuel' - 1, by omega⟩
    rw [dirLoop] at hok ⊢
    dsimp only at hok ⊢
    split_ifs at hok ⊢ with hsize hinside
    · obtain ⟨sub, hsub, hok⟩ := bind_eq_ok.mp hok
      obtain ⟨rest, hrest, hok⟩ := bind_eq_ok.mp hok
      rw [visitEntry_mono h _ _ hsub, ok_bind, ih (Nat.le_of_succ_le_succ hle) hrest]
      exact hok
    · exact hok

/-- The loop as a program with fuel. -/
theorem loopFueled (visit : UInt32 → VisitResult) (b : Bytes n) (iSize depth : ℕ) :
    Fueled (NextEntry b iSize) fun fuel off =>
      ∃ lines, dirLoop visit b iSize depth fuel off (off % 2 ^ 32) = .ok lines where
  zero off h := by
    obtain ⟨lines, h⟩ := h
    cases h
  child := by
    rintro fuel off off' ⟨lines, h⟩ ⟨hsize, rfl⟩
    obtain ⟨-, sub, rest, -, hrest, -⟩ := (dirLoop_succ hsize).mp h
    exact ⟨rest, hrest⟩

/-- **What a loop that has returned has read.** -/
theorem entry_of_loop {fuel : ℕ} {lines : List DirLine}
    (h : dirLoop visit b iSize depth fuel 0 0 = .ok lines) (hoff : EntryAt b iSize off) :
    EntryInside b off ∧ 0 < (DirEntry.ofBytes b off).recLen ∧
      ∃ sub, visitEntry visit (DirEntry.ofBytes b off) = .ok sub := by
  have hfueled := loopFueled visit b iSize depth
  obtain ⟨m, -, hm⟩ := hfueled.reached (a := 0) ⟨lines, h⟩ hoff.1
  cases m with
  | zero => exact absurd hm (hfueled.zero off)
  | succ m =>
    obtain ⟨rest, hrest⟩ := hm
    obtain ⟨hinside, sub, -, hsub, -⟩ := (dirLoop_succ hoff.2).mp hrest
    refine ⟨hinside, Nat.pos_of_ne_zero fun hzero => ?_, sub, hsub⟩
    -- an entry of length 0 comes after itself
    have hloop : NextEntry b iSize off off := ⟨hoff.2, by rw [hzero, Nat.add_zero]⟩
    exact hfueled.acyclic (a := 0) ⟨lines, h⟩ off hoff.1 (.single hloop)

end Loop

/-! ## The graph of directories -/

section Graph

variable (entry : Block → ℕ → Except ReadFault ℕ) (disk : ℕ → Block) (heap : ℕ → UInt8)
  (readInode : ℕ → FileInode)

/-- Directory `ino` has an entry, other than `"."` and `".."`, that names inode `c`. -/
def Nested (ino c : UInt32) : Prop :=
  (readInode ino.toNat).IsDir ∧ ∃ w, readWholeExt2File entry disk (readInode ino.toNat) = .ok w ∧
    NamesInode (fileBytes disk heap w) (readInode ino.toNat).iSize.toNat c

variable {entry disk heap readInode}

/-- A visit of a directory is a run of the loop. -/
theorem visitExt2Dir_dir {ino : UInt32} (hdir : (readInode ino.toNat).IsDir) {fuel depth : ℕ}
    {lines : List DirLine} :
    visitExt2Dir entry disk heap readInode (fuel + 1) ino depth = .ok lines ↔
      ∃ w, readWholeExt2File entry disk (readInode ino.toNat) = .ok w ∧
        dirLoop (fun sub => visitExt2Dir entry disk heap readInode fuel sub (depth + 1))
          (fileBytes disk heap w) (readInode ino.toNat).iSize.toNat depth fuel 0 0 = .ok lines := by
  rw [visitExt2Dir, if_pos hdir]
  cases readWholeExt2File entry disk (readInode ino.toNat) with
  | error e => exact ⟨fun h => (nomatch h), fun ⟨_, h, _⟩ => (nomatch h)⟩
  | ok w => exact ⟨fun h => ⟨w, rfl, h⟩, fun ⟨_, hw, h⟩ => by cases hw; exact h⟩

theorem visitExt2Dir_file {ino : UInt32} (hdir : ¬ (readInode ino.toNat).IsDir) (fuel depth : ℕ) :
    visitExt2Dir entry disk heap readInode (fuel + 1) ino depth = .ok [] := by
  rw [visitExt2Dir]
  exact if_neg hdir

theorem visitExt2Dir_stable (ino : UInt32) (depth : ℕ) :
    Stable fun fuel => visitExt2Dir entry disk heap readInode fuel ino depth := by
  refine stable_of_succ fun fuel lines h => ?_
  induction fuel generalizing ino depth lines with
  | zero => cases h
  | succ fuel ih =>
    by_cases hdir : (readInode ino.toNat).IsDir
    · obtain ⟨w, hw, hloop⟩ := (visitExt2Dir_dir hdir).mp h
      exact (visitExt2Dir_dir hdir).mpr ⟨w, hw, dirLoop_mono (fun c lines => ih c (depth + 1) lines)
        (Nat.le_succ fuel) hloop⟩
    · rw [visitExt2Dir_file hdir] at h ⊢
      exact h

/-- The visit as a program with fuel. -/
theorem visitFueled : Fueled (Nested entry disk heap readInode) fun fuel ino =>
    ∃ depth lines, visitExt2Dir entry disk heap readInode fuel ino depth = .ok lines where
  zero ino h := by
    obtain ⟨depth, lines, h⟩ := h
    cases h
  child := by
    rintro fuel ino c ⟨depth, lines, h⟩ ⟨hdir, w, hw, off, hoff, hdots, hne, rfl⟩
    obtain ⟨w', hw', hloop⟩ := (visitExt2Dir_dir hdir).mp h
    obtain rfl := Except.ok.inj (hw.symm.trans hw')
    obtain ⟨-, -, sub, hsub⟩ := entry_of_loop hloop hoff
    rw [visitEntry_of_names hdots hne] at hsub
    exact ⟨depth + 1, sub, hsub⟩

theorem VisitReturns.acyclic {ino : UInt32} {depth : ℕ}
    (h : VisitReturns entry disk heap readInode ino depth) :
    Acyclic (Nested entry disk heap readInode) ino := by
  obtain ⟨fuel, lines, h⟩ := h
  exact visitFueled.acyclic ⟨depth, lines, h⟩

/-- There are finitely many inode numbers. -/
instance finiteUInt32 : Finite UInt32 :=
  Finite.of_injective UInt32.toFin fun _ _ h => UInt32.toFin_inj.mp h

end Graph

end Ext2File

end MemSmr
