import MemSmr.VisitDir
import MemSmr.Lib.Codec

/-!
# What the visit of a directory prints

## 1.  The format

A directory is a sequence of records.  `DirRecord` is one of them, with what the format asks of it, and
`DirRecord.bytes` is how it lies in the file; `ofBytes_bytes` reads it back.

## 2.  Trees

`Forest` is what the entries of a directory look like from above: each has a record and the entries
below it.  `Forest.lines` is the listing, every entry before what is below it.

## 3.  The visit

`Stored` says that a directory of the disk is the root of such a tree.  `visit_lists_tree`: the visit
returns, and prints the listing.
-/

namespace MemSmr

open Outcome Relation Walk

/-! ## 1.  The format -/

namespace Bytes

variable {n : ℕ} {b : Bytes n} {off : ℕ} {l m : List UInt8}

/-- The bytes of the list are at the offset. -/
def Holds (b : Bytes n) (off : ℕ) (l : List UInt8) : Prop :=
  off + l.length ≤ n ∧ ∀ i (hi : i < l.length), b.byteAt (off + i) = l[i].toNat

instance (b : Bytes n) (off : ℕ) (l : List UInt8) : Decidable (b.Holds off l) :=
  inferInstanceAs (Decidable (_ ∧ ∀ i (_ : i < l.length), _))

theorem holds_cons {a : UInt8} :
    b.Holds off (a :: l) ↔ b.byteAt off = a.toNat ∧ b.Holds (off + 1) l := by
  constructor
  · rintro ⟨hle, hbyte⟩
    rw [List.length_cons] at hle
    refine ⟨hbyte 0 (Nat.succ_pos _), by omega, fun i hi => ?_⟩
    rw [Nat.add_right_comm]
    exact hbyte (i + 1) (Nat.succ_lt_succ hi)
  · rintro ⟨h0, hle, hbyte⟩
    refine ⟨?_, fun i hi => ?_⟩
    · rw [List.length_cons]
      omega
    · cases i with
      | zero => exact h0
      | succ i =>
        have hi' := hbyte i (Nat.lt_of_succ_lt_succ hi)
        rw [Nat.add_right_comm] at hi'
        exact hi'

theorem holds_append :
    b.Holds off (l ++ m) ↔ b.Holds off l ∧ b.Holds (off + l.length) m := by
  induction l generalizing off with
  | nil =>
    refine ⟨fun h => ⟨⟨?_, fun i hi => absurd hi (Nat.not_lt_zero i)⟩, h⟩, fun h => h.2⟩
    exact (Nat.le_add_right _ _).trans h.1
  | cons a l ih =>
    rw [List.cons_append, holds_cons, holds_cons, ih, and_assoc, List.length_cons, Nat.add_assoc,
      Nat.add_comm 1]

theorem Holds.le16 {a : ℕ} (h : b.Holds off (leBytes 2 a)) : b.le16 off = a % 2 ^ 16 := by
  simp only [leBytes, holds_cons, UInt8.toNat_ofNat'] at h
  rw [Bytes.le16, h.1, h.2.1]
  omega

theorem Holds.le32 {a : ℕ} (h : b.Holds off (leBytes 4 a)) : b.le32 off = a % 2 ^ 32 := by
  simp only [leBytes, holds_cons, UInt8.toNat_ofNat'] at h
  rw [Bytes.le32, Bytes.le16, Bytes.le16, h.1, h.2.1, h.2.2.1, h.2.2.2.1]
  omega

/-- Reading the bytes one by one. -/
theorem Holds.map (h : b.Holds off l) :
    ((List.range l.length).map fun i => UInt8.ofNat (b.byteAt (off + i))) = l := by
  refine List.ext_getElem (by simp) fun i h1 h2 => ?_
  rw [List.getElem_map, List.getElem_range, h.2 i h2]
  exact UInt8.ofNat_toNat

end Bytes

namespace Ext2File

/-- A record of a directory: an `ext2_dir_entry_2` with the bytes up to the next one. -/
structure DirRecord where
  inode : UInt32
  fileType : UInt8
  name : List UInt8
  pad : List UInt8
  name_le : name.length ≤ 255
  no_nul : (0 : UInt8) ∉ name
  recLen_lt : 8 + name.length + pad.length < 2 ^ 16

namespace DirRecord

/-- `rec_len`. -/
def recLen (r : DirRecord) : ℕ := 8 + r.name.length + r.pad.length

/-- The record in the file. -/
def bytes (r : DirRecord) : List UInt8 :=
  leBytes 4 r.inode.toNat ++ (leBytes 2 r.recLen ++
    (UInt8.ofNat r.name.length :: r.fileType :: (r.name ++ r.pad)))

theorem length_bytes (r : DirRecord) : r.bytes.length = r.recLen := by
  simp only [bytes, recLen, List.length_append, List.length_cons, length_leBytes]
  omega

theorem recLen_pos (r : DirRecord) : 0 < r.recLen := by
  rw [recLen]
  omega

/-- What is read of the record. -/
def entry (r : DirRecord) : DirEntry := ⟨r.inode, r.recLen, r.name.length, r.name⟩

end DirRecord

/-- **A record is read back.** -/
theorem ofBytes_bytes {n : ℕ} {b : Bytes n} {off : ℕ} {r : DirRecord} (h : b.Holds off r.bytes) :
    DirEntry.ofBytes b off = r.entry ∧ EntryInside b off := by
  have hend := h.1
  rw [r.length_bytes, DirRecord.recLen] at hend
  rw [DirRecord.bytes, Bytes.holds_append, Bytes.holds_append, Bytes.holds_cons, Bytes.holds_cons,
    Bytes.holds_append, length_leBytes, length_leBytes] at h
  obtain ⟨hinode, hlen, hnameLen, -, hname, -⟩ := h
  have hrec : r.recLen % 2 ^ 16 = r.recLen := Nat.mod_eq_of_lt r.recLen_lt
  have hshort : r.name.length % 256 = r.name.length :=
    Nat.mod_eq_of_lt (Nat.lt_succ_of_le r.name_le)
  have hlong : r.inode.toNat % 2 ^ 32 = r.inode.toNat := Nat.mod_eq_of_lt r.inode.toNat_lt
  rw [UInt8.toNat_ofNat', hshort] at hnameLen
  have hentry : DirEntry.ofBytes b off = r.entry := by
    rw [DirEntry.ofBytes, DirRecord.entry, hinode.le32, hlen.le16, hrec, hlong, hnameLen,
      UInt32.ofNat_toNat, hname.map]
    have hall : r.name.takeWhile (fun c => decide (c ≠ 0)) = r.name :=
      List.takeWhile_eq_self_iff.mpr fun c hc => decide_eq_true fun h0 => r.no_nul (h0 ▸ hc)
    rw [hall]
  refine ⟨hentry, by omega, Or.inr ?_⟩
  rw [hentry]
  show off + 8 + r.name.length ≤ n
  omega

/-! ## 2.  Trees -/

/-- The entries of a directory, and what is below each of them. -/
inductive Forest where
  | nil
  | cons (r : DirRecord) (sub rest : Forest)

namespace Forest

/-- The directory as a file. -/
def bytes : Forest → List UInt8
  | nil => []
  | cons r _ rest => r.bytes ++ rest.bytes

/-- The listing: a line for every entry, and then what is below it, one step further in. -/
def lines (depth : ℕ) : Forest → List DirLine
  | nil => []
  | cons r sub rest =>
    ⟨indentLen depth, r.name, r.inode⟩ :: (sub.lines (depth + 1) ++ rest.lines depth)

end Forest

section Stored

variable (entry : Block → ℕ → Except ReadFault ℕ) (disk : ℕ → Block) (heap : ℕ → UInt8)
  (readInode : ℕ → FileInode)

/-- Inode `c` is a directory, and its file holds the bytes. -/
def DirHolds (c : UInt32) (l : List UInt8) : Prop :=
  (readInode c.toNat).IsDir ∧ (readInode c.toNat).iSize.toNat = l.length ∧
    ∃ w, readWholeExt2File entry disk (readInode c.toNat) = .ok w ∧ (fileBytes disk heap w).Holds 0 l

/-- The entry names a directory that is visited. -/
def Visited (r : DirRecord) : Prop :=
  ¬ r.entry.IsDots ∧ r.inode ≠ 0 ∧ (readInode r.inode.toNat).IsDir

/-- What is below the entries is on the disk: there is nothing below an entry that is not visited, and
below the others is the directory that they name. -/
def Below : Forest → Prop
  | .nil => True
  | .cons r sub rest =>
    ((Visited readInode r ∧ DirHolds entry disk heap readInode r.inode sub.bytes ∧ Below sub) ∨
      (¬ Visited readInode r ∧ sub = .nil)) ∧ Below rest

/-- Inode `ino` is the directory at the root of the tree. -/
def Stored (ino : UInt32) (F : Forest) : Prop :=
  DirHolds entry disk heap readInode ino F.bytes ∧ Below entry disk heap readInode F

end Stored

/-! What a directory names is what the records of its tree name. -/

namespace Forest

/-- The directory has the entry, and below it is the tree. -/
def HasEntry : Forest → DirRecord → Forest → Prop
  | nil, _, _ => False
  | cons r' sub' rest, r, sub => (r' = r ∧ sub' = sub) ∨ rest.HasEntry r sub

/-- The inodes that the entries of the tree name, without `"."` and `".."`. -/
def inodes : Forest → List UInt32
  | nil => []
  | cons r sub rest => (if r.entry.IsDots then [] else [r.inode]) ++ (sub.inodes ++ rest.inodes)

theorem HasEntry.mem_inodes {r : DirRecord} {sub F : Forest} (h : F.HasEntry r sub)
    (hdots : ¬ r.entry.IsDots) : r.inode ∈ F.inodes := by
  induction F with
  | nil => exact absurd h id
  | cons r' sub' rest ihSub ihRest =>
    rw [inodes, List.mem_append, List.mem_append]
    rcases h with ⟨rfl, -⟩ | h
    · rw [if_neg hdots]
      exact Or.inl List.mem_cons_self
    · exact Or.inr (Or.inr (ihRest h))

theorem HasEntry.mem_inodes_of_sub {r : DirRecord} {sub F : Forest} (h : F.HasEntry r sub)
    {c : UInt32} (hc : c ∈ sub.inodes) : c ∈ F.inodes := by
  induction F with
  | nil => exact absurd h id
  | cons r' sub' rest ihSub ihRest =>
    rw [inodes, List.mem_append, List.mem_append]
    rcases h with ⟨-, rfl⟩ | h
    · exact Or.inr (Or.inl hc)
    · exact Or.inr (Or.inr (ihRest h))

/-- The loop only comes to the entries of the tree. -/
theorem exists_hasEntry {n : ℕ} {b : Bytes n} {F : Forest} {off off' iSize : ℕ}
    (hbytes : b.Holds off F.bytes) (hend : off + F.bytes.length = iSize) (hsize : iSize < 2 ^ 32)
    (hreach : ReflTransGen (NextEntry b iSize) off off') (hlt : off' % 2 ^ 32 < iSize) :
    ∃ r sub, F.HasEntry r sub ∧ DirEntry.ofBytes b off' = r.entry := by
  induction F generalizing off with
  | nil =>
    have hdone : ¬ off % 2 ^ 32 < iSize := by
      rw [← hend, Nat.mod_eq_of_lt (by omega)]
      exact Nat.lt_irrefl _
    rcases hreach.cases_head with rfl | ⟨_, hnext, -⟩
    · exact absurd hlt hdone
    · exact absurd hnext.1 hdone
  | cons r sub rest ihSub ihRest =>
    rw [bytes, Bytes.holds_append, r.length_bytes] at hbytes
    rw [bytes, List.length_append, r.length_bytes] at hend
    obtain ⟨hentry, -⟩ := ofBytes_bytes hbytes.1
    rcases hreach.cases_head with rfl | ⟨_, ⟨-, rfl⟩, hreach⟩
    · exact ⟨r, sub, Or.inl ⟨rfl, rfl⟩, hentry⟩
    · rw [hentry] at hreach
      obtain ⟨r', sub', hhas, hentry'⟩ := ihRest hbytes.2 (by omega) hreach
      exact ⟨r', sub', Or.inr hhas, hentry'⟩

end Forest

section Named

variable {entry : Block → ℕ → Except ReadFault ℕ} {disk : ℕ → Block} {heap : ℕ → UInt8}
  {readInode : ℕ → FileInode}

theorem Below.of_hasEntry {F sub : Forest} {r : DirRecord} (h : Below entry disk heap readInode F)
    (hhas : F.HasEntry r sub) (hvisited : Visited readInode r) :
    Stored entry disk heap readInode r.inode sub := by
  induction F with
  | nil => exact absurd hhas id
  | cons r' sub' rest ihSub ihRest =>
    rcases hhas with ⟨rfl, rfl⟩ | hhas
    · rcases h.1 with ⟨-, hdir, hbelow⟩ | ⟨hnot, -⟩
      · exact ⟨hdir, hbelow⟩
      · exact absurd hvisited hnot
    · exact ihRest h.2 hhas

/-- **The inodes that a visit comes to** are the root and those that the entries name. -/
theorem Stored.mem_inodes {ino c : UInt32} {F : Forest} (h : Stored entry disk heap readInode ino F)
    (hc : ReflTransGen (Nested entry disk heap readInode) ino c) : c = ino ∨ c ∈ F.inodes := by
  suffices hall : (c = ino ∨ c ∈ F.inodes) ∧ ((readInode c.toNat).IsDir →
      ∃ G, Stored entry disk heap readInode c G ∧ ∀ d ∈ G.inodes, d ∈ F.inodes) from hall.1
  induction hc with
  | refl => exact ⟨Or.inl rfl, fun _ => ⟨F, h, fun _ hd => hd⟩⟩
  | @tail c d _ hnested ih =>
    obtain ⟨hdir, w, hw, off, hoff, hdots, hne, hd⟩ := hnested
    obtain ⟨G, ⟨⟨-, hlen, w', hw', hbytes⟩, hbelow⟩, hsub⟩ := ih.2 hdir
    obtain rfl := Except.ok.inj (hw.symm.trans hw')
    obtain ⟨r, sub, hhas, hentry⟩ := Forest.exists_hasEntry hbytes
      ((Nat.zero_add _).trans hlen.symm) (UInt32.toNat_lt _) hoff.1 hoff.2
    rw [hentry] at hdots hd
    obtain rfl : r.inode = d := hd
    refine ⟨Or.inr (hsub _ (hhas.mem_inodes hdots)), fun hdir' => ⟨sub, ?_, fun e he => ?_⟩⟩
    · exact hbelow.of_hasEntry hhas ⟨hdots, hne, hdir'⟩
    · exact hsub e (hhas.mem_inodes_of_sub he)

end Named

/-! ## 3.  The visit -/

section Visit

variable {entry : Block → ℕ → Except ReadFault ℕ} {disk : ℕ → Block} {heap : ℕ → UInt8}
  {readInode : ℕ → FileInode}

/-- A directory whose loop returns. -/
theorem DirHolds.visit {c : UInt32} {l : List UInt8} {depth : ℕ} {lines : List DirLine}
    (h : DirHolds entry disk heap readInode c l)
    (hloop : ∀ (n : ℕ) (b : Bytes n), b.Holds 0 l → ∃ fuel, dirLoop
      (fun sub => visitExt2Dir entry disk heap readInode fuel sub (depth + 1)) b l.length depth fuel
      0 0 = .ok lines) :
    ∃ fuel, visitExt2Dir entry disk heap readInode fuel c depth = .ok lines := by
  obtain ⟨hdir, hsize, w, hw, hbytes⟩ := h
  obtain ⟨fuel, hfuel⟩ := hloop _ _ hbytes
  rw [← hsize] at hfuel
  exact ⟨fuel + 1, (visitExt2Dir_dir hdir).mpr ⟨w, hw, hfuel⟩⟩

/-- An entry that is not visited. -/
theorem visitEntry_of_not_visited {r : DirRecord} (h : ¬ Visited readInode r) (fuel depth : ℕ) :
    visitEntry (fun sub => visitExt2Dir entry disk heap readInode (fuel + 1) sub depth) r.entry =
      .ok [] := by
  rw [visitEntry]
  split_ifs with hdots hinode
  · rfl
  · exact visitExt2Dir_file (fun hdir => h ⟨hdots, hinode, hdir⟩) fuel depth
  · rfl

/-- **The loop over the entries of a tree**, by induction on the tree: what is below an entry is visited
before the entries that come after it. -/
theorem Forest.loop {F : Forest} (h : Below entry disk heap readInode F) (depth : ℕ) {n : ℕ}
    {b : Bytes n} {off iSize : ℕ} (hbytes : b.Holds off F.bytes) (hend : off + F.bytes.length = iSize)
    (hsize : iSize < 2 ^ 32) :
    ∃ fuel, dirLoop (fun sub => visitExt2Dir entry disk heap readInode fuel sub (depth + 1)) b iSize
      depth fuel off (off % 2 ^ 32) = .ok (F.lines depth) := by
  induction F generalizing depth n b off iSize with
  | nil =>
    have hdone : ¬ off % 2 ^ 32 < iSize := by
      rw [← hend, Nat.mod_eq_of_lt (by omega)]
      exact Nat.lt_irrefl _
    exact ⟨1, dirLoop_done 0 hdone⟩
  | cons r sub rest ihSub ihRest =>
    obtain ⟨hsub, hrest⟩ := h
    rw [Forest.bytes, Bytes.holds_append, r.length_bytes] at hbytes
    rw [Forest.bytes, List.length_append, r.length_bytes] at hend
    obtain ⟨hentry, hinside⟩ := ofBytes_bytes hbytes.1
    have hpos := r.recLen_pos
    -- What is below the entry.
    obtain ⟨fuel₁, hvisit⟩ : ∃ fuel, visitEntry
        (fun c => visitExt2Dir entry disk heap readInode fuel c (depth + 1)) r.entry =
          .ok (sub.lines (depth + 1)) := by
      rcases hsub with ⟨⟨hdots, hinode, -⟩, hdir, hbelow⟩ | ⟨hnot, rfl⟩
      · have hlen : sub.bytes.length < 2 ^ 32 := by
          rw [← hdir.2.1]
          exact (readInode r.inode.toNat).iSize.toNat_lt
        obtain ⟨fuel, hfuel⟩ := hdir.visit fun n b hb =>
          ihSub hbelow (depth + 1) hb (Nat.zero_add _) hlen
        refine ⟨fuel, ?_⟩
        rw [visitEntry_of_names hdots hinode]
        exact hfuel
      · exact ⟨1, visitEntry_of_not_visited hnot 0 (depth + 1)⟩
    -- The entries after it.
    obtain ⟨fuel₂, hloop⟩ := ihRest hrest depth hbytes.2 (by omega) hsize
    have hlt : off % 2 ^ 32 < iSize := by
      rw [Nat.mod_eq_of_lt (by omega)]
      omega
    have hstable : ∀ {k k' : ℕ}, k ≤ k' → ∀ c lines,
        visitExt2Dir entry disk heap readInode k c (depth + 1) = .ok lines →
          visitExt2Dir entry disk heap readInode k' c (depth + 1) = .ok lines :=
      fun hle c lines => visitExt2Dir_stable c (depth + 1) _ _ hle lines
    refine ⟨max fuel₁ fuel₂ + 1, (dirLoop_succ hlt).mpr ⟨hinside, sub.lines (depth + 1),
      rest.lines depth, ?_, ?_, ?_⟩⟩
    · rw [hentry]
      exact visitEntry_mono (hstable (by omega)) _ _ hvisit
    · rw [hentry]
      exact dirLoop_mono (hstable (by omega)) (le_max_right fuel₁ fuel₂) hloop
    · rw [hentry]
      rfl

/-- The visit of a tree returns. -/
theorem Stored.visit {ino : UInt32} {F : Forest} (h : Stored entry disk heap readInode ino F)
    (depth : ℕ) :
    ∃ fuel, visitExt2Dir entry disk heap readInode fuel ino depth = .ok (F.lines depth) := by
  obtain ⟨hdir, hbelow⟩ := h
  have hlen : F.bytes.length < 2 ^ 32 := by
    rw [← hdir.2.1]
    exact (readInode ino.toNat).iSize.toNat_lt
  exact hdir.visit fun n b hb => Forest.loop hbelow depth hb (Nat.zero_add _) hlen

end Visit

/-- **The visit lists the tree.**  If an inode is the root of a finite directory tree, each directory of
which lies in its file record by record, whatever inode numbers, names, gaps and file types these have,
then the visit returns and prints every entry of the tree once, each before what is below it and
indented by its depth. -/
theorem visit_lists_tree (entry : Block → ℕ → Except ReadFault ℕ) (disk : ℕ → Block)
    (heap : ℕ → UInt8) (readInode : ℕ → FileInode) (ino : UInt32) (F : Forest)
    (h : Stored entry disk heap readInode ino F) (depth : ℕ) :
    ∃ fuel, ∀ fuel' ≥ fuel, visitExt2Dir entry disk heap readInode fuel' ino depth =
      .ok (F.lines depth) := by
  obtain ⟨fuel, hfuel⟩ := h.visit depth
  exact ⟨fuel, fun fuel' hle => visitExt2Dir_stable ino depth fuel fuel' hle _ hfuel⟩

/-- The root directory with a directory `"a"`, in which there is a file `"g"`, and a file `"f"`. -/
def smallTree : Forest :=
  .cons ⟨2, 2, [0x2E], [0, 0, 0], by decide, by decide, by decide⟩ .nil <|
  .cons ⟨2, 2, [0x2E, 0x2E], [0, 0], by decide, by decide, by decide⟩ .nil <|
  .cons ⟨12, 2, [0x61], [0, 0, 0], by decide, by decide, by decide⟩
    (.cons ⟨12, 2, [0x2E], [0, 0, 0], by decide, by decide, by decide⟩ .nil <|
      .cons ⟨2, 2, [0x2E, 0x2E], [0, 0], by decide, by decide, by decide⟩ .nil <|
      .cons ⟨14, 1, [0x67], [0, 0, 0], by decide, by decide, by decide⟩ .nil .nil) <|
  .cons ⟨13, 1, [0x66], [0, 0, 0], by decide, by decide, by decide⟩ .nil .nil

/-- What is below the entry `"a"`. -/
def smallSubtree : Forest :=
  match smallTree with
  | .cons _ _ (.cons _ _ (.cons _ sub _)) => sub
  | _ => .nil

/-- The root directory is in block 10 and the other one in block 11. -/
def treeDisk : ℕ → Block := fun blk i =>
  if blk = 10 then smallTree.bytes.getD i.val 0
  else if blk = 11 then smallSubtree.bytes.getD i.val 0
  else 0

/-- Inodes 2 and 12 are directories. -/
def treeInode : ℕ → FileInode := fun ino =>
  if ino = 2 then ⟨⟨fun _ => 10⟩, 0x4000, 48⟩
  else if ino = 12 then ⟨⟨fun _ => 11⟩, 0x4000, 36⟩
  else ⟨⟨fun _ => 0⟩, 0x8000, 0⟩

theorem visit_lists_tree_small : ∃ fuel, ∀ fuel' ≥ fuel,
    visitExt2Dir (viewEntry fun buf i => buf.le32 (4 * i)) treeDisk (fun _ => 0) treeInode fuel'
      ext2RootIno 1 = .ok [⟨3, [0x2E], 2⟩, ⟨3, [0x2E, 0x2E], 2⟩, ⟨3, [0x61], 12⟩, ⟨6, [0x2E], 12⟩,
        ⟨6, [0x2E, 0x2E], 2⟩, ⟨6, [0x67], 14⟩, ⟨3, [0x66], 13⟩] := by
  have hroot : DirHolds (viewEntry fun buf i => buf.le32 (4 * i)) treeDisk (fun _ => 0) treeInode 2
      smallTree.bytes :=
    ⟨by decide, by decide, ⟨4096, [.data 0 10]⟩, rfl, by decide +kernel, by decide +kernel⟩
  have hsub : DirHolds (viewEntry fun buf i => buf.le32 (4 * i)) treeDisk (fun _ => 0) treeInode 12
      smallSubtree.bytes :=
    ⟨by decide, by decide, ⟨4096, [.data 0 11]⟩, rfl, by decide +kernel, by decide +kernel⟩
  have hskip : ∀ r : DirRecord, r.entry.IsDots ∨ ¬ (treeInode r.inode.toNat).IsDir →
      ¬ Visited treeInode r := fun r hr hv => hr.elim hv.1 fun h => h hv.2.2
  refine visit_lists_tree _ treeDisk _ treeInode ext2RootIno smallTree ⟨hroot, ?_⟩ 1
  refine ⟨Or.inr ⟨hskip _ (Or.inl (by decide)), rfl⟩, Or.inr ⟨hskip _ (Or.inl (by decide)), rfl⟩,
    Or.inl ⟨⟨by decide, by decide, by decide⟩, hsub, ?_⟩,
    Or.inr ⟨hskip _ (Or.inr (by decide)), rfl⟩, trivial⟩
  exact ⟨Or.inr ⟨hskip _ (Or.inl (by decide)), rfl⟩, Or.inr ⟨hskip _ (Or.inl (by decide)), rfl⟩,
    Or.inr ⟨hskip _ (Or.inr (by decide)), rfl⟩, trivial⟩

end Ext2File

end MemSmr
