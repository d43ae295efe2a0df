import MemSmr.DescsRead
import MemSmr.InodeTables
import MemSmr.WholeFile

/-!
# Looking up an inode

`read_group_desc` and `read_ext2_inode` compute where an inode is from the descriptors on disk, the
detector has computed the inode tables from the descriptors that it has read.

* `readGroupDesc`, `locateInode`, `readExt2Inode`: the functions, over any translation layer.
* `InodePlace.of`, `place_injective`: the block and the slot of an inode.
* `LookupAgrees`, `inode_lookup_agrees`: the lookup finds every inode in the tables of the detector.
-/

namespace MemSmr

open Outcome Ext2File

/-! ## The functions -/

/-- The `k`-th inode of a block. -/
def Ext2File.FileInode.ofBlock (b : Block) (k : ℕ) : FileInode where
  iMode := UInt16.ofNat (b.le16 (sizeofInode * k))
  iSize := UInt32.ofNat (b.le32 (sizeofInode * k + 4))
  iBlock i := b.le32 (sizeofInode * k + 40 + 4 * i)

/-- The module, with the static buffers of `read_group_desc` and `read_ext2_inode`. -/
structure InodeReader (σ : Type) where
  sys : Ext2Sys σ
  gdBuf : Block
  grpDesc : Ext2GroupDesc
  inodeBuf : Block

/-- What the model does not go on after. -/
inductive LookupFault where
  | layer (e : Fault)
  /-- A division by `s_inodes_per_group`. -/
  | divByZero
  /-- `bg_no + 1` is past the range of `int`. -/
  | overflow
  deriving DecidableEq

/-- The block of an inode, and its number among the inodes of the block. -/
structure InodePlace where
  blkNo : ℕ
  slot : ℕ
  deriving DecidableEq

/-- An `unsigned int` that is passed as an `int`. -/
def asInt (n : ℕ) : ℤ := if n < 2 ^ 31 then n else n - 2 ^ 32

/-- `descs_per_block`. -/
abbrev descsPerBlock : ℕ := ext2BlockSize / sizeofGroupDesc

/-- `inodes_per_block`. -/
abbrev inodesPerBlock : ℕ := ext2BlockSize / sizeofInode

/-- `blk_offset`: the arithmetic is on `unsigned long`, the result an `unsigned int`. -/
def blkOffset (bgNo : ℤ) : ℕ :=
  (((bgNo + 1) * sizeofGroupDesc + (ext2BlockSize - 1)) % 2 ^ 64 / ext2BlockSize % 2 ^ 32).toNat

/-- The `blk_no` of `read_ext2_inode`, and the inode in the block. -/
def InodePlace.of (grpDesc : Ext2GroupDesc) (pos : ℕ) : InodePlace :=
  ⟨grpDesc.bgInodeTable + pos * sizeofInode / ext2BlockSize, pos % inodesPerBlock⟩

namespace InodeReader

variable {σ : Type} (L : BlockLayer σ)

/-- `read_group_desc`: the descriptor, or `none` for `-1`. -/
def readGroupDesc (r : InodeReader σ) (bgNo : ℤ) :
    Except LookupFault (Option Ext2GroupDesc × InodeReader σ) :=
  if r.sys.metaCtr.status ≠ .ext2Detected then .ok (none, r)
  else if bgNo = 2 ^ 31 - 1 then .error .overflow
  else do
    let blkNo := sb0BlockNo + blkOffset bgNo
    let (buf, dev) ← (Ext2Sys.readOne L r.sys.dev r.gdBuf blkNo).mapError .layer
    let src := Ext2GroupDesc.ofBlock buf (bgNo % 2 ^ 32 % descsPerBlock).toNat
    return (some src, { r with sys := { r.sys with dev := dev }, gdBuf := buf })

/-- The part of `read_ext2_inode` that computes where the inode is. -/
def locateInode (r : InodeReader σ) (ino : UInt32) :
    Except LookupFault (InodePlace × InodeReader σ) :=
  let ipg := r.sys.metaCtr.sb0.sInodesPerGroup
  if ipg = 0 then .error .divByZero
  else do
    let bgNo := (ino - 1).toNat / ipg
    let (gd, r) ← r.readGroupDesc L (asInt bgNo)
    let grpDesc := gd.getD r.grpDesc
    let pos := (ino - 1).toNat % ipg
    return (.of grpDesc pos, { r with grpDesc := grpDesc })

/-- `read_ext2_inode`: the inode, or `none` for `-1`. -/
def readExt2Inode (r : InodeReader σ) (ino : UInt32) :
    Except LookupFault (Option FileInode × InodeReader σ) :=
  if r.sys.metaCtr.status ≠ .ext2Detected then .ok (none, r)
  else do
    let (place, r) ← r.locateInode L ino
    let (buf, dev) ← (Ext2Sys.readOne L r.sys.dev r.inodeBuf place.blkNo).mapError .layer
    return (some (.ofBlock buf place.slot),
      { r with sys := { r.sys with dev := dev }, inodeBuf := buf })

end InodeReader

/-! ## What they read -/

section Reads

variable (env : Env) {a : ArrayDisk} {d : SmrDev}

/-- A read of one block of the device. -/
theorem readOne_shows (h : Shows d a) (buf : Block) {blkNo : ℕ} (hblk : blkNo < totalSmrBlocksCnt) :
    ∃ d', Ext2Sys.readOne (smrLayer env) d buf blkNo = .ok ((a blkNo).getD buf, d') ∧
      Shows d' a := by
  obtain ⟨h1, h2⟩ := (smrLayer_sim env).read (fun _ => buf) (l := blkNo) (n := 1) h hblk
  refine ⟨_, ?_, h2⟩
  rw [Ext2Sys.readOne, checkIndex, if_pos hblk, ok_bind]
  exact congrArg Except.ok (Prod.ext (congrFun h1 0) rfl)

/-- The descriptors of the first groups are in the first block after block 0. -/
theorem blkOffset_eq {g : ℕ} (hg : g < descsPerBlock) : blkOffset g = 1 := by
  have hlt : g < 128 := hg
  unfold blkOffset
  change ((((g : ℤ) + 1) * 32 + (4096 - 1)) % 2 ^ 64 / 4096 % 2 ^ 32).toNat = 1
  omega

variable {r : InodeReader SmrDev}

/-- **The descriptor of a group** is read from block 1, or from what `gd_buf` held before if that
block has no contents. -/
theorem readGroupDesc_spec (h : Shows r.sys.dev a) (hstatus : r.sys.metaCtr.status = .ext2Detected)
    {g : ℕ} (hg : g < descsPerBlock) :
    ∃ d', r.readGroupDesc (smrLayer env) g =
        .ok (some (Ext2GroupDesc.ofBlock ((a (sb0BlockNo + 1)).getD r.gdBuf) g),
          { r with
            sys := { r.sys with dev := d' }
            gdBuf := (a (sb0BlockNo + 1)).getD r.gdBuf }) ∧ Shows d' a := by
  obtain ⟨d', hread, hd'⟩ := readOne_shows env h r.gdBuf descBlk_lt
  have hlt : g < 128 := hg
  have hindex : ((g : ℤ) % 2 ^ 32 % descsPerBlock).toNat = g := by
    change ((g : ℤ) % 2 ^ 32 % 128).toNat = g
    omega
  refine ⟨d', ?_, hd'⟩
  rw [InodeReader.readGroupDesc, if_neg (not_not.mpr hstatus), if_neg (by omega)]
  dsimp only
  rw [blkOffset_eq hg, hread, hindex]
  rfl

/-- **Where an inode is looked for.** -/
theorem locateInode_spec (h : Shows r.sys.dev a) (hstatus : r.sys.metaCtr.status = .ext2Detected)
    {ino : UInt32} {g pos : ℕ} (hg : g < descsPerBlock)
    (hpos : pos < r.sys.metaCtr.sb0.sInodesPerGroup)
    (hino : ino.toNat = g * r.sys.metaCtr.sb0.sInodesPerGroup + pos + 1) :
    ∃ r', r.locateInode (smrLayer env) ino =
        .ok (.of (Ext2GroupDesc.ofBlock ((a (sb0BlockNo + 1)).getD r.gdBuf) g) pos, r') ∧
      Shows r'.sys.dev a ∧ r'.inodeBuf = r.inodeBuf := by
  obtain ⟨d', hread, hd'⟩ := readGroupDesc_spec env h hstatus hg
  have hsub : (ino - 1).toNat = pos + g * r.sys.metaCtr.sb0.sInodesPerGroup := by
    have hle : (1 : UInt32) ≤ ino :=
      UInt32.le_iff_toNat_le.mpr (by rw [hino]; exact Nat.le_add_left _ _)
    rw [UInt32.toNat_sub_of_le _ _ hle, hino]
    exact (Nat.add_sub_cancel ..).trans (Nat.add_comm _ _)
  have hdiv : (ino - 1).toNat / r.sys.metaCtr.sb0.sInodesPerGroup = g := by
    rw [hsub, Nat.add_mul_div_right _ _ (Nat.zero_lt_of_lt hpos), Nat.div_eq_of_lt hpos,
      Nat.zero_add]
  have hmod : (ino - 1).toNat % r.sys.metaCtr.sb0.sInodesPerGroup = pos := by
    rw [hsub, Nat.add_mul_mod_self_right, Nat.mod_eq_of_lt hpos]
  have hint : asInt g = g := if_pos (hg.trans (by decide))
  rw [InodeReader.locateInode]
  dsimp only
  rw [if_neg (Nat.ne_zero_of_lt hpos), hdiv, hmod, hint, hread]
  exact ⟨_, rfl, hd', rfl⟩

theorem readExt2Inode_spec (hstatus : r.sys.metaCtr.status = .ext2Detected) {ino : UInt32}
    {place : InodePlace} {r' : InodeReader SmrDev}
    (hloc : r.locateInode (smrLayer env) ino = .ok (place, r'))
    (hshows : Shows r'.sys.dev a) (hbuf : r'.inodeBuf = r.inodeBuf)
    (hblk : place.blkNo < totalSmrBlocksCnt) :
    ∃ r'', r.readExt2Inode (smrLayer env) ino =
      .ok (some (.ofBlock ((a place.blkNo).getD r.inodeBuf) place.slot), r'') := by
  obtain ⟨d', hread, -⟩ := readOne_shows env hshows r'.inodeBuf hblk
  rw [hbuf] at hread
  rw [InodeReader.readExt2Inode, if_neg (not_not.mpr hstatus), hloc, ok_bind]
  dsimp only
  rw [hbuf, hread]
  exact ⟨_, rfl⟩

end Reads

/-! ## The places of inodes -/

namespace Ext2SuperBlock

/-- Block `x` is in the inode table of group `g`. -/
def InTable (sb : Ext2SuperBlock) (desc : Block) (g x : ℕ) : Prop :=
  (groupDesc (fun _ => desc) g).bgInodeTable ≤ x ∧
    x < (groupDesc (fun _ => desc) g).bgInodeTable + sb.tableBlks

/-- The inode tables are inside the device. -/
def TablesInside (sb : Ext2SuperBlock) (desc : Block) : Prop :=
  ∀ g < sb.gdCnt, ∀ x, sb.InTable desc g x → x < totalSmrBlocksCnt

/-- No block is in two of the inode tables. -/
def TablesDisjoint (sb : Ext2SuperBlock) (desc : Block) : Prop :=
  ∀ g < sb.gdCnt, ∀ g' < sb.gdCnt, ∀ x, sb.InTable desc g x → sb.InTable desc g' x → g = g'

/-- The numbers of the inodes. -/
def HasInode (sb : Ext2SuperBlock) (ino : UInt32) : Prop :=
  1 ≤ ino.toNat ∧ ino.toNat ≤ sb.gdCnt * sb.sInodesPerGroup

/-- The group of an inode. -/
def groupOf (sb : Ext2SuperBlock) (ino : UInt32) : ℕ := (ino.toNat - 1) / sb.sInodesPerGroup

/-- The number of an inode in its group. -/
def posInGroup (sb : Ext2SuperBlock) (ino : UInt32) : ℕ := (ino.toNat - 1) % sb.sInodesPerGroup

/-- The place of an inode, by the descriptors in `desc`. -/
def placeOf (sb : Ext2SuperBlock) (desc : Block) (ino : UInt32) : InodePlace :=
  .of (groupDesc (fun _ => desc) (sb.groupOf ino)) (sb.posInGroup ino)

section Places

variable {sb : Ext2SuperBlock} {desc : Block} {ino ino' : UInt32}

theorem HasInode.inodes_pos (h : sb.HasInode ino) : 0 < sb.sInodesPerGroup := by
  rcases Nat.eq_zero_or_pos sb.sInodesPerGroup with h0 | hpos
  · have hle := h.2
    rw [h0, Nat.mul_zero] at hle
    exact absurd h.1 (by omega)
  · exact hpos

theorem HasInode.groupOf_lt (h : sb.HasInode ino) : sb.groupOf ino < sb.gdCnt := by
  unfold groupOf
  rw [Nat.div_lt_iff_lt_mul h.inodes_pos]
  have h1 := h.1
  have h2 := h.2
  omega

theorem HasInode.posInGroup_lt (h : sb.HasInode ino) : sb.posInGroup ino < sb.sInodesPerGroup :=
  Nat.mod_lt _ h.inodes_pos

/-- An inode number is a group and a number in the group. -/
theorem HasInode.toNat_eq (h : sb.HasInode ino) :
    ino.toNat = sb.groupOf ino * sb.sInodesPerGroup + sb.posInGroup ino + 1 := by
  have hdiv := Nat.div_add_mod (ino.toNat - 1) sb.sInodesPerGroup
  have h1 := h.1
  unfold groupOf posInGroup
  rw [Nat.mul_comm] at hdiv
  omega

/-- The inode is in the table of its group. -/
theorem HasInode.inTable (h : sb.HasInode ino) (desc : Block) :
    sb.InTable desc (sb.groupOf ino) (sb.placeOf desc ino).blkNo := by
  have hpos := h.posInGroup_lt
  have hblk : sb.posInGroup ino * sizeofInode / ext2BlockSize < sb.tableBlks := by
    unfold tableBlks
    change sb.posInGroup ino * 128 / 4096 < (sb.sInodesPerGroup * 128 + (4096 - 1)) / 4096
    omega
  exact ⟨Nat.le_add_right _ _, Nat.add_lt_add_left hblk _⟩

/-- The inode is inside its block. -/
theorem slot_inside (sb : Ext2SuperBlock) (desc : Block) (ino : UInt32) :
    ((sb.placeOf desc ino).slot + 1) * sizeofInode ≤ ext2BlockSize := by
  have hlt : sb.posInGroup ino % 32 < 32 := Nat.mod_lt _ (by decide)
  change (sb.posInGroup ino % 32 + 1) * 128 ≤ 4096
  omega

/-- **No two inodes are in one place.** -/
theorem place_injective (hdisj : sb.TablesDisjoint desc) (h : sb.HasInode ino)
    (h' : sb.HasInode ino') (heq : sb.placeOf desc ino = sb.placeOf desc ino') : ino = ino' := by
  have hgroup : sb.groupOf ino = sb.groupOf ino' :=
    hdisj _ h.groupOf_lt _ h'.groupOf_lt _ (h.inTable desc) (by rw [heq]; exact h'.inTable desc)
  have hblk := congrArg InodePlace.blkNo heq
  have hslot := congrArg InodePlace.slot heq
  unfold placeOf at hblk hslot
  rw [hgroup] at hblk
  have hquot := Nat.add_left_cancel hblk
  change sb.posInGroup ino * 128 / 4096 = sb.posInGroup ino' * 128 / 4096 at hquot
  change sb.posInGroup ino % 32 = sb.posInGroup ino' % 32 at hslot
  have hpos : sb.posInGroup ino = sb.posInGroup ino' := by omega
  rw [← UInt32.toNat_inj, h.toNat_eq, h'.toNat_eq, hgroup, hpos]

end Places

end Ext2SuperBlock

/-! ## The lookup and the detection -/

section Agrees

variable (env : Env) (s : Ext2Sys SmrDev)

/-- Whatever the static buffers hold, the descriptor of group `g` is the one that the detector has
processed, and inode `ino` is looked for in place `p`, inside a block of `INO_TABLE_IDX`. -/
structure LooksUp (desc : Block) (g : ℕ) (ino : UInt32) (p : InodePlace) : Prop where
  group : ∀ r : InodeReader SmrDev, r.sys = s → ∃ r', r.readGroupDesc (smrLayer env) g =
    .ok (some (Ext2GroupDesc.ofBlock desc g), r')
  located : ∀ r : InodeReader SmrDev, r.sys = s →
    ∃ r', r.locateInode (smrLayer env) ino = .ok (p, r')
  read : ∀ r : InodeReader SmrDev, r.sys = s → ∃ r', r.readExt2Inode (smrLayer env) ino =
    .ok (some (.ofBlock ((s.dev.contents p.blkNo).getD r.inodeBuf) p.slot), r')
  recorded : p.blkNo ∈ s.metaCtr.metaBlks .inoTableIdx
  inside : (p.slot + 1) * sizeofInode ≤ ext2BlockSize

/-- **The lookup agrees with the detection** that has read the super block `sb` and the descriptors
`desc`: every inode has a place of its own, in the tables that are recorded. -/
def LookupAgrees (sb : Ext2SuperBlock) (desc : Block) : Prop :=
  ∃ place : UInt32 → InodePlace,
    (∀ ino, sb.HasInode ino → LooksUp env s desc (sb.groupOf ino) ino (place ino)) ∧
    ∀ ino ino', sb.HasInode ino → sb.HasInode ino' → place ino = place ino' → ino = ino'

variable {env s} {sb : Ext2SuperBlock} {desc : Block}

theorem looksUp_placeOf (hinv : DevInv s.dev) (hstatus : s.metaCtr.status = .ext2Detected)
    (hfollows : FollowsRecord ⟨desc, sb, True⟩ s.dev.contents s.metaCtr)
    (hheld : (s.dev.contents (sb0BlockNo + 1)).isSome = true) (hinside : sb.TablesInside desc)
    {ino : UInt32} (hino : sb.HasInode ino) :
    LooksUp env s desc (sb.groupOf ino) ino (sb.placeOf desc ino) := by
  have hshows : Shows s.dev s.dev.contents := ⟨hinv, fun _ _ => rfl⟩
  obtain ⟨b, hb⟩ := Option.isSome_iff_exists.mp hheld
  obtain rfl : b = desc := hfollows.held trivial b hb
  have hg := hino.groupOf_lt
  have hg8 : sb.groupOf ino < 8 := hg.trans_le hfollows.small
  have hg128 : sb.groupOf ino < descsPerBlock := hg8.trans (by decide)
  have hblk := hinside _ hg _ (hino.inTable b)
  have hinodes : s.metaCtr.sb0.sInodesPerGroup = sb.sInodesPerGroup := hfollows.inodes
  have hlocate : ∀ r : InodeReader SmrDev, r.sys = s →
      ∃ r', r.locateInode (smrLayer env) ino = .ok (sb.placeOf b ino, r') ∧
        Shows r'.sys.dev s.dev.contents ∧ r'.inodeBuf = r.inodeBuf := by
    rintro r rfl
    have hspec := locateInode_spec env hshows hstatus hg128
      (by rw [hinodes]; exact hino.posInGroup_lt) (by rw [hinodes]; exact hino.toNat_eq)
    rw [hb, Option.getD_some, ← groupDesc_const b hg8] at hspec
    exact hspec
  refine ⟨?_, fun r hr => ?_, fun r hr => ?_, ?_, sb.slot_inside b ino⟩
  · rintro r rfl
    obtain ⟨d', hread, -⟩ := readGroupDesc_spec env hshows hstatus hg128
    rw [hb] at hread
    exact ⟨_, hread⟩
  · obtain ⟨r', hloc, -⟩ := hlocate r hr
    exact ⟨r', hloc⟩
  · obtain ⟨r', hloc, hshows', hbuf⟩ := hlocate r hr
    subst hr
    exact readExt2Inode_spec env hstatus hloc hshows' hbuf hblk
  · have htable := hino.inTable b
    rw [hfollows.table]
    refine ⟨_, hg, _, Nat.sub_lt_left_of_lt_add htable.1 htable.2, ?_⟩
    rw [Nat.add_sub_cancel' htable.1, Nat.mod_eq_of_lt]
    rw [totalSmrBlocksCnt_eq] at hblk
    omega

end Agrees

/-- **The inode lookup.**  At the end of a run that has detected a file system, and has left the
block of the descriptors alone since it was read, the lookup agrees with the detection if that block
has not been dropped as a free block. -/
theorem inode_lookup_agrees (env : Env) (data : ℕ → Block) (ops : List HostOp)
    (outs : List (List Block)) (s : Ext2Sys SmrDev)
    (hrun : runModule env data ops = .ok (outs, s)) (hstatus : s.metaCtr.status = .ext2Detected)
    (st : WriteStep SmrDev) (post : List (WriteStep SmrDev))
    (hlast : LastDescs (moduleTrace env data ops) st post) (hkept : DescsKept (st :: post))
    (desc : Block) (hdesc : st.before.dev.contents (sb0BlockNo + 1) = some desc)
    (hheld : (s.dev.contents (sb0BlockNo + 1)).isSome = true)
    (hinside : st.after.metaCtr.sb0.TablesInside desc)
    (hdisj : st.after.metaCtr.sb0.TablesDisjoint desc) :
    LookupAgrees env s st.after.metaCtr.sb0 desc := by
  have hfollows := follows_of_run hrun hstatus hlast hkept hdesc
  refine ⟨st.after.metaCtr.sb0.placeOf desc, fun ino hino => ?_, fun ino ino' h h' heq => ?_⟩
  · exact looksUp_placeOf (devInv_of_runModule hrun) hstatus hfollows hheld hinside hino
  · exact Ext2SuperBlock.place_injective hdisj h h' heq

/-! ## A small file system -/

/-- A file system with 32 inodes in one group, and the write that ends its detection. -/
def lookupOps (bmp : Block) : List HostOp :=
  [.write 0 [smallSuperBlk 0, smallDescBlk, bmp, 0, 0], .write 9 [0]]

/-- Over the plain array the third write makes the detector read the descriptors, and at the end
their block has contents or not. -/
def LookupRun (bmp : Block) (held : Bool) : Prop :=
  (runOps arrayLayer true freshArray (lookupOps bmp)).toOption.any (fun r =>
      decide (r.2.metaCtr.status = .ext2Detected ∧
        (r.2.dev (sb0BlockNo + 1)).isSome = held)) = true ∧
    ((trace arrayLayer true freshArray (lookupOps bmp)).drop 2).head?.any (fun st =>
      decide (st.TakesDescs ∧ (st.before.dev (sb0BlockNo + 1)).map
        (fun b => (groupDesc (fun _ => b) 0).bgInodeTable) = some 4 ∧
        st.after.metaCtr.sb0.gdCnt = 1 ∧ st.after.metaCtr.sb0.sInodesPerGroup = 32)) = true ∧
    (∀ w ∈ ((trace arrayLayer true freshArray (lookupOps bmp)).drop 2).tail, ¬ w.TakesDescs) ∧
    ∀ w ∈ (trace arrayLayer true freshArray (lookupOps bmp)).drop 2, w.blkNo ≠ sb0BlockNo + 1

instance (bmp : Block) (held : Bool) : Decidable (LookupRun bmp held) :=
  inferInstanceAs (Decidable (_ ∧ _ ∧ _ ∧ _))

/-- The file system that has been read. -/
structure IsSmall (sb : Ext2SuperBlock) (desc : Block) : Prop where
  table : (groupDesc (fun _ => desc) 0).bgInodeTable = 4
  groups : sb.gdCnt = 1
  inodes : sb.sInodesPerGroup = 32

theorem IsSmall.tablesInside {sb : Ext2SuperBlock} {desc : Block} (h : IsSmall sb desc) :
    sb.TablesInside desc := by
  intro g hg x hx
  obtain rfl : g = 0 := by have := h.groups; omega
  have hlen : sb.tableBlks = 1 := by
    unfold Ext2SuperBlock.tableBlks
    rw [h.inodes]
    rfl
  have hlt := hx.2
  rw [h.table, hlen] at hlt
  rw [totalSmrBlocksCnt_eq]
  omega

theorem IsSmall.tablesDisjoint {sb : Ext2SuperBlock} {desc : Block} (h : IsSmall sb desc) :
    sb.TablesDisjoint desc := by
  intro g hg g' hg' x _ _
  have := h.groups
  omega

/-- The writes of a run over the module, where the run over the plain array is known. -/
theorem lookup_run {bmp : Block} {held : Bool} (h : LookupRun bmp held) :
    ∃ outs s st post desc, runModule awareEnv (fun _ => 0) (lookupOps bmp) = .ok (outs, s) ∧
      s.metaCtr.status = .ext2Detected ∧
      LastDescs (moduleTrace awareEnv (fun _ => 0) (lookupOps bmp)) st post ∧
      DescsKept (st :: post) ∧ st.before.dev.contents (sb0BlockNo + 1) = some desc ∧
      (s.dev.contents (sb0BlockNo + 1)).isSome = held ∧ IsSmall st.after.metaCtr.sb0 desc := by
  obtain ⟨hend, hthird, hlast, hkept⟩ := h
  cases harr : runOps arrayLayer true freshArray (lookupOps bmp) with
  | error e =>
    rw [harr] at hend
    cases hend
  | ok r =>
    rw [harr] at hend
    obtain ⟨hstatus, hheld⟩ := of_decide_eq_true hend
    obtain ⟨outs, s, hrun, htrace⟩ := aware_run_of_array (lookupOps bmp) (by rw [harr]; rfl)
    obtain ⟨r', hr', -, hrel⟩ := (runModule_refines awareEnv (fun _ => 0) _).ok_of_ok hrun
    obtain rfl := Except.ok.inj (harr.symm.trans hr')
    change List.Forall₂ _ (moduleTrace awareEnv (fun _ => 0) (lookupOps bmp)) _ at htrace
    have hdrop := List.forall₂_drop 2 htrace
    have hsplit := List.take_append_drop 2 (moduleTrace awareEnv (fun _ => 0) (lookupOps bmp))
    generalize (trace arrayLayer true freshArray (lookupOps bmp)).drop 2 = tr'
      at hdrop hthird hlast hkept
    generalize (moduleTrace awareEnv (fun _ => 0) (lookupOps bmp)).drop 2 = tr at hdrop hsplit
    cases hdrop with
    | nil => cases hthird
    | @cons st st' post post' hst hpost =>
      obtain ⟨htakes, htable, hgroups, hinodes⟩ := of_decide_eq_true hthird
      obtain ⟨desc, hdesc, htable⟩ := Option.map_eq_some_iff.mp htable
      have hctr : ∀ {w : WriteStep SmrDev} {w' : WriteStep ArrayDisk}, StepRel Shows w w' →
          (w.TakesDescs ↔ w'.TakesDescs) := by
        intro w w' hw
        rw [WriteStep.TakesDescs, WriteStep.TakesDescs, hw.before.metaCtr, hw.after.metaCtr]
      refine ⟨outs, s, st, post, desc, hrun, by rw [hrel.metaCtr]; exact hstatus,
        ⟨⟨_, hsplit.symm⟩, (hctr hst).mpr htakes, fun w hw => ?_⟩, fun w hw => ?_, ?_, ?_, ?_⟩
      · obtain ⟨w', hw', hrel'⟩ := exists_of_forall₂ hpost hw
        exact mt (hctr hrel').mp (hlast w' hw')
      · obtain ⟨w', hw', hrel'⟩ := exists_of_forall₂ (hpost.cons hst) hw
        rw [hrel'.blkNo]
        exact hkept w' hw'
      · rw [hst.before.dev.contents _ descBlk_lt]
        exact hdesc
      · rw [hrel.dev.contents _ descBlk_lt]
        exact hheld
      · rw [hst.after.metaCtr]
        exact ⟨htable, hgroups, hinodes⟩

/-- No block is free: every inode is found. -/
theorem inode_lookup_small : ∃ s sb desc, LookupAgrees awareEnv s sb desc ∧ sb.gdCnt = 1 := by
  obtain ⟨outs, s, st, post, desc, hrun, hstatus, hlast, hkept, hdesc, hheld, hsmall⟩ :=
    lookup_run (show LookupRun (fun _ => 0xFF) true by decide +kernel)
  exact ⟨s, st.after.metaCtr.sb0, desc, inode_lookup_agrees awareEnv _ _ outs s hrun hstatus st post
    hlast hkept desc hdesc hheld hsmall.tablesInside hsmall.tablesDisjoint, hsmall.groups⟩

/-- **A descriptor block that is marked as free.**  The end of the detection drops it, and the
lookup goes on with what `gd_buf` held before. -/
theorem dropped_descs_not_found :
    ∃ outs s st post desc,
      runModule awareEnv (fun _ => 0) (lookupOps fun i => if i = 0 then 0xFD else 0xFF) =
        .ok (outs, s) ∧ s.metaCtr.status = .ext2Detected ∧
      LastDescs (moduleTrace awareEnv (fun _ => 0)
        (lookupOps fun i => if i = 0 then 0xFD else 0xFF)) st post ∧
      DescsKept (st :: post) ∧ st.before.dev.contents (sb0BlockNo + 1) = some desc ∧
      st.after.metaCtr.sb0.gdCnt ≤ descsPerBlock ∧ st.after.metaCtr.sb0.TablesInside desc ∧
      st.after.metaCtr.sb0.TablesDisjoint desc ∧
      ¬ LookupAgrees awareEnv s st.after.metaCtr.sb0 desc := by
  obtain ⟨outs, s, st, post, desc, hrun, hstatus, hlast, hkept, hdesc, hheld, hsmall⟩ :=
    lookup_run (show LookupRun (fun i => if i = 0 then 0xFD else 0xFF) false by decide +kernel)
  refine ⟨outs, s, st, post, desc, hrun, hstatus, hlast, hkept, hdesc, ?_, hsmall.tablesInside,
    hsmall.tablesDisjoint, ?_⟩
  · rw [hsmall.groups]
    decide
  rintro ⟨place, hplace, -⟩
  have hino : st.after.metaCtr.sb0.HasInode 1 := by
    unfold Ext2SuperBlock.HasInode
    rw [hsmall.groups, hsmall.inodes]
    decide
  have hgroup : st.after.metaCtr.sb0.groupOf 1 = 0 := by
    have := hino.groupOf_lt
    rw [hsmall.groups] at this
    omega
  have hnone : s.dev.contents (sb0BlockNo + 1) = none := by
    rw [← Option.isNone_iff_eq_none, ← Option.isSome_eq_false_iff]
    exact hheld
  obtain ⟨d', hread, -⟩ := readGroupDesc_spec awareEnv (r := ⟨s, 0, ⟨0, 0, 0⟩, 0⟩)
    (g := 0) ⟨devInv_of_runModule hrun, fun _ _ => rfl⟩ hstatus (by decide)
  obtain ⟨r', hread'⟩ := (hplace 1 hino).group ⟨s, 0, ⟨0, 0, 0⟩, 0⟩ rfl
  rw [hgroup] at hread'
  have hsame := Option.some.inj (congrArg Prod.fst (Except.ok.inj (hread.symm.trans hread')))
  rw [hnone, ← groupDesc_const desc (by decide)] at hsame
  have htable := congrArg Ext2GroupDesc.bgInodeTable hsame
  rw [hsmall.table] at htable
  change (Ext2GroupDesc.ofBlock 0 0).bgInodeTable = 4 at htable
  exact absurd htable (by decide)

end MemSmr
