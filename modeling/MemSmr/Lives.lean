import MemSmr.Sessions
import MemSmr.Phases
import MemSmr.TrimSafety
import Mathlib.Logic.Relation

/-!
# From one life of the module to the next

## 1.  The states of all lives

`Lived` is every state that can be reached from an empty host directory by transfers and restarts, with
the images from which the module was loaded.  `lived_invariants`: what holds in a first life, and so is
known of `init_smr_disk` and the transfers after it, holds in every life.

## 2.  What a restart trims

`mark_all_free_blks` is called by `mem_disk_init` too.  `trimsExactly` says what it does to an array, if
it can read the bitmaps; `restart_trims_free_blocks` says so of the module.

## 3.  Restart after restart

If no bitmap is marked free, then the next restart finds the same bitmaps, and trims nothing that has not
been trimmed before: `restarts_settle`.
-/

namespace MemSmr

open Outcome ShortIo IoFile

/-! ## 1.  The states of all lives -/

/-- A state of the module between `mem_disk_init` and `mem_disk_exit`, and the images that it was loaded
from. -/
inductive Lived : Images → Ext2Sys SmrDev → Prop
  | first {x : Session} {s : Ext2Sys SmrDev} (hinit : memDiskInit x noImages = .ok s) :
    Lived noImages s
  | transfer {im : Images} {env : Env} {seg : Segment} {out : ℕ → Block} {s s' : Ext2Sys SmrDev}
    (h : Lived im s) (ht : doDataTransfer env s seg = .ok (out, s')) : Lived im s'
  | restart {x x' : Session} {im im' : Images} {s s' : Ext2Sys SmrDev} (h : Lived im s)
    (hexit : memDiskExit x im s = .ok im') (hinit : memDiskInit x' im' = .ok s') : Lived im' s'

section Lives

variable {x x' : Session} {im im' : Images} {s s' : Ext2Sys SmrDev}

/-- The images hold a snapshot, and the module shows an array. -/
theorem Lived.alive (h : Lived im s) : ∃ snap t, Held im snap ∧ Alive s t := by
  induction h with
  | first hinit =>
    have him : Held noImages freshArray := .absent rfl rfl
    obtain ⟨y, -, hs⟩ := (him.memDiskInit _).ok_of_ok hinit
    exact ⟨freshArray, y.2, him, hs⟩
  | transfer _ ht ih =>
    obtain ⟨snap, t, him, hs⟩ := ih
    obtain ⟨y, -, -, hs'⟩ := (hs.transfer _).ok_of_ok ht
    exact ⟨snap, y.2, him, hs'⟩
  | restart _ hexit hinit ih =>
    obtain ⟨snap, t, him, hs⟩ := ih
    obtain ⟨im', hexit', him'⟩ := him.memDiskExit _ hs
    obtain rfl := Except.ok.inj (hexit.symm.trans hexit')
    obtain ⟨y, -, hs'⟩ := (him'.memDiskInit _).ok_of_ok hinit
    exact ⟨_, y.2, him', hs'⟩

theorem Lived.doRequest {env : Env} {queue : List Segment} {ended : List Ended} (h : Lived im s)
    (hrun : doRequest env s queue = .ok (ended, s')) : Lived im s' := by
  induction queue generalizing s ended with
  | nil =>
    obtain ⟨-, rfl⟩ := Prod.mk.inj (Except.ok.inj hrun)
    exact h
  | cons seg queue ih =>
    rw [MemSmr.doRequest] at hrun
    obtain ⟨⟨out, s₁⟩, hone, hrun⟩ := bind_eq_ok.mp hrun
    obtain ⟨⟨rest, s₂⟩, hrest, hrun⟩ := bind_eq_ok.mp hrun
    obtain ⟨-, rfl⟩ := Prod.mk.inj (Except.ok.inj hrun)
    exact ih (h.transfer hone) hrest

/-- A first life ends its requests if the array does. -/
theorem lived_of_array {outs : List (ℕ → Block)} {t : Ext2Sys ArrayDisk}
    (hpast : x.env.PastEndNotFree)
    (hrun : serveArray x.env.aware freshArray x.queue = .ok (outs, t)) :
    ∃ s, Lived noImages s ∧ Alive s t := by
  have him : Held noImages freshArray := .absent rfl rfl
  obtain ⟨s₀, hinit, hs₀⟩ := (him.memDiskInit x).ok_of_ok_right (not_pastEndFault hpast)
    (show bootArray freshArray.restarted = .ok (0, freshArray) from undetected_freshArray.boot)
  obtain ⟨⟨ended, s⟩, hserve, -, hs⟩ :=
    (hs₀.doRequest x.env x.queue).ok_of_ok_right (not_pastEndFault hpast) hrun
  exact ⟨s, (Lived.first hinit).doRequest hserve, hs⟩

/-- **The invariants hold in every life.**  In every state between `mem_disk_init` and `mem_disk_exit`,
after any transfers, restarts, resets of the counters and sessions that were not saved, the tables of the
translation layer are consistent and every slot has been appended to in order, the detector is in one of
its phases, and all that the module holds can be saved. -/
theorem lived_invariants (im : Images) (s : Ext2Sys SmrDev) (h : Lived im s) :
    DevInv s.dev ∧ PhaseInv s ∧ Storable s := by
  obtain ⟨snap, t, -, hs⟩ := h.alive
  have hstorable := hs.storable
  obtain ⟨desc, hphase⟩ := hs.phase
  have hst : SysRel Shows s { t with metaCtr := s.metaCtr } :=
    ⟨hs.dev.toShows, rfl, hs.sbsBuf, hs.bgDescsBuf, hs.blkBmp⟩
  exact ⟨hstorable.inv, phaseInv_of_phase hst hphase, hstorable⟩

/-- Block 5 is written, and the module is not saved. -/
theorem lived_invariants_unsaved :
    let x : Session := ⟨⟨false, false, fun _ => .validPhyBlock⟩, false, false, fun _ => 0,
      fun _ _ => 0, zeroStray, [⟨40, 8, fun _ => fun _ => 1, true⟩]⟩
    ∃ s s', Lived noImages s ∧ memDiskExit x noImages s = .ok noImages ∧
      memDiskInit x noImages = .ok s' ∧ DevInv s'.dev ∧ PhaseInv s' ∧ Storable s' := by
  intro x
  have hpast : x.env.PastEndNotFree := fun _ h => by cases h
  have hsome : (serveArray false freshArray x.queue).toOption.isSome = true := by decide +kernel
  cases hrun : serveArray false freshArray x.queue with
  | error e =>
    rw [hrun] at hsome
    cases hsome
  | ok r =>
    obtain ⟨s, hs, -⟩ := lived_of_array hpast hrun
    obtain ⟨s', hinit, -⟩ := ((Held.absent rfl rfl : Held noImages freshArray).memDiskInit x).ok_of_ok_right
      (not_pastEndFault hpast)
      (show bootArray freshArray.restarted = .ok (0, freshArray) from undetected_freshArray.boot)
    have hexit : memDiskExit x noImages s = .ok noImages := rfl
    exact ⟨s, s', hs, hexit, hinit, lived_invariants noImages s' (hs.restart hexit hinit)⟩

end Lives

/-! ## 2.  What a restart trims -/

/-- The position of bitmap `g` in `BLK_BMP_IDX`. -/
def Ext2MetaCtr.bitmap (m : Ext2MetaCtr) (g : ℕ) : ℕ := (m.metaBlks .blkBmpIdx).get g

/-- The number of bitmaps in `BLK_BMP_IDX`. -/
def Ext2MetaCtr.bitmapCnt (m : Ext2MetaCtr) : ℕ := (m.metaBlks .blkBmpIdx).size

/-- Some bitmap has the bit of the block clear. -/
def MarkedFree (a : ArrayDisk) (m : Ext2MetaCtr) (x : ℕ) : Prop :=
  ∃ g < m.bitmapCnt, ClearIn a m.sb0 m.bitmap g x

/-- The bitmaps have contents, and no bitmap is marked free in one that is read before it. -/
structure BitmapsThere (a : ArrayDisk) (m : Ext2MetaCtr) : Prop where
  there : ∀ g < m.bitmapCnt, HasBlock a (m.bitmap g)
  kept : ∀ g g', g' < g → g < m.bitmapCnt → ¬ ClearIn a m.sb0 m.bitmap g' (m.bitmap g)

section Trims

variable {a a' : ArrayDisk} {m m' : Ext2MetaCtr} {x : ℕ}

theorem SameSets.bitmapCnt (h : SameSets m m') : m.bitmapCnt = m'.bitmapCnt := h.size .blkBmpIdx

theorem SameSets.bitmap (h : SameSets m m') {g : ℕ} (hg : g < m.bitmapCnt) :
    m.bitmap g = m'.bitmap g := h.get .blkBmpIdx hg

/-- What a bitmap marks free depends on where it is and what it holds. -/
theorem ClearIn.of_same (hm : SameSets m m') {g : ℕ} (hg : g < m.bitmapCnt)
    (ha : a (m.bitmap g) = a' (m.bitmap g)) (h : ClearIn a m.sb0 m.bitmap g x) :
    ClearIn a' m'.sb0 m'.bitmap g x := by
  obtain ⟨b, hb, hx⟩ := h
  refine ⟨b, ?_, ?_⟩
  · rw [← hm.bitmap hg, ← ha]
    exact hb
  · rw [← hm.sb0]
    exact hx

theorem clearIn_iff_of_same (hm : SameSets m m') {g : ℕ} (hg : g < m.bitmapCnt)
    (ha : a (m.bitmap g) = a' (m.bitmap g)) :
    ClearIn a m.sb0 m.bitmap g x ↔ ClearIn a' m'.sb0 m'.bitmap g x := by
  refine ⟨fun h => h.of_same hm hg ha, fun h => h.of_same hm.symm ?_ ?_⟩
  · rw [← hm.bitmapCnt]
    exact hg
  · rw [← hm.bitmap hg]
    exact ha.symm

theorem markedFree_iff_of_same (hm : SameSets m m')
    (ha : ∀ g < m.bitmapCnt, a (m.bitmap g) = a' (m.bitmap g)) :
    MarkedFree a m x ↔ MarkedFree a' m' x := by
  constructor
  · rintro ⟨g, hg, hclear⟩
    exact ⟨g, hm.bitmapCnt ▸ hg, hclear.of_same hm hg (ha g hg)⟩
  · rintro ⟨g, hg, hclear⟩
    rw [← hm.bitmapCnt] at hg
    exact ⟨g, hg, (clearIn_iff_of_same hm hg (ha g hg)).mpr hclear⟩

theorem BitmapsThere.of_same (h : BitmapsThere a m) (hm : SameSets m m')
    (ha : ∀ l < totalSmrBlocksCnt, a l = a' l) : BitmapsThere a' m' := by
  have hagree : ∀ g < m.bitmapCnt, a (m.bitmap g) = a' (m.bitmap g) := fun g hg =>
    ha _ (h.there g hg).1
  refine ⟨fun g hg => ?_, fun g g' hlt hg hclear => ?_⟩
  · rw [← hm.bitmapCnt] at hg
    rw [← hm.bitmap hg]
    exact (h.there g hg).congr ha
  · rw [← hm.bitmapCnt] at hg
    rw [← hm.bitmap hg] at hclear
    exact h.kept g g' hlt hg ((clearIn_iff_of_same hm (hlt.trans hg) (hagree g' (hlt.trans hg))).mpr
      hclear)

/-- The blocks in `F` have lost their contents, and the others have not. -/
def TrimsExactly (a a' : ArrayDisk) (F : ℕ → Prop) : Prop :=
  ∀ x, (F x → a' x = none) ∧ (¬ F x → a' x = a x)

/-- **What `mark_all_free_blks` trims**, if it can read the bitmaps. -/
theorem trimsExactly {t : Ext2Sys ArrayDisk} (hs : t.metaCtr.status = .ext2Detected)
    (h : BitmapsThere t.dev t.metaCtr) :
    Meets TableFault (fun r => r.2.metaCtr = t.metaCtr ∧
      TrimsExactly t.dev r.2.dev (MarkedFree t.dev t.metaCtr)) (t.markAllFreeBlks arrayLayer) := by
  rw [Ext2Sys.markAllFreeBlks]
  refine meets_foldlM_range (fun k (r : ℕ × Ext2Sys ArrayDisk) => r.2.metaCtr = t.metaCtr ∧
    TrimsExactly t.dev r.2.dev fun x => ∃ g < k, ClearIn t.dev t.metaCtr.sb0 t.metaCtr.bitmap g x)
    ⟨rfl, fun x => ⟨fun hx => ?_, fun _ => rfl⟩⟩ ?_
  · obtain ⟨_, hg, -⟩ := hx
    exact absurd hg (Nat.not_lt_zero _)
  rintro g hg ⟨c, t'⟩ ⟨hctr, htrim⟩
  replace hctr : t'.metaCtr = t.metaCtr := hctr
  replace htrim : TrimsExactly t.dev t'.dev fun x =>
    ∃ g' < g, ClearIn t.dev t.metaCtr.sb0 t.metaCtr.bitmap g' x := htrim
  -- The bitmap is still there.
  obtain ⟨b, hb⟩ := Option.isSome_iff_exists.mp (h.there g hg).2
  have hread : t'.dev (t.metaCtr.bitmap g) = some b := by
    rw [(htrim _).2 ?_, hb]
    rintro ⟨g', hg', hclear⟩
    exact h.kept g g' hg' hg hclear
  have hstart : (g * t.metaCtr.sb0.sBlocksPerGroup + t.metaCtr.sb0.sFirstDataBlock) % 2 ^ 32 =
      t.metaCtr.sb0.groupStart g := by
    rw [Ext2SuperBlock.groupStart, Nat.add_comm]
  rw [Ext2Sys.markGroup]
  simp only [hctr, hs, hstart]
  refine (readOne_spec _ _ _).bind ?_
  rintro - rfl
  rw [show (t.metaCtr.metaBlks .blkBmpIdx).get g = t.metaCtr.bitmap g from rfl]
  simp only [hread, Option.getD_some]
  refine (markOneBlkBmp_spec _ _ _).bind ?_
  rintro ⟨c', d⟩ hd
  replace hd : d = t'.dev.trimFree b (t.metaCtr.sb0.groupStart g) 32768 := hd
  refine meets_pure.mpr ⟨rfl, fun x => ?_⟩
  have hnew : ClearIn t.dev t.metaCtr.sb0 t.metaCtr.bitmap g x ↔
      t.metaCtr.sb0.groupStart g ≤ x ∧ x < t.metaCtr.sb0.groupStart g + 32768 ∧
        getBit b (x - t.metaCtr.sb0.groupStart g) = false := by
    constructor
    · rintro ⟨b', hb', hx⟩
      obtain rfl := Option.some.inj (hb.symm.trans hb')
      exact hx
    · exact fun hx => ⟨b, hb, hx⟩
  show ((∃ g' < g + 1, ClearIn t.dev t.metaCtr.sb0 t.metaCtr.bitmap g' x) → d x = none) ∧
    ((¬ ∃ g' < g + 1, ClearIn t.dev t.metaCtr.sb0 t.metaCtr.bitmap g' x) → d x = t.dev x)
  rw [Nat.exists_lt_succ_right, hd]
  by_cases hfree : ClearIn t.dev t.metaCtr.sb0 t.metaCtr.bitmap g x
  · exact ⟨fun _ => if_pos (hnew.mp hfree), fun hno => absurd (Or.inr hfree) hno⟩
  · have hsame : t'.dev.trimFree b (t.metaCtr.sb0.groupStart g) 32768 x = t'.dev x :=
      if_neg (mt hnew.mpr hfree)
    rw [hsame]
    exact ⟨fun hor => (htrim x).1 (hor.resolve_right hfree),
      fun hno => (htrim x).2 fun hold => hno (Or.inl hold)⟩

/-- The same for a restart of the array. -/
theorem bootArray_exact {t : Ext2Sys ArrayDisk} {y : ℕ × Ext2Sys ArrayDisk}
    (h : t.metaCtr.status = .ext2Detected → BitmapsThere t.dev t.metaCtr)
    (hy : bootArray t = .ok y) : y.2.metaCtr = t.metaCtr ∧ TrimsExactly t.dev y.2.dev
      fun x => t.metaCtr.status = .ext2Detected ∧ MarkedFree t.dev t.metaCtr x := by
  rw [bootArray, Ext2MetaCtr.isExt2Fs] at hy
  by_cases hs : t.metaCtr.status = .ext2Detected
  · rw [if_pos (decide_eq_true hs)] at hy
    obtain ⟨hctr, htrim⟩ := (trimsExactly hs (h hs)).of_ok hy
    exact ⟨hctr, fun x => ⟨fun hx => (htrim x).1 hx.2, fun hx => (htrim x).2 fun hf => hx ⟨hs, hf⟩⟩⟩
  · rw [if_neg (by simpa using hs)] at hy
    obtain rfl := Except.ok.inj hy
    exact ⟨rfl, fun x => ⟨fun hx => absurd hx.1 hs, fun _ => rfl⟩⟩

end Trims

/-- The module is unloaded and saved, and loaded again. -/
def Reloaded (p q : Images × Ext2Sys SmrDev) : Prop :=
  ∃ x x' : Session, x.save = true ∧ memDiskExit x p.1 p.2 = .ok q.1 ∧ memDiskInit x' q.1 = .ok q.2

/-- A restart ends if the array restarts. -/
theorem Lived.exists_reloaded {im : Images} {s : Ext2Sys SmrDev} {t : Ext2Sys ArrayDisk}
    {y : ℕ × Ext2Sys ArrayDisk} (h : Lived im s) (hs : Alive s t) {x : Session}
    (hsave : x.save = true) (hpast : x.env.PastEndNotFree) (hboot : bootArray t.restarted = .ok y) :
    ∃ im' s', Reloaded (im, s) (im', s') ∧ Alive s' y.2 := by
  obtain ⟨snap, -, him, -⟩ := h.alive
  obtain ⟨im', hexit, him'⟩ := him.memDiskExit x hs
  rw [if_pos hsave] at him'
  obtain ⟨s', hinit, hs'⟩ := (him'.memDiskInit x).ok_of_ok_right (not_pastEndFault hpast) hboot
  exact ⟨im', s', ⟨x, x, hsave, hexit, hinit⟩, hs'⟩

/-- The file system has been detected, and some bitmap has the bit of the block clear. -/
def Ext2Sys.FreeBlk (s : Ext2Sys SmrDev) (l : ℕ) : Prop :=
  s.metaCtr.status = .ext2Detected ∧ MarkedFree s.dev.contents s.metaCtr l

section Restarts

variable {p q : Images × Ext2Sys SmrDev} {s s' : Ext2Sys SmrDev}

/-- The same bitmaps mark the same blocks free. -/
theorem freeBlk_iff_of_same (hsets : SameSets s.metaCtr s'.metaCtr)
    (hsame : s.metaCtr.status = .ext2Detected → ∀ g < s.metaCtr.bitmapCnt,
      s.dev.contents (s.metaCtr.bitmap g) = s'.dev.contents (s.metaCtr.bitmap g)) (l : ℕ) :
    s'.FreeBlk l ↔ s.FreeBlk l := by
  rw [Ext2Sys.FreeBlk, Ext2Sys.FreeBlk, ← hsets.status]
  exact and_congr_right fun hs => (markedFree_iff_of_same hsets (hsame hs)).symm

theorem Lived.reloaded (h : Lived p.1 p.2) (hpq : Reloaded p q) : Lived q.1 q.2 := by
  obtain ⟨x, x', -, hexit, hinit⟩ := hpq
  exact h.restart hexit hinit

/-- A restart, and the vectors too. -/
theorem Lived.restart_exact (h : Lived p.1 p.2) (hpq : Reloaded p q)
    (hbmp : p.2.metaCtr.status = .ext2Detected → BitmapsThere p.2.dev.contents p.2.metaCtr) :
    SameSets p.2.metaCtr q.2.metaCtr ∧ ∀ l < totalSmrBlocksCnt,
      (p.2.FreeBlk l → q.2.dev.contents l = none) ∧
        (¬ p.2.FreeBlk l → q.2.dev.contents l = p.2.dev.contents l) := by
  obtain ⟨x, x', hsave, hexit, hinit⟩ := hpq
  obtain ⟨snap, t, him, hs⟩ := h.alive
  obtain ⟨im', hexit', him'⟩ := him.memDiskExit x hs
  obtain rfl := Except.ok.inj (hexit.symm.trans hexit')
  rw [if_pos hsave] at him'
  obtain ⟨y, hboot, hs'⟩ := (him'.memDiskInit x').ok_of_ok hinit
  -- The same bitmaps are in the array.
  have hagree := hs.dev.contents
  have hthere : t.restarted.metaCtr.status = .ext2Detected →
      BitmapsThere t.restarted.dev t.restarted.metaCtr := fun hst =>
    (hbmp (hs.ctr.status.trans hst)).of_same hs.ctr hagree
  obtain ⟨hctr, htrim⟩ := bootArray_exact hthere hboot
  have hfree : ∀ l, p.2.FreeBlk l ↔
      t.metaCtr.status = .ext2Detected ∧ MarkedFree t.dev t.metaCtr l := by
    intro l
    rw [Ext2Sys.FreeBlk, hs.ctr.status]
    refine and_congr_right fun hst => markedFree_iff_of_same hs.ctr fun g hg => ?_
    exact hagree _ ((hbmp (hs.ctr.status.trans hst)).there g hg).1
  refine ⟨?_, fun l hl => ?_⟩
  · refine hs.ctr.trans ?_
    have hrest := hs'.ctr
    rw [hctr] at hrest
    exact hrest.symm
  · rw [hs'.dev.contents l hl, hagree l hl, hfree]
    exact htrim l

/-- **What a restart trims.**  The module is unloaded, with the images saved, and loaded again, in
whatever state it is and whatever it has gone through before.  If a file system has been detected and its
bitmaps can be read, then the blocks that they mark free have no contents any more; all others have
kept theirs. -/
theorem restart_trims_free_blocks (im im' : Images) (s s' : Ext2Sys SmrDev) (h : Lived im s)
    (hrestart : Reloaded (im, s) (im', s'))
    (hbmp : s.metaCtr.status = .ext2Detected → BitmapsThere s.dev.contents s.metaCtr) :
    s'.metaCtr.status = s.metaCtr.status ∧ ∀ l < totalSmrBlocksCnt,
      (s.FreeBlk l → s'.dev.contents l = none) ∧
        (¬ s.FreeBlk l → s'.dev.contents l = s.dev.contents l) := by
  obtain ⟨hsets, htrim⟩ := h.restart_exact hrestart hbmp
  exact ⟨hsets.status.symm, htrim⟩

/-- The small file system, whose bitmap has the bit of block 100 clear, and this block, whose write ends
the detection. -/
def smallSession : Session where
  env := awareEnv
  save := true
  reset := false
  data _ := 0
  junk _ _ := 0
  stray := zeroStray
  queue :=
    [⟨0, 40, fun i => [smallSuperBlk 0, smallDescBlk,
        fun k => if k.val = 12 then 0xEF else 0xFF].getD i 0, true⟩, ⟨800, 8, fun _ _ => 7, true⟩]

theorem smallBlk_lt {l : ℕ} (hl : l ≤ 100) : l < totalSmrBlocksCnt := by
  rw [totalSmrBlocksCnt_eq]
  omega

/-- The disk after these transfers. -/
structure SmallDisk (a : ArrayDisk) (m : Ext2MetaCtr) : Prop where
  status : m.status = .ext2Detected
  bitmapCnt : m.bitmapCnt = 1
  bitmap : m.bitmap 0 = 2
  start : m.sb0.groupStart 0 = 0
  blk : (a 100).isSome = true
  bits : ∃ b, a 2 = some b ∧ getBit b 2 = true ∧ getBit b 100 = false

/-- What the only bitmap marks free, if it is block 2. -/
theorem markedFree_iff_of_one {a : ArrayDisk} {m : Ext2MetaCtr} (hcnt : m.bitmapCnt = 1)
    (hbmp : m.bitmap 0 = 2) (hstart : m.sb0.groupStart 0 = 0) (x : ℕ) :
    MarkedFree a m x ↔ ∃ b, a 2 = some b ∧ x < 32768 ∧ getBit b x = false := by
  rw [MarkedFree, hcnt]
  simp only [Nat.exists_lt_succ_right, Nat.not_lt_zero, false_and, exists_false, false_or, ClearIn,
    hbmp, hstart, Nat.zero_le, Nat.zero_add, Nat.sub_zero, true_and]

theorem SmallDisk.markedFree_iff {a : ArrayDisk} {m : Ext2MetaCtr} (h : SmallDisk a m) (x : ℕ) :
    MarkedFree a m x ↔ ∃ b, a 2 = some b ∧ x < 32768 ∧ getBit b x = false :=
  markedFree_iff_of_one h.bitmapCnt h.bitmap h.start x

theorem SmallDisk.there {a : ArrayDisk} {m : Ext2MetaCtr} (h : SmallDisk a m) : BitmapsThere a m := by
  obtain ⟨b, hb, -⟩ := h.bits
  refine ⟨fun g hg => ?_, fun g g' hlt hg => ?_⟩
  · rw [h.bitmapCnt] at hg
    obtain rfl : g = 0 := by omega
    rw [h.bitmap, HasBlock, hb]
    exact ⟨smallBlk_lt (by decide), rfl⟩
  · rw [h.bitmapCnt] at hg
    omega

/-- A module in its first life that has such a disk, and two restarts. -/
theorem smallDisk_lived : ∃ p q r, Lived p.1 p.2 ∧ SmallDisk p.2.dev.contents p.2.metaCtr ∧
    Reloaded p q ∧ Reloaded q r := by
  have hall : (serveArray true freshArray smallSession.queue).toOption.any (fun r =>
      (bootArray r.2.restarted).toOption.any (fun y =>
        (bootArray y.2.restarted).toOption.any fun _ => true) &&
      decide (r.2.metaCtr.status = .ext2Detected ∧ r.2.metaCtr.bitmapCnt = 1 ∧
        r.2.metaCtr.bitmap 0 = 2 ∧ r.2.metaCtr.sb0.groupStart 0 = 0 ∧ (r.2.dev 100).isSome = true) &&
      (r.2.dev 2).any fun b => decide (getBit b 2 = true ∧ getBit b 100 = false)) = true := by
    decide +kernel
  obtain ⟨⟨outs, t⟩, hrun, hr⟩ := ok_of_any hall
  simp only [Bool.and_eq_true, decide_eq_true_eq] at hr
  obtain ⟨⟨hboots, hstatus, hcnt, hbmp, hstart, hblk⟩, hbits⟩ := hr
  obtain ⟨y, hy, hboot⟩ := ok_of_any hboots
  obtain ⟨z, hz, -⟩ := ok_of_any hboot
  obtain ⟨b, hb, hbits⟩ := (Option.any_eq_true _ _).mp hbits
  have hpast : smallSession.env.PastEndNotFree := awareEnv_pastEndNotFree
  obtain ⟨s, hlived, hs⟩ := lived_of_array hpast hrun
  obtain ⟨im₁, s₁, hfirst, hs₁⟩ := hlived.exists_reloaded hs rfl hpast hy
  obtain ⟨im₂, s₂, hsecond, -⟩ := (hlived.reloaded hfirst).exists_reloaded hs₁ rfl hpast hz
  have hsets := hs.ctr
  have hagree := hs.dev.contents
  refine ⟨(noImages, s), (im₁, s₁), (im₂, s₂), hlived, ⟨hsets.status.trans hstatus,
    hsets.bitmapCnt.trans hcnt, ?_, ?_, ?_, b, ?_, of_decide_eq_true hbits⟩, hfirst, hsecond⟩
  · refine (hsets.bitmap ?_).trans hbmp
    rw [hsets.bitmapCnt, hcnt]
    exact Nat.one_pos
  · rw [hsets.sb0]
    exact hstart
  · rw [hagree 100 (smallBlk_lt le_rfl)]
    exact hblk
  · rw [hagree 2 (smallBlk_lt (by decide))]
    exact hb

/-- Block 100 is lost at the restart, and the bitmap is not. -/
theorem restart_trims_free_blocks_small : ∃ im im' s s', Lived im s ∧ Reloaded (im, s) (im', s') ∧
    s.metaCtr.status = .ext2Detected ∧ (s.dev.contents 100).isSome = true ∧
    s'.dev.contents 100 = none ∧ s'.dev.contents 2 = s.dev.contents 2 := by
  obtain ⟨⟨im, s⟩, ⟨im', s'⟩, -, hlived, hdisk, hrestart, -⟩ := smallDisk_lived
  obtain ⟨-, htrim⟩ := restart_trims_free_blocks im im' s s' hlived hrestart fun _ => hdisk.there
  obtain ⟨b, hb, hused, hfree⟩ := hdisk.bits
  refine ⟨im, im', s, s', hlived, hrestart, hdisk.status, hdisk.blk,
    (htrim 100 (smallBlk_lt le_rfl)).1 ⟨hdisk.status, ?_⟩,
    (htrim 2 (smallBlk_lt (by decide))).2 fun hf => ?_⟩
  · exact (hdisk.markedFree_iff 100).mpr ⟨b, hb, by decide, hfree⟩
  · obtain ⟨b', hb', -, hclear⟩ := (hdisk.markedFree_iff 2).mp hf.2
    obtain rfl := Option.some.inj (hb.symm.trans hb')
    rw [hused] at hclear
    exact Bool.false_ne_true hclear.symm

end Restarts

/-! ## 3.  Restart after restart -/

/-- The bitmaps have contents, and none of them is marked free. -/
def BitmapsUsed (s : Ext2Sys SmrDev) : Prop :=
  s.metaCtr.status = .ext2Detected → ∀ g < s.metaCtr.bitmapCnt,
    HasBlock s.dev.contents (s.metaCtr.bitmap g) ∧
      ¬ MarkedFree s.dev.contents s.metaCtr (s.metaCtr.bitmap g)

/-- Nothing is left to trim. -/
structure Settled (s : Ext2Sys SmrDev) : Prop where
  bitmaps : BitmapsUsed s
  trimmed : ∀ l < totalSmrBlocksCnt, s.FreeBlk l → s.dev.contents l = none

section Settle

variable {p q : Images × Ext2Sys SmrDev} {s : Ext2Sys SmrDev}

theorem BitmapsUsed.there (h : BitmapsUsed s) (hs : s.metaCtr.status = .ext2Detected) :
    BitmapsThere s.dev.contents s.metaCtr := by
  refine ⟨fun g hg => (h hs g hg).1, fun g g' hlt hg hclear => ?_⟩
  exact (h hs g hg).2 ⟨g', hlt.trans hg, hclear⟩

/-- After a restart nothing is left to trim. -/
theorem BitmapsUsed.settled (hbmp : BitmapsUsed p.2) (h : Lived p.1 p.2) (hpq : Reloaded p q) :
    Settled q.2 := by
  obtain ⟨hsets, htrim⟩ := h.restart_exact hpq hbmp.there
  -- The bitmaps are what they were.
  have hagree : p.2.metaCtr.status = .ext2Detected → ∀ g < p.2.metaCtr.bitmapCnt,
      p.2.dev.contents (p.2.metaCtr.bitmap g) = q.2.dev.contents (p.2.metaCtr.bitmap g) := by
    intro hs g hg
    obtain ⟨hblk, hused⟩ := hbmp hs g hg
    exact ((htrim _ hblk.1).2 fun hfree => hused hfree.2).symm
  refine ⟨fun hs g hg => ?_, fun l hl hf =>
    (htrim l hl).1 ((freeBlk_iff_of_same hsets hagree l).mp hf)⟩
  rw [← hsets.status] at hs
  rw [← hsets.bitmapCnt] at hg
  obtain ⟨⟨hlt, hsome⟩, hused⟩ := hbmp hs g hg
  rw [← hsets.bitmap hg, ← markedFree_iff_of_same hsets (hagree hs)]
  refine ⟨⟨hlt, ?_⟩, hused⟩
  rw [← hagree hs g hg]
  exact hsome

/-- A restart of a module in which nothing is left to trim. -/
theorem Settled.restart (hsettled : Settled p.2) (h : Lived p.1 p.2) (hpq : Reloaded p q) :
    ∀ l < totalSmrBlocksCnt, q.2.dev.contents l = p.2.dev.contents l := by
  intro l hl
  obtain ⟨-, htrim⟩ := h.restart_exact hpq hsettled.bitmaps.there
  by_cases hfree : p.2.FreeBlk l
  · rw [(htrim l hl).1 hfree, hsettled.trimmed l hl hfree]
  · exact (htrim l hl).2 hfree

/-- **Restarts settle.**  If the bitmaps have contents and none of them is marked free, then the first
restart is the last one that changes anything: after it the module can be unloaded and loaded as often
as one likes, and every block has the same contents. -/
theorem restarts_settle (p q r : Images × Ext2Sys SmrDev) (h : Lived p.1 p.2)
    (hbmp : BitmapsUsed p.2) (hpq : Reloaded p q) (hqr : Relation.ReflTransGen Reloaded q r) :
    ∀ l < totalSmrBlocksCnt, r.2.dev.contents l = q.2.dev.contents l := by
  suffices hr : Lived r.1 r.2 ∧ Settled r.2 ∧
      ∀ l < totalSmrBlocksCnt, r.2.dev.contents l = q.2.dev.contents l from hr.2.2
  induction hqr with
  | refl => exact ⟨h.reloaded hpq, hbmp.settled h hpq, fun _ _ => rfl⟩
  | tail _ hlast ih =>
    obtain ⟨hlived, hsettled, hsame⟩ := ih
    refine ⟨hlived.reloaded hlast, hsettled.bitmaps.settled hlived hlast, fun l hl => ?_⟩
    rw [hsettled.restart hlived hlast l hl, hsame l hl]

/-- The bitmap of the small file system is not marked free. -/
theorem restarts_settle_small : ∃ p q r, Lived p.1 p.2 ∧ p.2.metaCtr.status = .ext2Detected ∧
    Reloaded p q ∧ Reloaded q r ∧ ∀ l < totalSmrBlocksCnt,
      r.2.dev.contents l = q.2.dev.contents l := by
  obtain ⟨p, q, r, hlived, hdisk, hpq, hqr⟩ := smallDisk_lived
  refine ⟨p, q, r, hlived, hdisk.status, hpq, hqr,
    restarts_settle p q r hlived (fun _ g hg => ?_) hpq (.single hqr)⟩
  refine ⟨hdisk.there.there g hg, fun hmarked => ?_⟩
  rw [hdisk.bitmapCnt] at hg
  obtain rfl : g = 0 := by omega
  rw [hdisk.bitmap, hdisk.markedFree_iff] at hmarked
  obtain ⟨b, hb, hused, -⟩ := hdisk.bits
  obtain ⟨b', hb', -, hclear⟩ := hmarked
  obtain rfl := Option.some.inj (hb.symm.trans hb')
  rw [hused] at hclear
  exact Bool.false_ne_true hclear.symm

end Settle

end MemSmr
