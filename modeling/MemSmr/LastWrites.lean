import MemSmr.Lives
import MemSmr.ReadYourWrites

/-!
# What was written last

With the detector off a read returns what was written last.  With the detector on a block can lose its
contents, and what was not saved is lost at a restart.  But no block ever has other contents than those
that were written to it last, and have not been taken back by a restart.

* `Within`: the contents of an array are in another one.
* `Written`: a state of a life, what the host has written, and what of it has been saved.
* `reads_give_last_writes`: what a read returns in such a state.
-/

namespace MemSmr

open Outcome

/-! ## Arrays -/

/-- What the array contains is in the other one. -/
def Within (a a' : ArrayDisk) : Prop := ∀ l < totalSmrBlocksCnt, ∀ b, a l = some b → a' l = some b

/-- What the host has written after a transfer. -/
def Segment.apply (seg : Segment) (a : ArrayDisk) : ArrayDisk :=
  if checkBlockSize seg.sector seg.nsect = true ∧ seg.write = true then
    HostOp.apply a (.write seg.firstBlk seg.bufs)
  else a

section Arrays

variable {a a' a'' : ArrayDisk} {t : Ext2Sys ArrayDisk}

theorem Within.trans (h : Within a a') (h' : Within a' a'') : Within a a'' :=
  fun l hl b hb => h' l hl b (h l hl b hb)

theorem within_of_eq (h : ∀ l < totalSmrBlocksCnt, a l = a' l) : Within a a' := by
  intro l hl b hb
  rw [← h l hl]
  exact hb

theorem within_of_sub (h : ∀ l, a l = a' l ∨ a l = none) : Within a a' := by
  intro l _ b hb
  rcases h l with heq | hnone
  · rw [← heq]
    exact hb
  · rw [hnone] at hb
    cases hb

/-- The same writes over both. -/
theorem Within.applyWrite (h : Within a a') (blkNo : ℕ) (bufs : List Block) :
    Within (HostOp.apply a (.write blkNo bufs)) (HostOp.apply a' (.write blkNo bufs)) := by
  intro l hl b hb
  simp only [HostOp.apply] at hb ⊢
  split_ifs at hb ⊢
  · exact hb
  · exact h l hl b hb

theorem Within.applySegment (h : Within a a') (seg : Segment) :
    Within (seg.apply a) (seg.apply a') := by
  rw [Segment.apply, Segment.apply]
  split_ifs
  · exact h.applyWrite _ _
  · exact h

/-- One block is written, and the detector takes away. -/
theorem writeOne_within (h : InPhase t) (aware : Bool) (buf : Block) (blkNo : ℕ) :
    Meets TableFault (fun t' => Within t'.dev (Function.update t.dev blkNo (some buf)))
      (t.writeOne arrayLayer aware buf blkNo) := by
  obtain ⟨desc, hphase⟩ := h
  refine (writeOne_array_spec hphase buf blkNo).mono ?_
  rintro - ⟨t₁, ht₁, rfl⟩
  have hsub : ∀ x, t₁.dev x = t.dev x ∨ t₁.dev x = none := by
    cases aware with
    | true => exact fun x => ht₁.sub x
    | false => exact fun x => Or.inl (by rw [show t₁ = t from ht₁])
  refine within_of_sub fun x => ?_
  show Function.update t₁.dev blkNo (some buf) x = _ ∨ Function.update t₁.dev blkNo (some buf) x = none
  by_cases hx : x = blkNo
  · subst hx
    rw [Function.update_self, Function.update_self]
    exact Or.inl rfl
  · rw [Function.update_of_ne hx, Function.update_of_ne hx]
    exact hsub x

/-- **A call of `write_smr_blocks`** leaves no block with contents that it did not have and that the call
has not written. -/
theorem writeSmrBlocks_within (h : InPhase t) (aware : Bool) (bufs : List Block) (blkNo : ℕ) :
    Meets TableFault (fun t' => Within t'.dev (HostOp.apply t.dev (.write blkNo bufs)))
      (t.writeSmrBlocks arrayLayer aware bufs blkNo) := by
  induction bufs generalizing t blkNo with
  | nil =>
    refine within_of_eq fun l _ => ?_
    exact (if_neg (by simp only [List.length_nil]; omega)).symm
  | cons buf bufs ih =>
    rw [Ext2Sys.writeSmrBlocks, ← HostOp.apply_write_cons]
    refine ((meets_writeOne_array h buf blkNo).and (writeOne_within h aware buf blkNo)).bind ?_
    rintro t₁ ⟨hphase, hone⟩
    exact (ih hphase (blkNo + 1)).mono fun t' hrest => hrest.trans (hone.applyWrite _ _)

theorem arrayTransfer_within (h : InPhase t) (aware : Bool) (seg : Segment) :
    Meets TableFault (fun r => Within r.2.dev (seg.apply t.dev)) (arrayTransfer aware t seg) := by
  have hsame : ∀ {r : Ext2Sys ArrayDisk},
      ¬ (checkBlockSize seg.sector seg.nsect = true ∧ seg.write = true) → r = t →
        Within r.dev (seg.apply t.dev) := by
    rintro r hno rfl
    rw [Segment.apply, if_neg hno]
    exact within_of_eq fun _ _ => rfl
  rw [arrayTransfer]
  split_ifs with hacc hwrite hnone
  · refine hsame (fun hboth => ?_) rfl
    rw [hacc] at hboth
    exact Bool.false_ne_true hboth.1
  · rw [Segment.apply, if_pos ⟨by simpa using hacc, hwrite⟩]
    exact (writeSmrBlocks_within h aware seg.bufs seg.firstBlk).bind fun t' ht' => ht'
  · exact hsame (fun hboth => hwrite hboth.2) rfl
  · refine (readSmrBlocks_array_spec t _ _).bind ?_
    rintro r ⟨hr, -⟩
    exact hsame (fun hboth => hwrite hboth.2) hr

/-- A restart of the array takes away and changes nothing. -/
theorem bootArray_within {y : ℕ × Ext2Sys ArrayDisk} (hy : bootArray t = .ok y) :
    Within y.2.dev t.dev := by
  rw [bootArray, Ext2MetaCtr.isExt2Fs] at hy
  by_cases hs : t.metaCtr.status = .ext2Detected
  · rw [if_pos (decide_eq_true hs)] at hy
    exact within_of_sub ((markAllFreeBlks_sub hs).of_ok hy)
  · rw [if_neg (by simpa using hs)] at hy
    obtain rfl := Except.ok.inj hy
    exact within_of_eq fun _ _ => rfl

end Arrays

/-! ## Lives -/

/-- A state of a life, with what the host has written to each block and what of it the images hold.  A
restart takes back what has not been saved. -/
inductive Written : Images → Ext2Sys SmrDev → ArrayDisk → ArrayDisk → Prop
  | first {x : Session} {s : Ext2Sys SmrDev} (hinit : memDiskInit x noImages = .ok s) :
    Written noImages s (fun _ => none) (fun _ => none)
  | transfer {im : Images} {env : Env} {seg : Segment} {out : ℕ → Block} {s s' : Ext2Sys SmrDev}
    {now saved : ArrayDisk} (h : Written im s now saved) (ht : doDataTransfer env s seg = .ok (out, s')) :
    Written im s' (seg.apply now) saved
  | restart {x x' : Session} {im im' : Images} {s s' : Ext2Sys SmrDev} {now saved : ArrayDisk}
    (h : Written im s now saved) (hexit : memDiskExit x im s = .ok im')
    (hinit : memDiskInit x' im' = .ok s') :
    Written im' s' (if x.save then now else saved) (if x.save then now else saved)

section Lives

variable {im : Images} {s s' : Ext2Sys SmrDev} {t : Ext2Sys ArrayDisk} {now saved : ArrayDisk}

/-- Every life has such a history. -/
theorem Lived.written (h : Lived im s) : ∃ now saved, Written im s now saved := by
  induction h with
  | first hinit => exact ⟨_, _, .first hinit⟩
  | transfer _ ht ih =>
    obtain ⟨now, saved, h⟩ := ih
    exact ⟨_, _, h.transfer ht⟩
  | restart _ hexit hinit ih =>
    obtain ⟨now, saved, h⟩ := ih
    exact ⟨_, _, h.restart hexit hinit⟩

/-- A transfer leaves no block with contents that it did not have and that were not written. -/
theorem Alive.transfer_within (h : Alive s t) {env : Env} {seg : Segment} {out : ℕ → Block}
    (ht : doDataTransfer env s seg = .ok (out, s')) :
    Within s'.dev.contents (seg.apply s.dev.contents) := by
  obtain ⟨⟨out', t'⟩, hrun, -, hst'⟩ := (doDataTransfer_refines h.sysRel seg).ok_of_ok ht
  have harr := (arrayTransfer_within h.phase env.aware seg).of_ok hrun
  have hbefore : Within t.dev s.dev.contents := within_of_eq fun l hl => (h.dev.contents l hl).symm
  exact (within_of_eq hst'.dev.contents).trans (harr.trans (hbefore.applySegment seg))

/-- **The contents are those that were written last**, in the module and in the images. -/
theorem Written.held (h : Written im s now saved) : ∃ snap t, Held im snap ∧ Alive s t ∧
    Within snap.dev saved ∧ Within s.dev.contents now := by
  have hload : ∀ {x : Session} {im : Images} {snap : Ext2Sys ArrayDisk} {s : Ext2Sys SmrDev},
      Held im snap → memDiskInit x im = .ok s → ∃ t, Alive s t ∧ Within s.dev.contents snap.dev := by
    intro x im snap s him hinit
    obtain ⟨y, hy, hs⟩ := (him.memDiskInit x).ok_of_ok hinit
    exact ⟨y.2, hs, (within_of_eq hs.dev.contents).trans (bootArray_within (t := snap.restarted) hy)⟩
  induction h with
  | first hinit =>
    obtain ⟨t, hs, hfresh⟩ := hload (.absent rfl rfl) hinit
    exact ⟨freshArray, t, .absent rfl rfl, hs, fun _ _ _ hb => hb, hfresh⟩
  | transfer _ ht ih =>
    obtain ⟨snap, t, him, hs, hsaved, hnow⟩ := ih
    obtain ⟨y, -, -, hs'⟩ := (hs.transfer _).ok_of_ok ht
    exact ⟨snap, y.2, him, hs', hsaved, (hs.transfer_within ht).trans (hnow.applySegment _)⟩
  | @restart x _ _ _ s _ now saved _ hexit hinit ih =>
    obtain ⟨snap, t, him, hs, hsaved, hnow⟩ := ih
    obtain ⟨im', hexit', him'⟩ := him.memDiskExit _ hs
    obtain rfl := Except.ok.inj (hexit.symm.trans hexit')
    obtain ⟨t', hs', hboot⟩ := hload him' hinit
    have hkept : Within (if x.save then t else snap).dev (if x.save then now else saved) := by
      split_ifs
      · exact (within_of_eq fun l hl => (hs.dev.contents l hl).symm).trans hnow
      · exact hsaved
    exact ⟨_, t', him', hs', hkept, hboot.trans hkept⟩

theorem Alive.betweenCalls (h : Alive s t) : BetweenCalls s :=
  ⟨{ t with metaCtr := s.metaCtr }, ⟨h.dev.toShows, rfl, h.sbsBuf, h.bgDescsBuf, h.blkBmp⟩, h.phase⟩

/-- **No stale data.**  In every life, with the detector on or off, whatever has been collected, swapped
out, trimmed, saved or not saved: a read gives for each block what the host has written to it last, or,
if the block has no contents, leaves the buffer as it is. -/
theorem reads_give_last_writes (im : Images) (s : Ext2Sys SmrDev) (now saved : ArrayDisk)
    (h : Written im s now saved) (env : Env) (seg : Segment) (out : ℕ → Block) (s' : Ext2Sys SmrDev)
    (hacc : checkBlockSize seg.sector seg.nsect = true) (hread : seg.write = false)
    (ht : doDataTransfer env s seg = .ok (out, s')) :
    ∀ i < seg.blks, now (seg.firstBlk + i) = some (out i) ∨
      s.dev.contents (seg.firstBlk + i) = none ∧ out i = seg.buffer i := by
  obtain ⟨-, t, -, hs, -, hnow⟩ := h.held
  obtain ⟨-, hrange, hout⟩ := hs.betweenCalls.readTransfer hacc hread ht
  intro i hi
  have hlt : seg.firstBlk + i < totalSmrBlocksCnt := by
    have := hrange (by omega)
    omega
  cases hblk : s.dev.contents (seg.firstBlk + i) with
  | none =>
    rw [hout i hi, hblk]
    exact Or.inr ⟨rfl, rfl⟩
  | some b =>
    rw [hout i hi, hblk]
    exact Or.inl (hnow _ hlt b hblk)

/-- A read of block 2. -/
def bitmapRead : Segment := ⟨16, 8, fun _ => 0, false⟩

/-- The bitmap of the small file system is read after a restart. -/
theorem reads_give_last_writes_small : ∃ im s now saved out s', Written im s now saved ∧
    doDataTransfer awareEnv s bitmapRead = .ok (out, s') ∧ now 2 = some (out 0) := by
  obtain ⟨p, ⟨im, s⟩, -, hlived, hdisk, hpq, -⟩ := smallDisk_lived
  obtain ⟨b, hb, hused, -⟩ := hdisk.bits
  have hblk : s.dev.contents 2 = some b := by
    refine (((hlived.restart_exact hpq fun _ => hdisk.there).2 2 (smallBlk_lt (by decide))).2 ?_).trans hb
    rintro ⟨-, hmarked⟩
    obtain ⟨b', hb', -, hclear⟩ := (hdisk.markedFree_iff 2).mp hmarked
    obtain rfl := Option.some.inj (hb.symm.trans hb')
    rw [hused] at hclear
    exact Bool.false_ne_true hclear.symm
  have hlater := hlived.reloaded hpq
  obtain ⟨-, t, -, hs⟩ := hlater.alive
  obtain ⟨now, saved, hwritten⟩ := hlater.written
  have hfirst : bitmapRead.firstBlk = 2 := by decide
  have hlen : bitmapRead.bufs.length = 1 := by decide
  have harr : ∃ y, arrayTransfer true t bitmapRead = .ok y := by
    rw [arrayTransfer, if_neg (by decide), if_neg (by decide), if_neg (by decide),
      readSmrBlocks_array t (by rw [hfirst, hlen]; exact smallBlk_lt (l := 2) (by decide))]
    exact ⟨_, rfl⟩
  obtain ⟨y, hy⟩ := harr
  have hrefines : Refines (PastEndFault awareEnv) _ (doDataTransfer awareEnv s bitmapRead) _ :=
    hs.transfer bitmapRead
  obtain ⟨⟨out, s'⟩, hread, -⟩ :=
    hrefines.ok_of_ok_right (not_pastEndFault awareEnv_pastEndNotFree) hy
  have hlast := reads_give_last_writes im s now saved hwritten awareEnv bitmapRead out s' (by decide)
    rfl hread 0 (by decide)
  rw [hfirst, Nat.add_zero, hblk] at hlast
  refine ⟨im, s, now, saved, out, s', hwritten, hread, ?_⟩
  exact hlast.resolve_right fun hnone => Option.some_ne_none b hnone.1

end Lives

end MemSmr
