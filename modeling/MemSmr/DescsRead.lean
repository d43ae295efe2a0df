import MemSmr.DetectedLayout
import MemSmr.Compatible

/-!
# The write at which the descriptors are read

In every run that ends with a file system detected, the detector has read the group descriptors in
one call, and has not looked at them since.

* `TakesDescs`, `LastDescs`: the last write of a run whose call of the detector reads them.
* `DescsRecord`, `noteWrite`: what is remembered of that call along a run.
* `descsInv_step`, `follows_of_run`: what the detector has recorded stays what it has read.
* `exists_lastDescs`: there is such a write.
-/

namespace MemSmr

open Outcome

/-! ## The write -/

/-- The descriptors have been read and the detection has not been given up. -/
def Ext2MetaCtr.KnowsDescs (m : Ext2MetaCtr) : Prop :=
  m.HasDescs ∨ m.status = .ext2Detected

instance (m : Ext2MetaCtr) : Decidable m.KnowsDescs :=
  inferInstanceAs (Decidable ((_ ∨ _ ∨ _) ∨ _))

/-- The detector reads the descriptors when it is called for this write. -/
def WriteStep.TakesDescs {σ : Type} (st : WriteStep σ) : Prop :=
  ¬ st.before.metaCtr.KnowsDescs ∧ st.after.metaCtr.KnowsDescs

instance {σ : Type} (st : WriteStep σ) : Decidable st.TakesDescs :=
  inferInstanceAs (Decidable (_ ∧ _))

/-- The writes of a run of the module. -/
def moduleTrace (env : Env) (data : ℕ → Block) (ops : List HostOp) : List (WriteStep SmrDev) :=
  trace (smrLayer env) env.aware (initSmrDisk (freshModule data)) ops

/-- `st` is the last of the writes at which the descriptors are read, and `post` are the writes
after it. -/
structure LastDescs {σ : Type} (tr : List (WriteStep σ)) (st : WriteStep σ)
    (post : List (WriteStep σ)) : Prop where
  split : ∃ pre, tr = pre ++ st :: post
  takes : st.TakesDescs
  last : ∀ w ∈ post, ¬ w.TakesDescs

/-- None of the writes is to the block of the descriptors. -/
def DescsKept {σ : Type} (l : List (WriteStep σ)) : Prop := ∀ w ∈ l, w.blkNo ≠ sb0BlockNo + 1

/-! ## What is remembered -/

/-- The descriptors that were read, the super block at that time, and whether the block of the
descriptors has been left alone since. -/
structure DescsRecord where
  desc : Block
  sb : Ext2SuperBlock
  kept : Prop

/-- One more write. -/
def noteWrite (v : Option DescsRecord) (st : WriteStep SmrDev) : Option DescsRecord :=
  if st.TakesDescs then
    (st.before.dev.contents (sb0BlockNo + 1)).map fun desc =>
      ⟨desc, st.after.metaCtr.sb0, st.blkNo ≠ sb0BlockNo + 1⟩
  else v.map fun r => { r with kept := r.kept ∧ st.blkNo ≠ sb0BlockNo + 1 }

/-- The writes after the descriptors have been read. -/
theorem foldl_noteWrite_post {post : List (WriteStep SmrDev)} (hpost : ∀ w ∈ post, ¬ w.TakesDescs)
    {r : DescsRecord} (hkept : DescsKept post) (h : r.kept) :
    ∃ r', post.foldl noteWrite (some r) = some r' ∧ r'.desc = r.desc ∧ r'.sb = r.sb ∧ r'.kept := by
  induction post generalizing r with
  | nil => exact ⟨r, rfl, rfl, rfl, h⟩
  | cons w post ih =>
    obtain ⟨hw, hpost⟩ := List.forall_mem_cons.mp hpost
    obtain ⟨hblk, hkept⟩ := List.forall_mem_cons.mp hkept
    rw [List.foldl_cons, noteWrite, if_neg hw]
    exact ih hpost (r := { r with kept := r.kept ∧ w.blkNo ≠ sb0BlockNo + 1 }) hkept ⟨h, hblk⟩

theorem LastDescs.foldl_noteWrite {tr post : List (WriteStep SmrDev)} {st : WriteStep SmrDev}
    (h : LastDescs tr st post) (hkept : DescsKept (st :: post)) {desc : Block}
    (hdesc : st.before.dev.contents (sb0BlockNo + 1) = some desc) :
    ∃ r, tr.foldl noteWrite none = some r ∧ r.desc = desc ∧ r.sb = st.after.metaCtr.sb0 ∧
      r.kept := by
  obtain ⟨⟨pre, rfl⟩, htakes, hlast⟩ := h
  obtain ⟨hblk, hkept⟩ := List.forall_mem_cons.mp hkept
  rw [List.foldl_append, List.foldl_cons, noteWrite, if_pos htakes, hdesc]
  exact foldl_noteWrite_post hlast hkept hblk

/-- Something is remembered only when the descriptors have been read. -/
theorem lastDescs_of_foldl {tr : List (WriteStep SmrDev)} {r : DescsRecord}
    (h : tr.foldl noteWrite none = some r) : ∃ st post, LastDescs tr st post := by
  induction tr using List.reverseRecOn generalizing r with
  | nil => cases h
  | append_singleton tr w ih =>
    by_cases hw : w.TakesDescs
    · exact ⟨w, [], ⟨tr, rfl⟩, hw, fun _ hmem => absurd hmem List.not_mem_nil⟩
    · rw [List.foldl_append, List.foldl_cons, List.foldl_nil, noteWrite, if_neg hw] at h
      obtain ⟨r', hr', -⟩ := Option.map_eq_some_iff.mp h
      obtain ⟨st, post, ⟨pre, rfl⟩, htakes, hlast⟩ := ih hr'
      refine ⟨st, post ++ [w], ⟨pre, by rw [List.append_assoc, List.cons_append]⟩, htakes, ?_⟩
      intro w' hmem
      rcases List.mem_append.mp hmem with hmem | hmem
      · exact hlast w' hmem
      · rw [List.mem_singleton.mp hmem]
        exact hw

/-! ## The invariant -/

/-- The vectors are those of the descriptors that are remembered, and the block of the descriptors
holds nothing else as long as it is left alone. -/
structure FollowsRecord (r : DescsRecord) (a : ArrayDisk) (m : Ext2MetaCtr) : Prop where
  table : ∀ x, x ∈ m.metaBlks .inoTableIdx ↔ r.sb.IsInoTablePos (fun _ => r.desc) x
  small : r.sb.gdCnt ≤ 8
  inodes : m.sb0.sInodesPerGroup = r.sb.sInodesPerGroup
  held : r.kept → ∀ b, a (sb0BlockNo + 1) = some b → b = r.desc

/-- The invariant of a run. -/
def DescsInv (t : Ext2Sys ArrayDisk) (v : Option DescsRecord) : Prop :=
  (∃ desc, Phase t.dev desc t.metaCtr) ∧
    (t.metaCtr.KnowsDescs → ∃ r, v = some r ∧ FollowsRecord r t.dev t.metaCtr)

theorem descsInv_freshArray : DescsInv freshArray none := by
  refine ⟨⟨0, .noSb0 rfl⟩, fun h => ?_⟩
  rcases h with (h | h | h) | h <;> cases h

section Step

variable {r : DescsRecord} {a a₁ : ArrayDisk} {m m' : Ext2MetaCtr} {desc : Block}
  {t t₁ : Ext2Sys ArrayDisk}

/-- A write before which the detector has recorded nothing new. -/
theorem FollowsRecord.write (h : FollowsRecord r a m)
    (hsub : a₁ (sb0BlockNo + 1) = a (sb0BlockNo + 1) ∨ a₁ (sb0BlockNo + 1) = none)
    (htable : ∀ x, x ∈ m'.metaBlks .inoTableIdx ↔ x ∈ m.metaBlks .inoTableIdx)
    (hinodes : m'.sb0.sInodesPerGroup = m.sb0.sInodesPerGroup) (blkNo : ℕ) (buf : Block) :
    FollowsRecord { r with kept := r.kept ∧ blkNo ≠ sb0BlockNo + 1 }
      (Function.update a₁ blkNo (some buf)) m' where
  table x := (htable x).trans (h.table x)
  small := h.small
  inodes := hinodes.trans h.inodes
  held hkept b hb := by
    rw [Function.update_of_ne (Ne.symm hkept.2)] at hb
    rcases hsub with heq | hnone
    · exact h.held hkept.1 b (heq.symm.trans hb)
    · rw [hnone] at hb
      cases hb

/-- The vectors after the descriptors have been read. -/
theorem Advanced.table {sb0 : Ext2SuperBlock} (h : Advanced a desc sb0 t₁) (x : ℕ) :
    x ∈ t₁.metaCtr.metaBlks .inoTableIdx ↔ sb0.IsInoTablePos (fun _ => desc) x := by
  obtain ⟨rfl, ⟨-, hphase, -⟩ | hfin⟩ := h
  · exact hphase.decoded.inoTable x
  · exact hfin.decoded.inoTable x

/-- A write before which the detector has read the descriptors. -/
theorem Advanced.follows {sb0 : Ext2SuperBlock} (h : Advanced a desc sb0 t₁)
    (hdesc : a (sb0BlockNo + 1) = some desc)
    (hsub : t₁.dev (sb0BlockNo + 1) = a (sb0BlockNo + 1) ∨ t₁.dev (sb0BlockNo + 1) = none)
    (blkNo : ℕ) (buf : Block) :
    FollowsRecord ⟨desc, t₁.metaCtr.sb0, blkNo ≠ sb0BlockNo + 1⟩
      (Function.update t₁.dev blkNo (some buf)) t₁.metaCtr where
  table x := by
    rw [h.table x, h.1]
  small := by
    rw [h.1]
    exact h.small
  inodes := rfl
  held hkept b hb := by
    rw [Function.update_of_ne (Ne.symm hkept)] at hb
    rcases hsub with heq | hnone
    · exact Option.some.inj ((hb.symm.trans heq).trans hdesc)
    · rw [hnone] at hb
      cases hb

/-- A super block that replaces the recorded one has as many inodes in a group. -/
theorem detectExt2Fs_inodes {buf : Block} {blkNo : ℕ} (hs : t.metaCtr.status = .ext2Detected)
    (h : t.detectExt2Fs arrayLayer buf blkNo = .ok t₁) (hs₁ : t₁.metaCtr.status = .ext2Detected) :
    t₁.metaCtr.sb0.sInodesPerGroup = t.metaCtr.sb0.sInodesPerGroup := by
  rw [Ext2Sys.detectExt2Fs, hs] at h
  dsimp only at h
  split_ifs at h with hblk
  · rw [Ext2Sys.recheckSB0] at h
    dsimp only at h
    split_ifs at h with hcomp
    · obtain rfl := Except.ok.inj h
      exact (Ext2SuperBlock.isCompatible_iff.mp hcomp.2).2.1.symm
    · obtain rfl := (markMetaBlks_spec _ _).of_ok h
      cases hs₁
  · obtain rfl := Except.ok.inj h
    rfl

/-- What the invariant says after a call of the detector and the write of the block. -/
def NextInv (st : WriteStep SmrDev) (t₁ : Ext2Sys ArrayDisk) (v : Option DescsRecord) : Prop :=
  t₁.metaCtr.KnowsDescs → ∃ r, noteWrite v st = some r ∧
    FollowsRecord r (Function.update t₁.dev st.blkNo (some st.buf)) t₁.metaCtr

variable {st : WriteStep SmrDev} {v : Option DescsRecord}

/-- No descriptors are read. -/
theorem nextInv_of_same (hinv : DescsInv t v) (hbefore : st.before.metaCtr = t.metaCtr)
    (hknows : t₁.metaCtr.KnowsDescs → t.metaCtr.KnowsDescs)
    (hsub : t₁.dev (sb0BlockNo + 1) = t.dev (sb0BlockNo + 1) ∨ t₁.dev (sb0BlockNo + 1) = none)
    (htable : t₁.metaCtr.KnowsDescs →
      ∀ x, x ∈ t₁.metaCtr.metaBlks .inoTableIdx ↔ x ∈ t.metaCtr.metaBlks .inoTableIdx)
    (hinodes : t₁.metaCtr.KnowsDescs →
      t₁.metaCtr.sb0.sInodesPerGroup = t.metaCtr.sb0.sInodesPerGroup) : NextInv st t₁ v := by
  intro hk
  obtain ⟨r, hv, hr⟩ := hinv.2 (hknows hk)
  have hnot : ¬ st.TakesDescs := fun h => h.1 (by rw [hbefore]; exact hknows hk)
  refine ⟨_, ?_, hr.write hsub (htable hk) (hinodes hk) st.blkNo st.buf⟩
  rw [noteWrite, if_neg hnot, hv]
  rfl

/-- The descriptors are read. -/
theorem nextInv_of_afterSBs {sb0 : Ext2SuperBlock} (hrel : Shows st.before.dev t.dev)
    (hbefore : st.before.metaCtr = t.metaCtr) (hafter : st.after.metaCtr = t₁.metaCtr)
    (hnot : ¬ t.metaCtr.KnowsDescs)
    (hsub : t₁.dev (sb0BlockNo + 1) = t.dev (sb0BlockNo + 1) ∨ t₁.dev (sb0BlockNo + 1) = none)
    (h : AfterSBs t.dev sb0 t₁) : NextInv st t₁ v := by
  intro hk
  obtain ⟨-, -, hphase, -⟩ | ⟨desc, hdesc, hadv⟩ := h
  · rcases hk with (hk | hk | hk) | hk <;>
      exact absurd (hphase.status.symm.trans hk) (by decide)
  · have htakes : st.TakesDescs := by
      rw [WriteStep.TakesDescs, hbefore, hafter]
      exact ⟨hnot, hk⟩
    refine ⟨_, ?_, hadv.follows hdesc hsub st.blkNo st.buf⟩
    rw [noteWrite, if_pos htakes, hrel.contents _ descBlk_lt, hdesc, hafter]
    rfl

/-- **One call of the detector.** -/
theorem Detects.nextInv (h : Detects t desc st.buf st.blkNo t₁)
    (hphase : Phase t.dev desc t.metaCtr)
    (hdet : t.detectExt2Fs arrayLayer st.buf st.blkNo = .ok t₁) (hinv : DescsInv t v)
    (hrel : Shows st.before.dev t.dev) (hbefore : st.before.metaCtr = t.metaCtr)
    (hafter : st.after.metaCtr = t₁.metaCtr) : NextInv st t₁ v := by
  have hsub := h.sub (sb0BlockNo + 1)
  have hearly : ∀ {s : MetaStatus}, t.metaCtr.status = s →
      s = .noSb0 ∨ s = .sb0Detected ∨ s = .sbsDetected → ¬ t.metaCtr.KnowsDescs := by
    rintro s hs hcases ((hk | hk | hk) | hk) <;> rw [hs] at hk <;> subst hk <;>
      rcases hcases with h | h | h <;> cases h
  cases h with
  | idle _ h =>
    subst h
    exact nextInv_of_same hinv hbefore id (Or.inl rfl) (fun _ _ => Iff.rfl) fun _ => rfl
  | recheck hs hdev hs' hblks =>
    refine nextInv_of_same hinv hbefore (fun _ => Or.inr hs) hsub (fun _ x => by rw [hblks])
      fun _ => detectExt2Fs_inodes hs hdet hs'
  | back _ _ hs' =>
    rintro ((hk | hk | hk) | hk) <;> exact absurd (hs'.symm.trans hk) (by decide)
  | start _ _ _ _ _ hsb0 =>
    rintro ((hk | hk | hk) | hk) <;> exact absurd (hsb0.status.symm.trans hk) (by decide)
  | startOn hs _ _ _ h =>
    exact nextInv_of_afterSBs hrel hbefore hafter (hearly hs (Or.inl rfl)) hsub h
  | supers hsb0 _ _ h =>
    exact nextInv_of_afterSBs hrel hbefore hafter (hearly hsb0.status (Or.inr (Or.inl rfl))) hsub h
  | descs hsbs h =>
    exact nextInv_of_afterSBs hrel hbefore hafter (hearly hsbs.status (Or.inr (Or.inr rfl))) hsub h
  | rest hdescs h =>
    refine nextInv_of_same hinv hbefore (fun _ => Or.inl hdescs.hasDescs) hsub (fun _ x => ?_)
      fun _ => by rw [h.1]
    rw [h.table x, hdescs.decoded.inoTable x]

/-- **The step.** -/
theorem descsInv_step (aware : Bool) :
    StepRule aware Shows DescsInv noteWrite (fun _ => True) (fun _ => True) := by
  intro st t t' v hbefore hafter hwrite hinv _
  refine ⟨?_, trivial⟩
  obtain ⟨desc, hphase⟩ := hinv.1
  obtain ⟨t₁, hdet, -, dev, hstore, rfl⟩ := writeOne_ok hwrite
  obtain rfl := Except.ok.inj hstore
  cases aware with
  | false =>
    obtain rfl := hdet
    exact ⟨⟨desc, hphase.store st.blkNo st.buf⟩, nextInv_of_same hinv hbefore.metaCtr id
      (Or.inl rfl) (fun _ _ => Iff.rfl) fun _ => rfl⟩
  | true =>
    have hdetects := (detectExt2Fs_spec hphase st.buf st.blkNo).of_ok hdet
    obtain ⟨desc', hphase'⟩ := hdetects.phase hphase
    exact ⟨⟨desc', hphase'.store st.blkNo st.buf⟩,
      hdetects.nextInv hphase hdet hinv hbefore.dev hbefore.metaCtr hafter.metaCtr⟩

end Step

/-! ## Runs -/

section Run

variable {env : Env} {data : ℕ → Block} {ops : List HostOp} {outs : List (List Block)}
  {s : Ext2Sys SmrDev}

/-- What is remembered at the end of a run that knows the descriptors. -/
theorem remembered_of_run (hrun : runModule env data ops = .ok (outs, s))
    (hknows : s.metaCtr.KnowsDescs) :
    ∃ r, (moduleTrace env data ops).foldl noteWrite none = some r ∧
      FollowsRecord r s.dev.contents s.metaCtr := by
  obtain ⟨-, t, hst, hinv⟩ := trace_rule (smrLayer_sim env) (descsInv_step env.aware)
    (shows_init data) descsInv_freshArray (fun _ _ => trivial) hrun
  obtain ⟨r, hr, hfollows⟩ := hinv.2 (by rw [← hst.metaCtr]; exact hknows)
  refine ⟨r, hr, ?_⟩
  rw [hst.metaCtr]
  exact { hfollows with
    held := fun hkept b hb =>
      hfollows.held hkept b ((hst.dev.contents _ descBlk_lt).symm.trans hb) }

/-- **There is such a write** in every run at the end of which a file system is detected. -/
theorem exists_lastDescs (hrun : runModule env data ops = .ok (outs, s))
    (hstatus : s.metaCtr.status = .ext2Detected) :
    ∃ st post, LastDescs (moduleTrace env data ops) st post := by
  obtain ⟨r, hr, -⟩ := remembered_of_run hrun (Or.inr hstatus)
  exact lastDescs_of_foldl hr

/-- **What the detector has recorded** at the end of a run is what it has read, while the host
leaves the block of the descriptors alone. -/
theorem follows_of_run (hrun : runModule env data ops = .ok (outs, s))
    (hstatus : s.metaCtr.status = .ext2Detected) {st : WriteStep SmrDev}
    {post : List (WriteStep SmrDev)} (hlast : LastDescs (moduleTrace env data ops) st post)
    (hkept : DescsKept (st :: post)) {desc : Block}
    (hdesc : st.before.dev.contents (sb0BlockNo + 1) = some desc) :
    FollowsRecord ⟨desc, st.after.metaCtr.sb0, True⟩ s.dev.contents s.metaCtr := by
  obtain ⟨r, hr, hfollows⟩ := remembered_of_run hrun (Or.inr hstatus)
  obtain ⟨r', hr', rfl, hsb, hrk⟩ := hlast.foldl_noteWrite hkept hdesc
  obtain rfl := Option.some.inj (hr.symm.trans hr')
  rw [← hsb]
  exact ⟨hfollows.table, hfollows.small, hfollows.inodes, fun _ => hfollows.held hrk⟩

end Run

end MemSmr
