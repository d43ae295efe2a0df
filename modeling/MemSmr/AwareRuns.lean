import MemSmr.TrimSafety

/-!
# The detector on and off

The same calls are made of two modules, one loaded with `aware` and one without.

## 1.  One write

`Behind`: the first plain array has what the second has, or nothing; and under a condition `c` it has the
same.  A call of the detector keeps this, as it takes contents away and changes none, and under `c` it
does not come to the end of a detection.

## 2.  A run

`detector_only_hides`: whatever is written, a read of the first module finds what the second finds, or
it leaves the buffer of the host alone; and the two can only be told apart after a detection has come to
its end.
-/

namespace MemSmr

open Outcome

/-! ## 1.  One write -/

/-- The first module has lost contents, and nothing under the condition `c`. -/
structure Behind (c : Prop) (t t' : Ext2Sys ArrayDisk) : Prop where
  phase : InPhase t
  sub : ∀ x, t.dev x = t'.dev x ∨ t.dev x = none
  same : c → t.dev = t'.dev

/-- What a read finds, compared with what it should find. -/
def HostOp.Hides : HostOp → List Block → List Block → Prop
  | .write _ _, out, out' => out = out'
  | .read _ bufs, out, out' => out.length = out'.length ∧
      ∀ i < bufs.length, out[i]? = out'[i]? ∨ out[i]? = bufs[i]?

section Behind

variable {c : Prop} {t t' t₁ : Ext2Sys ArrayDisk}

theorem behind_freshArray (c : Prop) : Behind c freshArray freshArray :=
  ⟨inPhase_freshArray, fun _ => Or.inl rfl, fun _ => rfl⟩

/-- Both store the block. -/
theorem Behind.store (h : Behind c t t') {buf : Block} {blkNo : ℕ} :
    Behind c { t with dev := Function.update t.dev blkNo (some buf) }
      { t' with dev := Function.update t'.dev blkNo (some buf) } := by
  obtain ⟨desc, hphase⟩ := h.phase
  refine ⟨⟨desc, hphase.store blkNo buf⟩, fun x => ?_, fun hc => ?_⟩
  · show Function.update t.dev blkNo (some buf) x = Function.update t'.dev blkNo (some buf) x ∨
      Function.update t.dev blkNo (some buf) x = none
    by_cases hx : x = blkNo
    · subst hx
      rw [Function.update_self, Function.update_self]
      exact Or.inl rfl
    · rw [Function.update_of_ne hx, Function.update_of_ne hx]
      exact h.sub x
  · show Function.update t.dev blkNo (some buf) = Function.update t'.dev blkNo (some buf)
    rw [h.same hc]

/-- The detector has been called. -/
theorem Behind.detects (h : Behind c t t') {desc buf : Block} {blkNo : ℕ}
    (hphase : Phase t.dev desc t.metaCtr) (hdet : Detects t desc buf blkNo t₁)
    (hno : c → ¬ (t.metaCtr.status ≠ .ext2Detected ∧ t₁.metaCtr.status = .ext2Detected)) :
    Behind c t₁ t' := by
  refine ⟨hdet.phase hphase, fun x => ?_, fun hc => (hdet.dev_eq (hno hc)).trans (h.same hc)⟩
  rcases hdet.sub x with hx | hx
  · rw [hx]
    exact h.sub x
  · exact Or.inr hx

/-- **One write.** -/
theorem Behind.writeOne (h : Behind c t t') {buf : Block} {blkNo : ℕ}
    (hrun : t.writeOne arrayLayer true buf blkNo = .ok t₁)
    (hno : c → ¬ (t.metaCtr.status ≠ .ext2Detected ∧ t₁.metaCtr.status = .ext2Detected)) :
    ∃ t₁', t'.writeOne arrayLayer false buf blkNo = .ok t₁' ∧ Behind c t₁ t₁' := by
  obtain ⟨desc, hphase⟩ := h.phase
  obtain ⟨t₂, hdet, rfl⟩ := (writeOne_array_spec hphase buf blkNo).of_ok hrun
  rw [if_pos rfl] at hdet
  obtain ⟨-, -, hlt, -⟩ := writeOne_ok hrun
  refine ⟨_, writeOne_unaware_ok.mpr ⟨hlt, _, rfl, rfl⟩, ?_⟩
  exact (h.detects hphase hdet hno).store

/-- **A call of `write_smr_blocks`.** -/
theorem Behind.writeSmrBlocks (h : Behind c t t') {bufs : List Block} {blkNo : ℕ}
    (hrun : t.writeSmrBlocks arrayLayer true bufs blkNo = .ok t₁)
    (hno : c → ∀ st ∈ traceWrites arrayLayer true t bufs blkNo, ¬ st.Marks) :
    ∃ t₁', t'.writeSmrBlocks arrayLayer false bufs blkNo = .ok t₁' ∧ Behind c t₁ t₁' := by
  induction bufs generalizing t t' blkNo with
  | nil =>
    obtain rfl := Except.ok.inj hrun
    exact ⟨t', rfl, h⟩
  | cons buf bufs ih =>
    rw [Ext2Sys.writeSmrBlocks] at hrun
    obtain ⟨t₂, hone, hrest⟩ := bind_eq_ok.mp hrun
    rw [traceWrites_cons hone] at hno
    obtain ⟨t₂', hone', h₂⟩ := h.writeOne hone fun hc => hno hc _ List.mem_cons_self
    obtain ⟨t₁', hrest', h₁⟩ := ih h₂ hrest fun hc st hst => hno hc st (List.mem_cons_of_mem _ hst)
    refine ⟨t₁', ?_, h₁⟩
    rw [Ext2Sys.writeSmrBlocks, hone', ok_bind]
    exact hrest'

/-- **A call of `read_smr_blocks`.** -/
theorem Behind.readSmrBlocks (h : Behind c t t') {bufs out : List Block} {blkNo : ℕ}
    (hrun : t.readSmrBlocks arrayLayer bufs blkNo = .ok (out, t₁)) :
    ∃ out' t₁', t'.readSmrBlocks arrayLayer bufs blkNo = .ok (out', t₁') ∧ Behind c t₁ t₁' ∧
      (HostOp.read blkNo bufs).Hides out out' ∧ (c → out = out') := by
  have hle : blkNo + bufs.length ≤ totalSmrBlocksCnt := by
    rw [Ext2Sys.readSmrBlocks] at hrun
    split_ifs at hrun with hle
    exact hle
  rw [readSmrBlocks_array t hle] at hrun
  obtain ⟨rfl, rfl⟩ := Prod.mk.inj (Except.ok.inj hrun)
  refine ⟨_, t', readSmrBlocks_array t' hle, h, ⟨by simp, fun i hi => ?_⟩, fun hc => ?_⟩
  · rw [List.getElem?_mapIdx, List.getElem?_mapIdx, List.getElem?_eq_getElem hi]
    rcases h.sub (blkNo + i) with hx | hx
    · exact Or.inl (by rw [hx])
    · exact Or.inr (by rw [hx]; rfl)
  · rw [h.same hc]

/-- **A call of the host.** -/
theorem Behind.runOp (h : Behind c t t') {op : HostOp} {out : List Block}
    (hrun : MemSmr.runOp arrayLayer true t op = .ok (out, t₁))
    (hno : c → ∀ st ∈ traceOp arrayLayer true t op, ¬ st.Marks) :
    ∃ out' t₁', MemSmr.runOp arrayLayer false t' op = .ok (out', t₁') ∧ Behind c t₁ t₁' ∧
      op.Hides out out' ∧ (c → out = out') := by
  cases op with
  | write blkNo bufs =>
    obtain ⟨hwrite, rfl⟩ := runOp_write_ok.mp hrun
    obtain ⟨t₁', hwrite', h₁⟩ := h.writeSmrBlocks hwrite hno
    exact ⟨[], t₁', runOp_write_ok.mpr ⟨hwrite', rfl⟩, h₁, rfl, fun _ => rfl⟩
  | read blkNo bufs => exact h.readSmrBlocks hrun

end Behind

/-! ## 2.  A run -/

/-- What the reads of a run find, compared with what they should find. -/
def HidesOnly (ops : List HostOp) (outs outs' : List (List Block)) : Prop :=
  ∀ (k : ℕ) (op : HostOp) (out : List Block), ops[k]? = some op → outs[k]? = some out →
    ∃ out', outs'[k]? = some out' ∧ op.Hides out out'

theorem HidesOnly.cons {ops : List HostOp} {outs outs' : List (List Block)} {op : HostOp}
    {out out' : List Block} (h : HidesOnly ops outs outs') (hop : op.Hides out out') :
    HidesOnly (op :: ops) (out :: outs) (out' :: outs') := by
  intro k op₁ out₁ hk hk'
  cases k with
  | zero =>
    obtain rfl := Option.some.inj hk
    obtain rfl := Option.some.inj hk'
    exact ⟨out', rfl, hop⟩
  | succ k => exact h k op₁ out₁ hk hk'

theorem Behind.runOps {c : Prop} {t t' t₁ : Ext2Sys ArrayDisk} (h : Behind c t t')
    {ops : List HostOp} {outs : List (List Block)}
    (hrun : MemSmr.runOps arrayLayer true t ops = .ok (outs, t₁))
    (hno : c → ∀ st ∈ trace arrayLayer true t ops, ¬ st.Marks) :
    ∃ outs' t₁', MemSmr.runOps arrayLayer false t' ops = .ok (outs', t₁') ∧
      HidesOnly ops outs outs' ∧ (c → outs = outs') := by
  induction ops generalizing t t' outs with
  | nil =>
    obtain ⟨rfl, -⟩ := Prod.mk.inj (Except.ok.inj hrun)
    exact ⟨[], t', rfl, fun _ _ _ hk => absurd hk (by simp), fun _ => rfl⟩
  | cons op ops ih =>
    obtain ⟨out, t₂, outs, hop, hrest, rfl⟩ := runOps_cons_ok.mp hrun
    rw [trace_cons hop] at hno
    obtain ⟨out', t₂', hop', h₂, hhides, hsame⟩ := h.runOp hop fun hc st hst =>
      hno hc st (List.mem_append_left _ hst)
    obtain ⟨outs', t₁', hrest', hall, hsames⟩ := ih h₂ hrest fun hc st hst =>
      hno hc st (List.mem_append_right _ hst)
    refine ⟨out' :: outs', t₁', runOps_cons_ok.mpr ⟨out', t₂', outs', hop', hrest', rfl⟩,
      hall.cons hhides, fun hc => ?_⟩
    rw [hsame hc, hsames hc]

/-- **The detector only hides.**  Whatever is written, a module with `aware` that comes to the end of its
calls gives for each block that is read what a module without it gives, or leaves the buffer of the host
as it was; and as long as no write ends a detection, the two give the same throughout. -/
theorem detector_only_hides (env env' : Env) (haware : env.aware = true) (haware' : env'.aware = false)
    (hpast' : env'.PastEndNotFree) (data data' : ℕ → Block) (ops : List HostOp)
    (outs : List (List Block)) (s : Ext2Sys SmrDev) (hrun : runModule env data ops = .ok (outs, s)) :
    ∃ outs' s', runModule env' data' ops = .ok (outs', s') ∧ HidesOnly ops outs outs' ∧
      ((∀ st ∈ trace (smrLayer env) true (initSmrDisk (freshModule data)) ops, ¬ st.Marks) →
        outs = outs') := by
  obtain ⟨⟨outs₁, t⟩, harr, rfl, -⟩ := (runModule_refines env data ops).ok_of_ok hrun
  rw [haware] at harr
  -- The same writes end a detection over the array.
  have hsame : (∀ st ∈ trace (smrLayer env) true (initSmrDisk (freshModule data)) ops, ¬ st.Marks) →
      ∀ st ∈ trace arrayLayer true freshArray ops, ¬ st.Marks := by
    intro hno st hst hmarks
    rw [runModule, haware] at hrun
    obtain ⟨st', hst', hrel⟩ := exists_of_forall₂
      (trace_refines (smrLayer_sim env) (shows_init data) hrun).flip hst
    refine hno st' hst' ?_
    rw [WriteStep.Marks, hrel.before.metaCtr, hrel.after.metaCtr]
    exact hmarks
  obtain ⟨outs', t', harr', hall, heq⟩ := (behind_freshArray _).runOps harr hsame
  have hrefines := runModule_refines env' data' ops
  rw [haware'] at hrefines
  obtain ⟨⟨outs₂, s'⟩, hrun', hout, -⟩ :=
    hrefines.ok_of_ok_right (not_pastEndFault hpast') harr'
  replace hout : outs₂ = outs' := hout
  subst hout
  exact ⟨outs₂, s', hrun', hall, heq⟩

/-- The small file system, whose bitmap has the bit of block 100 clear when the detection ends: without
the detector the block could still be read. -/
theorem detector_only_hides_small :
    let ops := [HostOp.write 0 [smallSuperBlk 0, smallDescBlk,
        fun i => if i.val = 12 then 0xEF else 0xFF, 0], .write 100 [fun _ => 7], .write 4 [0],
      .write 9 [0], .read 100 [0]]
    ∃ outs s outs' s', runModule awareEnv (fun _ => 0) ops = .ok (outs, s) ∧
      runModule ⟨false, false, fun _ => .other 0⟩ (fun _ => 0) ops = .ok (outs', s') ∧
      HidesOnly ops outs outs' := by
  intro ops
  obtain ⟨outs, s, hrun, -⟩ := aware_run_of_array ops (by decide +kernel)
  obtain ⟨outs', s', hrun', hall, -⟩ := detector_only_hides awareEnv ⟨false, false, fun _ => .other 0⟩
    rfl rfl (fun _ h => by cases h) (fun _ => 0) (fun _ => 0) ops outs s hrun
  exact ⟨outs, s, outs', s', hrun, hrun', hall⟩

end MemSmr
