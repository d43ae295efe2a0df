import MemSmr.Runs

/-!
# Read your writes

With the detector off the module is a plain array of blocks: every read returns what was written
last.

* `latest`: what the host has written last to each block.
* `read_your_writes`: the module returns it, whatever the translation layer has done in between.
-/

namespace MemSmr

open Outcome

/-- The contents after a call, as the host sees them. -/
def HostOp.apply (a : ArrayDisk) : HostOp → ArrayDisk
  | .write blkNo bufs => fun x =>
    if blkNo ≤ x ∧ x < blkNo + bufs.length then bufs[x - blkNo]? else a x
  | .read _ _ => a

/-- What has been written last to each block. -/
def latest (ops : List HostOp) : ArrayDisk := ops.foldl HostOp.apply fun _ => none

theorem HostOp.apply_write_cons (a : ArrayDisk) (blkNo : ℕ) (buf : Block) (bufs : List Block) :
    HostOp.apply (Function.update a blkNo (some buf)) (.write (blkNo + 1) bufs) =
      HostOp.apply a (.write blkNo (buf :: bufs)) := by
  funext x
  simp only [HostOp.apply, List.length_cons]
  by_cases hx : x = blkNo
  · subst hx
    rw [if_neg (by omega), if_pos (by omega), Function.update_self, Nat.sub_self,
      List.getElem?_cons_zero]
  · rw [Function.update_of_ne hx]
    by_cases hin : blkNo + 1 ≤ x ∧ x < blkNo + 1 + bufs.length
    · have hsub : x - blkNo = x - (blkNo + 1) + 1 := by omega
      rw [if_pos hin, if_pos (by omega), hsub, List.getElem?_cons_succ]
    · rw [if_neg hin, if_neg (by omega)]

section Array

variable {t : Ext2Sys ArrayDisk}

theorem writeSmrBlocks_array (t : Ext2Sys ArrayDisk) {bufs : List Block} {blkNo : ℕ}
    (h : blkNo + bufs.length ≤ totalSmrBlocksCnt) :
    t.writeSmrBlocks arrayLayer false bufs blkNo =
      .ok { t with dev := HostOp.apply t.dev (.write blkNo bufs) } := by
  induction bufs generalizing t blkNo with
  | nil =>
    have hsame : HostOp.apply t.dev (.write blkNo []) = t.dev := by
      funext x
      exact if_neg (by simp only [List.length_nil]; omega)
    rw [hsame]
    rfl
  | cons buf bufs ih =>
    rw [List.length_cons] at h
    have hone : t.writeOne arrayLayer false buf blkNo =
        .ok { t with dev := Function.update t.dev blkNo (some buf) } :=
      writeOne_unaware_ok.mpr ⟨by omega, _, rfl, rfl⟩
    rw [Ext2Sys.writeSmrBlocks, hone, ← HostOp.apply_write_cons]
    exact ih _ (by omega)

theorem readSmrBlocks_array (t : Ext2Sys ArrayDisk) {bufs : List Block} {blkNo : ℕ}
    (h : blkNo + bufs.length ≤ totalSmrBlocksCnt) :
    t.readSmrBlocks arrayLayer bufs blkNo =
      .ok (bufs.mapIdx fun i b => (t.dev (blkNo + i)).getD b, t) := by
  have hout : (List.range bufs.length).map
      (t.dev.readOver (fun i => bufs.getD i 0) blkNo bufs.length) =
        bufs.mapIdx fun i b => (t.dev (blkNo + i)).getD b := by
    refine List.ext_getElem (by simp) fun i h1 h2 => ?_
    have hi : i < bufs.length := by simpa using h1
    rw [List.getElem_map, List.getElem_range, List.getElem_mapIdx, ArrayDisk.readOver, if_pos hi,
      List.getD_eq_getElem?_getD, List.getElem?_eq_getElem hi, Option.getD_some]
  rw [Ext2Sys.readSmrBlocks, if_pos h, ← hout]
  rfl

/-- A run over the plain array with the detector off. -/
theorem runOps_array (t : Ext2Sys ArrayDisk) {ops : List HostOp} (hops : ∀ op ∈ ops, op.InRange) :
    ∃ outs t', runOps arrayLayer false t ops = .ok (outs, t') ∧
      ∀ k blkNo bufs, ops[k]? = some (HostOp.read blkNo bufs) → outs[k]? = some (bufs.mapIdx fun i b =>
        ((ops.take k).foldl HostOp.apply t.dev (blkNo + i)).getD b) := by
  induction ops generalizing t with
  | nil => exact ⟨[], t, rfl, fun k _ _ hk => by simp at hk⟩
  | cons op ops ih =>
    obtain ⟨hop, hops⟩ := List.forall_mem_cons.mp hops
    have hone : ∃ out, runOp arrayLayer false t op =
          .ok (out, { t with dev := HostOp.apply t.dev op }) ∧
        ∀ blkNo bufs, op = .read blkNo bufs →
          out = bufs.mapIdx fun i b => (t.dev (blkNo + i)).getD b := by
      cases op with
      | write blkNo bufs =>
        rw [runOp, writeSmrBlocks_array t hop]
        refine ⟨[], rfl, ?_⟩
        rintro _ _ ⟨⟩
      | read blkNo bufs =>
        rw [runOp, readSmrBlocks_array t hop]
        refine ⟨_, rfl, ?_⟩
        rintro _ _ ⟨⟩
        rfl
    obtain ⟨out, hout, hread⟩ := hone
    obtain ⟨outs, t', hrest, hreads⟩ := ih { t with dev := HostOp.apply t.dev op } hops
    refine ⟨out :: outs, t', ?_, fun k blkNo bufs hk => ?_⟩
    · exact runOps_cons_ok.mpr ⟨_, _, _, hout, hrest, rfl⟩
    · cases k with
      | zero =>
        rw [List.getElem?_cons_zero, Option.some.injEq] at hk
        rw [List.getElem?_cons_zero, hread blkNo bufs hk]
        rfl
      | succ k =>
        rw [List.getElem?_cons_succ] at hk ⊢
        exact hreads k blkNo bufs hk

end Array

/-- With the detector off, calls inside the device use no index past the table. -/
theorem runModule_unaware {env : Env} (haware : env.aware = false) (hpast : env.PastEndNotFree)
    (data : ℕ → Block) {ops : List HostOp} (hops : ∀ op ∈ ops, op.InRange) (i : ℕ) :
    runModule env data ops ≠ .error (.tableIndex i) := by
  obtain ⟨outs, t, hrun, -⟩ := runOps_array freshArray hops
  have hrefines := runModule_refines env data ops
  rw [haware, hrun] at hrefines
  intro hres
  rw [hres] at hrefines
  exact not_pastEndFault hpast _ hrefines

/-- **Read your writes.**  With the detector off, a run of calls inside the device ends, and every
read in it returns what was written last before it; blocks that were never written leave the
caller's buffer alone. -/
theorem read_your_writes (env : Env) (haware : env.aware = false) (hpast : env.PastEndNotFree)
    (data : ℕ → Block) (ops : List HostOp) (hops : ∀ op ∈ ops, op.InRange) :
    ∃ outs s, runModule env data ops = .ok (outs, s) ∧
      ∀ k blkNo bufs, ops[k]? = some (HostOp.read blkNo bufs) → outs[k]? = some (bufs.mapIdx fun i b =>
        (latest (ops.take k) (blkNo + i)).getD b) := by
  obtain ⟨outs, s, hres⟩ := runModule_ok hpast (runModule_unaware haware hpast data hops)
  obtain ⟨outs', t, hrun, hreads⟩ := runOps_array freshArray hops
  have hrefines := runModule_refines env data ops
  rw [haware, hrun, hres] at hrefines
  have hout : outs = outs' := hrefines.1
  subst hout
  exact ⟨outs, s, hres, hreads⟩

/-- A device on which block 5 is written twice. -/
theorem read_your_writes_twice :
    let ops := [HostOp.write 5 [fun _ => 1], .write 4 [fun _ => 2, fun _ => 3], .read 5 [0]]
    ∃ outs s, runModule ⟨false, false, fun _ => .validPhyBlock⟩ (fun _ => 0) ops = .ok (outs, s) ∧
      ∀ k blkNo bufs, ops[k]? = some (HostOp.read blkNo bufs) →
        outs[k]? = some (bufs.mapIdx fun i b => (latest (ops.take k) (blkNo + i)).getD b) :=
  read_your_writes _ rfl (fun _ => by simp) _ _ fun op hop => by
    simp only [List.mem_cons, List.not_mem_nil, or_false] at hop
    rcases hop with rfl | rfl | rfl <;> simp [HostOp.InRange, totalSmrBlocksCnt_eq]

end MemSmr
