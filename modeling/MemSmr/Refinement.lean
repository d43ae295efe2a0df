import MemSmr.DeviceInv

/-!
# The module refines a plain array of blocks

* `smrLayer_sim`: the translation layer simulates the plain array, and keeps its invariant.
* `runModule_refines`: so does the module, over whole runs, with the detector on or off.
* `devInv_of_runModule`: every state that a run reaches satisfies the invariant.
-/

namespace MemSmr

open Outcome

/-- The abstraction: the device keeps its invariant and shows the contents of the array. -/
structure Shows (d : SmrDev) (a : ArrayDisk) : Prop where
  inv : DevInv d
  contents : ∀ l < totalSmrBlocksCnt, d.contents l = a l

/-- **The translation layer simulates a plain array of blocks.** -/
theorem smrLayer_sim (env : Env) : LayerSim (smrLayer env) arrayLayer (PastEndFault env) Shows where
  hasMapping {d a l} h hl := by
    change d.hasMapping l = (a l).isSome
    rw [SmrDev.hasMapping_eq, h.contents l hl]
  read {d a} buf {l n} h hln := by
    obtain ⟨h1, h2, h3⟩ := SmrDev.readSmrBlocks_spec env buf h.inv hln
    refine ⟨h3.trans (funext fun i => ?_), h1, fun l' hl' => (h2.contents l' hl').trans
      (h.contents l' hl')⟩
    change ArrayDisk.readOver d.contents buf l n i = ArrayDisk.readOver a buf l n i
    rw [ArrayDisk.readOver, ArrayDisk.readOver]
    split_ifs with hi
    · rw [h.contents _ (by omega)]
    · rfl
  setupMetaFlag {d a} l flag h := by
    obtain ⟨h1, h2⟩ := SmrDev.devInv_setupMetaFlag h.inv l flag
    exact ⟨h1, fun l' hl' => (h2 l').trans (h.contents l' hl')⟩
  trim {d a l} h hl := by
    obtain ⟨h1, -, h2, h3⟩ := SmrDev.trimBlock_spec h.inv hl
    refine ⟨h1, fun l' hl' => ?_⟩
    change (d.trimBlock l).contents l' = Function.update a l none l'
    by_cases hne : l' = l
    · rw [hne, h2, Function.update_self]
    · rw [h3 l' hl' hne, Function.update_of_ne hne, h.contents l' hl']
  store {d a l} blk h hl := by
    have hstore := SmrDev.storeBlock_spec env blk h.inv hl
    change Refines _ Shows (d.storeBlock env l blk) (.ok (Function.update a l (some blk)))
    cases hres : d.storeBlock env l blk with
    | error e =>
      rw [hres] at hstore
      exact hstore
    | ok d' =>
      rw [hres] at hstore
      refine ⟨hstore.inv, fun l' hl' => ?_⟩
      by_cases hne : l' = l
      · rw [hne, hstore.here, Function.update_self]
      · rw [hstore.others l' hl' hne, Function.update_of_ne hne, h.contents l' hl']

/-! ## Runs -/

section Run

variable {σ τ : Type} {L : BlockLayer σ} {M : BlockLayer τ} {allowed : Fault → Prop}
  {R : σ → τ → Prop} {s : Ext2Sys σ} {t : Ext2Sys τ}

theorem LayerSim.runOp_refines (h : LayerSim L M allowed R) (aware : Bool) (hst : SysRel R s t)
    (op : HostOp) : Refines allowed (fun x y => x.1 = y.1 ∧ SysRel R x.2 y.2) (runOp L aware s op)
      (runOp M aware t op) := by
  cases op with
  | write blkNo bufs =>
    exact (h.writeSmrBlocks_refines aware hst bufs blkNo).bind fun s t hst => ⟨rfl, hst⟩
  | read blkNo bufs => exact h.readSmrBlocks_refines hst bufs blkNo

/-- **A run does the same over both layers.** -/
theorem LayerSim.runOps_refines (h : LayerSim L M allowed R) (aware : Bool) (hst : SysRel R s t)
    (ops : List HostOp) : Refines allowed (fun x y => x.1 = y.1 ∧ SysRel R x.2 y.2)
      (runOps L aware s ops) (runOps M aware t ops) := by
  induction ops generalizing s t with
  | nil => exact ⟨rfl, hst⟩
  | cons op ops ih =>
    rw [runOps, runOps]
    refine (h.runOp_refines aware hst op).bind ?_
    rintro ⟨out, s⟩ ⟨out', t⟩ ⟨rfl, hst⟩
    refine (ih hst).bind ?_
    rintro ⟨outs, s⟩ ⟨outs', t⟩ ⟨rfl, hst⟩
    exact ⟨rfl, hst⟩

end Run

/-- The module over a plain array without contents. -/
def freshArray : Ext2Sys ArrayDisk where
  dev := fun _ => none
  metaCtr := zeroMetaCtr.initMetaCtr
  sbsBuf := 0
  bgDescsBuf := 0
  blkBmp := 0

theorem shows_init (data : ℕ → Block) :
    SysRel Shows (initSmrDisk (freshModule data)) freshArray :=
  ⟨⟨SmrDev.devInv_initTables rfl rfl, fun _ hl => SmrDev.contents_initTables _ hl⟩, rfl, rfl, rfl,
    rfl⟩

/-- **Every run of the module is a run over the plain array**, with the same results. -/
theorem runModule_refines (env : Env) (data : ℕ → Block) (ops : List HostOp) :
    Refines (PastEndFault env) (fun x y => x.1 = y.1 ∧ SysRel Shows x.2 y.2)
      (runModule env data ops) (runOps arrayLayer env.aware freshArray ops) :=
  (smrLayer_sim env).runOps_refines env.aware (shows_init data) ops

/-- **Every state that a run reaches satisfies the invariant.** -/
theorem devInv_of_runModule {env : Env} {data : ℕ → Block} {ops : List HostOp}
    {outs : List (List Block)} {s : Ext2Sys SmrDev} (h : runModule env data ops = .ok (outs, s)) :
    DevInv s.dev := by
  obtain ⟨_, _, -, hst⟩ := (runModule_refines env data ops).ok_of_ok h
  exact hst.dev.inv

end MemSmr
