import MemSmr.Detector
import MemSmr.Refinement

/-!
# Runs of the block device

* `meets_blockWrites`, `meets_runOps_written`: the invariant rules for runs; the invariant may speak of
  what has been written.
* `meets_runOps_array`, `runModule_ok`: a run stops on no other fault than an index past the table.
-/

namespace MemSmr

open Outcome

/-! ## The calls of a run -/

section Calls

variable {σ : Type} {L : BlockLayer σ} {aware : Bool} {s s' : Ext2Sys σ}

/-- The part of a write that stores the block. -/
theorem checked_store_ok {buf : Block} {blkNo : ℕ} : (do
      checkIndex blkNo
      let dev ← L.storeBlock s.dev blkNo buf
      return { s with dev := dev }) = Except.ok s' ↔ blkNo < totalSmrBlocksCnt ∧
    ∃ dev, L.storeBlock s.dev blkNo buf = .ok dev ∧ s' = { s with dev := dev } := by
  constructor
  · intro h
    obtain ⟨_, hcheck, h⟩ := bind_eq_ok.mp h
    obtain ⟨dev, hstore, h⟩ := bind_eq_ok.mp h
    exact ⟨(checkIndex_spec blkNo).of_ok hcheck, dev, hstore, (Except.ok.inj h).symm⟩
  · rintro ⟨hlt, dev, hstore, rfl⟩
    refine bind_eq_ok.mpr ⟨(), ?_, bind_eq_ok.mpr ⟨dev, hstore, rfl⟩⟩
    rw [checkIndex, if_pos hlt]

/-- A write of one block with the detector off. -/
theorem writeOne_unaware_ok {buf : Block} {blkNo : ℕ} :
    s.writeOne L false buf blkNo = .ok s' ↔ blkNo < totalSmrBlocksCnt ∧
      ∃ dev, L.storeBlock s.dev blkNo buf = .ok dev ∧ s' = { s with dev := dev } := by
  rw [Ext2Sys.writeOne, if_neg Bool.false_ne_true]
  exact checked_store_ok

/-- A write of one block: the detector is called if it is on, and then the block is stored. -/
theorem writeOne_ok {buf : Block} {blkNo : ℕ} (h : s.writeOne L aware buf blkNo = .ok s') :
    ∃ s₁, (if aware then s.detectExt2Fs L buf blkNo = .ok s₁ else s₁ = s) ∧
      blkNo < totalSmrBlocksCnt ∧
      ∃ dev, L.storeBlock s₁.dev blkNo buf = .ok dev ∧ s' = { s₁ with dev := dev } := by
  cases aware with
  | true =>
    rw [Ext2Sys.writeOne, if_pos rfl] at h
    obtain ⟨s₁, hs₁, h⟩ := bind_eq_ok.mp h
    exact ⟨s₁, hs₁, checked_store_ok.mp h⟩
  | false => exact ⟨s, rfl, writeOne_unaware_ok.mp h⟩

theorem runOp_write_ok {blkNo : ℕ} {bufs out : List Block} :
    runOp L aware s (.write blkNo bufs) = .ok (out, s') ↔
      s.writeSmrBlocks L aware bufs blkNo = .ok s' ∧ out = [] := by
  rw [runOp]
  constructor
  · intro h
    obtain ⟨s₁, hs₁, h⟩ := bind_eq_ok.mp h
    obtain ⟨rfl, rfl⟩ := Prod.mk.inj (Except.ok.inj h)
    exact ⟨hs₁, rfl⟩
  · rintro ⟨h, rfl⟩
    exact bind_eq_ok.mpr ⟨s', h, rfl⟩

theorem runOps_cons_ok {op : HostOp} {ops : List HostOp} {outs : List (List Block)} :
    runOps L aware s (op :: ops) = .ok (outs, s') ↔
      ∃ out s₁ outs', runOp L aware s op = .ok (out, s₁) ∧
        runOps L aware s₁ ops = .ok (outs', s') ∧ outs = out :: outs' := by
  rw [runOps]
  constructor
  · intro h
    obtain ⟨⟨out, s₁⟩, hop, h⟩ := bind_eq_ok.mp h
    obtain ⟨⟨outs', s₂⟩, hops, h⟩ := bind_eq_ok.mp h
    obtain ⟨rfl, rfl⟩ := Prod.mk.inj (Except.ok.inj h)
    exact ⟨out, s₁, outs', hop, hops, rfl⟩
  · rintro ⟨out, s₁, outs', hop, hops, rfl⟩
    exact bind_eq_ok.mpr ⟨_, hop, bind_eq_ok.mpr ⟨_, hops, rfl⟩⟩

/-- A run goes on from where the first calls have led. -/
theorem runOps_append_ok {ops ops' : List HostOp} {outs : List (List Block)}
    (h : runOps L aware s (ops ++ ops') = .ok (outs, s')) :
    ∃ outs₁ s₁ outs₂, runOps L aware s ops = .ok (outs₁, s₁) ∧
      runOps L aware s₁ ops' = .ok (outs₂, s') := by
  induction ops generalizing s outs with
  | nil => exact ⟨[], s, outs, rfl, h⟩
  | cons op ops ih =>
    rw [List.cons_append] at h
    obtain ⟨out, s₁, outs', hop, hrest, -⟩ := runOps_cons_ok.mp h
    obtain ⟨outs₁, s₂, outs₂, h1, h2⟩ := ih hrest
    exact ⟨out :: outs₁, s₂, outs₂, runOps_cons_ok.mpr ⟨out, s₁, outs₁, hop, h1, rfl⟩, h2⟩

/-- A run that ends with the write of one block. -/
theorem runOps_write_ok {ops : List HostOp} {blkNo : ℕ} {buf : Block} {outs : List (List Block)}
    (h : runOps L aware s (ops ++ [.write blkNo [buf]]) = .ok (outs, s')) :
    ∃ outs₁ s₁, runOps L aware s ops = .ok (outs₁, s₁) ∧
      s₁.writeOne L aware buf blkNo = .ok s' := by
  obtain ⟨outs₁, s₁, outs₂, h1, h2⟩ := runOps_append_ok h
  obtain ⟨out, s₂, outs₃, hop, hnil, -⟩ := runOps_cons_ok.mp h2
  obtain ⟨s₃, hone, hrest⟩ := bind_eq_ok.mp (runOp_write_ok.mp hop).1
  obtain rfl := Except.ok.inj hrest
  obtain ⟨-, rfl⟩ := Prod.mk.inj (Except.ok.inj hnil)
  exact ⟨outs₁, s₁, h1, hone⟩

/-- A sequence of writes of single blocks. -/
def blockWrites (ws : List (ℕ × Block)) : List HostOp := ws.map fun w => .write w.1 [w.2]

theorem runOp_writeOne {w : ℕ × Block} :
    runOp L aware s (.write w.1 [w.2]) = (do
      let s ← s.writeOne L aware w.2 w.1
      return ([], s)) := by
  rw [runOp, Ext2Sys.writeSmrBlocks]
  cases s.writeOne L aware w.2 w.1 <;> rfl

/-- One more write of a block after a run. -/
theorem runOps_snoc {ops : List HostOp} {blkNo : ℕ} {buf : Block} {outs : List (List Block)}
    {s₁ : Ext2Sys σ} (hrun : runOps L aware s ops = .ok (outs, s₁))
    (hone : s₁.writeOne L aware buf blkNo = .ok s') :
    ∃ outs', runOps L aware s (ops ++ [.write blkNo [buf]]) = .ok (outs', s') := by
  induction ops generalizing s outs with
  | nil =>
    obtain ⟨-, rfl⟩ := Prod.mk.inj (Except.ok.inj hrun)
    refine ⟨[[]], runOps_cons_ok.mpr ⟨[], s', [], ?_, rfl, rfl⟩⟩
    rw [runOp_writeOne (w := (blkNo, buf)), hone]
    rfl
  | cons op ops ih =>
    obtain ⟨out, s₂, outs', hop, hrest, -⟩ := runOps_cons_ok.mp hrun
    obtain ⟨outs'', h⟩ := ih hrest
    exact ⟨out :: outs'', runOps_cons_ok.mpr ⟨out, s₂, outs'', hop, h, rfl⟩⟩

/-- **The invariant rule for sequences of writes.**  The invariant knows what has been written. -/
theorem meets_blockWrites {allowed : Fault → Prop} {P : List (ℕ × Block) → Ext2Sys σ → Prop}
    {ws : List (ℕ × Block)} (h0 : P [] s)
    (hstep : ∀ pre w post outs s₁, ws = pre ++ w :: post →
      runOps L aware s (blockWrites pre) = .ok (outs, s₁) → P pre s₁ →
        Meets allowed (P (pre ++ [w])) (s₁.writeOne L aware w.2 w.1)) :
    Meets allowed (fun r => P ws r.2) (runOps L aware s (blockWrites ws)) := by
  suffices h : ∀ post pre outs s₁, ws = pre ++ post →
      runOps L aware s (blockWrites pre) = .ok (outs, s₁) → P pre s₁ →
        Meets allowed (fun r => P ws r.2) (runOps L aware s₁ (blockWrites post)) from
    h ws [] [] s rfl rfl h0
  intro post
  induction post with
  | nil =>
    intro pre outs s₁ hws _ hP
    rw [hws, List.append_nil]
    exact hP
  | cons w post ih =>
    intro pre outs s₁ hws hrun hP
    have hmeets := hstep pre w post outs s₁ hws hrun hP
    rw [blockWrites, List.map_cons, runOps, runOp_writeOne]
    cases hone : s₁.writeOne L aware w.2 w.1 with
    | error e =>
      rw [hone] at hmeets
      exact hmeets
    | ok s₂ =>
      rw [hone] at hmeets
      obtain ⟨outs', hrun'⟩ := runOps_snoc hrun hone
      have hsnoc : blockWrites (pre ++ [w]) = blockWrites pre ++ [.write w.1 [w.2]] := List.map_append
      rw [← hsnoc] at hrun'
      have hrest := ih (pre ++ [w]) outs' s₂ (by rw [hws, List.append_assoc]; rfl) hrun' hmeets
      change Meets allowed _ (do
        let r ← runOps L aware s₂ (blockWrites post)
        Except.ok ([] :: r.1, r.2))
      exact hrest.bind fun r hr => hr

/-- The writes of single blocks that a call makes. -/
def HostOp.writes : HostOp → List (ℕ × Block)
  | .write blkNo bufs => (bufs.zipIdx blkNo).map Prod.swap
  | .read _ _ => []

/-- The invariant rule for one call of `write_smr_blocks`. -/
theorem meets_writeSmrBlocks_written {allowed : Fault → Prop}
    {P : List (ℕ × Block) → Ext2Sys σ → Prop} {ws pre post : List (ℕ × Block)} {blkNo : ℕ}
    {bufs : List Block} (hws : ws = pre ++ (HostOp.write blkNo bufs).writes ++ post) (h : P pre s)
    (hstep : ∀ pre w post s₁, ws = pre ++ w :: post → P pre s₁ →
      Meets allowed (P (pre ++ [w])) (s₁.writeOne L aware w.2 w.1)) :
    Meets allowed (P (pre ++ (HostOp.write blkNo bufs).writes))
      (s.writeSmrBlocks L aware bufs blkNo) := by
  induction bufs generalizing s blkNo pre with
  | nil =>
    rw [HostOp.writes, List.zipIdx_nil, List.map_nil, List.append_nil]
    exact h
  | cons buf bufs ih =>
    have hcons : (HostOp.write blkNo (buf :: bufs)).writes =
        (blkNo, buf) :: (HostOp.write (blkNo + 1) bufs).writes := rfl
    rw [hcons, List.append_cons] at hws ⊢
    rw [Ext2Sys.writeSmrBlocks]
    refine (hstep pre (blkNo, buf) ((HostOp.write (blkNo + 1) bufs).writes ++ post) s ?_ h).bind
      fun s' hs' => ih hws hs'
    rw [hws, List.append_assoc, List.append_assoc, List.singleton_append]

/-- **The invariant rule for runs that knows what has been written.** -/
theorem meets_runOps_written {allowed : Fault → Prop} {P : List (ℕ × Block) → Ext2Sys σ → Prop}
    {ws pre : List (ℕ × Block)} {ops : List HostOp} (hws : ws = pre ++ ops.flatMap HostOp.writes)
    (hops : ∀ op ∈ ops, op.InRange) (h : P pre s)
    (hstep : ∀ pre w post s₁, ws = pre ++ w :: post → P pre s₁ →
      Meets allowed (P (pre ++ [w])) (s₁.writeOne L aware w.2 w.1))
    (hread : ∀ pre (s : Ext2Sys σ) (buf : ℕ → Block) (l n : ℕ), P pre s →
      P pre { s with dev := (L.readSmrBlocks s.dev buf l n).2 }) :
    Meets allowed (fun r => P ws r.2) (runOps L aware s ops) := by
  induction ops generalizing s pre with
  | nil =>
    rw [hws, List.flatMap_nil, List.append_nil]
    exact h
  | cons op ops ih =>
    obtain ⟨hop, hops⟩ := List.forall_mem_cons.mp hops
    rw [List.flatMap_cons, ← List.append_assoc] at hws
    rw [runOps]
    refine Meets.bind (P := fun r => P (pre ++ op.writes) r.2) ?_ ?_
    · cases op with
      | write blkNo bufs =>
        exact (meets_writeSmrBlocks_written hws h hstep).bind fun s' hs' => hs'
      | read blkNo bufs =>
        rw [HostOp.InRange] at hop
        rw [runOp, Ext2Sys.readSmrBlocks, if_pos hop, HostOp.writes, List.append_nil]
        exact hread pre s _ blkNo bufs.length h
    · rintro ⟨out, s'⟩ hs'
      refine (ih hws hops hs').bind ?_
      rintro ⟨outs, s''⟩ hs''
      exact hs''

theorem meets_writeSmrBlocks {allowed : Fault → Prop} {P : Ext2Sys σ → Prop}
    (hwrite : ∀ s buf blkNo, P s → Meets allowed P (s.writeOne L aware buf blkNo)) (h : P s)
    (bufs : List Block) (blkNo : ℕ) : Meets allowed P (s.writeSmrBlocks L aware bufs blkNo) := by
  induction bufs generalizing s blkNo with
  | nil => exact h
  | cons buf bufs ih =>
    rw [Ext2Sys.writeSmrBlocks]
    exact (hwrite s buf blkNo h).bind fun s' hs' => ih hs' (blkNo + 1)

/-- **The invariant rule for runs**: what every single-block write and every read keeps. -/
theorem meets_runOps {allowed : Fault → Prop} {P : Ext2Sys σ → Prop}
    (hwrite : ∀ s buf blkNo, P s → Meets allowed P (s.writeOne L aware buf blkNo))
    (hread : ∀ (s : Ext2Sys σ) (buf : ℕ → Block) (l n : ℕ), P s →
      P { s with dev := (L.readSmrBlocks s.dev buf l n).2 })
    (hfault : ∀ i, allowed (.tableIndex i)) (h : P s) (ops : List HostOp) :
    Meets allowed (fun r => P r.2) (runOps L aware s ops) := by
  induction ops generalizing s with
  | nil => exact h
  | cons op ops ih =>
    rw [runOps]
    refine Meets.bind (P := fun r => P r.2) ?_ ?_
    · cases op with
      | write blkNo bufs =>
        exact (meets_writeSmrBlocks hwrite h bufs blkNo).bind fun s' hs' => hs'
      | read blkNo bufs =>
        rw [runOp, Ext2Sys.readSmrBlocks]
        split_ifs
        · exact hread s _ blkNo bufs.length h
        · exact hfault _
    · rintro ⟨out, s'⟩ hs'
      refine (ih hs').bind ?_
      rintro ⟨outs, s''⟩ hs''
      exact hs''

end Calls

/-! ## Faults -/

theorem HasBlock.congr {a a' : ArrayDisk} {x : ℕ} (h : HasBlock a x)
    (ha : ∀ l < totalSmrBlocksCnt, a l = a' l) : HasBlock a' x :=
  ⟨h.1, by rw [← ha x h.1]; exact h.2⟩

theorem HasBlock.store {a : ArrayDisk} {x : ℕ} (h : HasBlock a x) (l : ℕ) (b : Block) :
    HasBlock (Function.update a l (some b)) x := by
  refine ⟨h.1, ?_⟩
  by_cases hxl : x = l
  · rw [hxl, Function.update_self]
    rfl
  · rw [Function.update_of_ne hxl]
    exact h.2

theorem Phase.store {a : ArrayDisk} {desc : Block} {m : Ext2MetaCtr} (h : Phase a desc m) (l : ℕ)
    (b : Block) : Phase (Function.update a l (some b)) desc m := by
  have hsome : ∀ {x}, HasBlock a x → HasBlock (Function.update a l (some b)) x := fun h =>
    h.store l b
  have hknown : ∀ {m}, SupersKnown a m → SupersKnown (Function.update a l (some b)) m := fun h =>
    { h with mapped := fun x hx hne => hsome (h.mapped x hx hne) }
  have hdecoded : Decoded a desc m → Decoded (Function.update a l (some b)) desc m := fun h =>
    { h with toSupersKnown := hknown h.toSupersKnown, descMapped := hsome h.descMapped }
  have hmapped : ∀ {v}, Mapped a v → Mapped (Function.update a l (some b)) v := fun h x hx =>
    hsome (h x hx)
  cases h with
  | noSb0 hs => exact .noSb0 hs
  | sb0 h => exact .sb0 h
  | sbs h => exact .sbs { h with toSupersKnown := hknown h.toSupersKnown }
  | descs h =>
    cases h with
    | bgDescs hs h htmp => exact .descs (.bgDescs hs (hdecoded h) htmp)
    | blkBitmap hs h htmp hblk => exact .descs (.blkBitmap hs (hdecoded h) htmp (hmapped hblk))
    | inoBitmap hs h htmp hblk hino =>
      exact .descs (.inoBitmap hs (hdecoded h) htmp (hmapped hblk) (hmapped hino))
  | ext2 hs htmp => exact .ext2 hs htmp

/-- **One write to the plain array**: the detector is called if it is on, and then the block is
stored. -/
theorem writeOne_array_spec {aware : Bool} {t : Ext2Sys ArrayDisk} {desc : Block}
    (h : Phase t.dev desc t.metaCtr) (buf : Block) (blkNo : ℕ) :
    Meets TableFault (fun t' => ∃ t₁, (if aware then Detects t desc buf blkNo t₁ else t₁ = t) ∧
      t' = { t₁ with dev := Function.update t₁.dev blkNo (some buf) })
      (t.writeOne arrayLayer aware buf blkNo) := by
  have hstore : ∀ t₁ : Ext2Sys ArrayDisk, (if aware then Detects t desc buf blkNo t₁ else t₁ = t) →
      Meets TableFault (fun t' => ∃ t₁, (if aware then Detects t desc buf blkNo t₁ else t₁ = t) ∧
        t' = { t₁ with dev := Function.update t₁.dev blkNo (some buf) })
        (do checkIndex blkNo
            let dev ← arrayLayer.storeBlock t₁.dev blkNo buf
            return { t₁ with dev := dev }) := fun t₁ ht₁ =>
    (checkIndex_spec blkNo).bind fun _ _ => meets_pure.mpr ⟨t₁, ht₁, rfl⟩
  rw [Ext2Sys.writeOne]
  cases aware with
  | false => exact hstore t rfl
  | true => exact (detectExt2Fs_spec h buf blkNo).bind hstore

/-- The detector is between two writes. -/
def InPhase (t : Ext2Sys ArrayDisk) : Prop := ∃ desc, Phase t.dev desc t.metaCtr

theorem inPhase_freshArray : InPhase freshArray := ⟨0, .noSb0 rfl⟩

theorem meets_writeOne_array {aware : Bool} {t : Ext2Sys ArrayDisk} (h : InPhase t) (buf : Block)
    (blkNo : ℕ) : Meets TableFault InPhase (t.writeOne arrayLayer aware buf blkNo) := by
  obtain ⟨desc, h⟩ := h
  refine (writeOne_array_spec h buf blkNo).mono ?_
  rintro - ⟨t₁, ht₁, rfl⟩
  have hphase : ∃ desc', Phase t₁.dev desc' t₁.metaCtr := by
    split_ifs at ht₁
    · exact ht₁.phase h
    · exact ⟨desc, ht₁ ▸ h⟩
  obtain ⟨desc', h'⟩ := hphase
  exact ⟨desc', h'.store blkNo buf⟩

theorem readSmrBlocks_array_spec (t : Ext2Sys ArrayDisk) (bufs : List Block) (blkNo : ℕ) :
    Meets TableFault (fun r => r.2 = t ∧ r.1 = (List.range bufs.length).map
      (t.dev.readOver (fun i => bufs.getD i 0) blkNo bufs.length))
      (t.readSmrBlocks arrayLayer bufs blkNo) := by
  rw [Ext2Sys.readSmrBlocks]
  split_ifs
  · exact ⟨rfl, rfl⟩
  · exact ⟨_, rfl⟩

/-- **A run over the plain array stops on no other fault than an index past the table.** -/
theorem meets_runOps_array (aware : Bool) {t : Ext2Sys ArrayDisk} (h : InPhase t)
    (ops : List HostOp) :
    Meets TableFault (fun r => InPhase r.2) (runOps arrayLayer aware t ops) :=
  meets_runOps (fun _ buf blkNo ht => meets_writeOne_array ht buf blkNo) (fun _ _ _ _ ht => ht)
    (fun i => ⟨i, rfl⟩) h ops

/-- **A run of the module ends** if no index is past the table. -/
theorem runModule_ok {env : Env} (hpast : env.PastEndNotFree) {data : ℕ → Block}
    {ops : List HostOp} (hindex : ∀ i, runModule env data ops ≠ .error (.tableIndex i)) :
    ∃ outs s, runModule env data ops = .ok (outs, s) := by
  have hrun := runModule_refines env data ops
  have hfault := meets_runOps_array env.aware inPhase_freshArray ops
  cases hres : runModule env data ops with
  | ok r => exact ⟨r.1, r.2, rfl⟩
  | error e =>
    rw [hres] at hrun
    cases harr : runOps arrayLayer env.aware freshArray ops with
    | ok r =>
      rw [harr] at hrun
      exact absurd hrun (not_pastEndFault hpast e)
    | error e' =>
      rw [harr] at hrun hfault
      obtain ⟨i, rfl⟩ := hfault
      rcases hrun with rfl | hrun
      · exact absurd hres (hindex i)
      · exact absurd hrun (not_pastEndFault hpast e)

end MemSmr
