import MemSmr.Runs

/-!
# The writes of a run, one by one

* `trace`: every block that a run writes, with the state of the module before and after.
* `trace_refines`: a run over one layer makes the same writes as a run over another that it refines.
* `trace_rule`: what holds along a run of the module follows from what one write to the plain array
  preserves.  The rule carries a value along that the run itself does not have.
-/

namespace MemSmr

open Outcome

/-- The write of one block. -/
structure WriteStep (σ : Type) where
  before : Ext2Sys σ
  blkNo : ℕ
  buf : Block
  after : Ext2Sys σ

section Trace

variable {σ : Type} (L : BlockLayer σ) (aware : Bool)

/-- The writes that a call of `write_smr_blocks` makes. -/
def traceWrites (s : Ext2Sys σ) : List Block → ℕ → List (WriteStep σ)
  | [], _ => []
  | buf :: rest, blkNo =>
    match s.writeOne L aware buf blkNo with
    | .ok s' => ⟨s, blkNo, buf, s'⟩ :: traceWrites s' rest (blkNo + 1)
    | .error _ => []

/-- The writes that a call makes. -/
def traceOp (s : Ext2Sys σ) : HostOp → List (WriteStep σ)
  | .write blkNo bufs => traceWrites L aware s bufs blkNo
  | .read _ _ => []

/-- The writes that a run makes, in order. -/
def trace (s : Ext2Sys σ) : List HostOp → List (WriteStep σ)
  | [] => []
  | op :: ops =>
    traceOp L aware s op ++
      match runOp L aware s op with
      | .ok (_, s') => trace s' ops
      | .error _ => []

variable {L aware} {s s' : Ext2Sys σ}

theorem traceWrites_cons {buf : Block} {bufs : List Block} {blkNo : ℕ}
    (h : s.writeOne L aware buf blkNo = .ok s') : traceWrites L aware s (buf :: bufs) blkNo =
      ⟨s, blkNo, buf, s'⟩ :: traceWrites L aware s' bufs (blkNo + 1) := by
  rw [traceWrites, h]

theorem trace_cons {op : HostOp} {ops : List HostOp} {out : List Block}
    (h : runOp L aware s op = .ok (out, s')) :
    trace L aware s (op :: ops) = traceOp L aware s op ++ trace L aware s' ops := by
  rw [trace, h]

/-- A run up to a call, and the call. -/
theorem runOps_getElem {ops : List HostOp} {outs : List (List Block)}
    (hrun : runOps L aware s ops = .ok (outs, s')) {k : ℕ} {op : HostOp} (hk : ops[k]? = some op) :
    ∃ outs₁ s₁ out s₂, runOps L aware s (ops.take k) = .ok (outs₁, s₁) ∧
      runOp L aware s₁ op = .ok (out, s₂) ∧ outs[k]? = some out := by
  induction ops generalizing s outs k with
  | nil => simp at hk
  | cons op' ops ih =>
    obtain ⟨out, s₁, outs', hop, hrest, rfl⟩ := runOps_cons_ok.mp hrun
    cases k with
    | zero =>
      rw [List.getElem?_cons_zero] at hk
      obtain rfl := Option.some.inj hk
      exact ⟨[], s, out, s₁, rfl, hop, List.getElem?_cons_zero⟩
    | succ k =>
      rw [List.getElem?_cons_succ] at hk
      obtain ⟨outs₁, s₂, out', s₃, h1, h2, h3⟩ := ih hrest hk
      exact ⟨out :: outs₁, s₂, out', s₃, runOps_cons_ok.mpr ⟨out, s₁, outs₁, hop, h1, rfl⟩, h2,
        List.getElem?_cons_succ.trans h3⟩

theorem mem_trace_of_take {ops : List HostOp} {k : ℕ} {st : WriteStep σ}
    (h : st ∈ trace L aware s (ops.take k)) : st ∈ trace L aware s ops := by
  induction ops generalizing s k with
  | nil =>
    rw [List.take_nil] at h
    exact h
  | cons op ops ih =>
    cases k with
    | zero => exact absurd h List.not_mem_nil
    | succ k =>
      rw [List.take_succ_cons, trace, List.mem_append] at h
      rw [trace, List.mem_append]
      refine h.imp_right fun h => ?_
      cases hop : runOp L aware s op with
      | ok r =>
        rw [hop] at h
        exact ih h
      | error e =>
        rw [hop] at h
        exact h

end Trace

/-! ## Two layers -/

/-- The same write over related layers. -/
structure StepRel {σ τ : Type} (R : σ → τ → Prop) (st : WriteStep σ) (st' : WriteStep τ) : Prop where
  before : SysRel R st.before st'.before
  blkNo : st.blkNo = st'.blkNo
  buf : st.buf = st'.buf
  after : SysRel R st.after st'.after

/-- A write of the first run is a write of the second. -/
theorem exists_of_forall₂ {α β : Type} {P : α → β → Prop} {l : List α} {l' : List β}
    (h : List.Forall₂ P l l') {x : α} (hx : x ∈ l) : ∃ y ∈ l', P x y := by
  induction h with
  | nil => exact absurd hx List.not_mem_nil
  | cons hxy _ ih =>
    rcases List.mem_cons.mp hx with rfl | hx
    · exact ⟨_, List.mem_cons_self, hxy⟩
    · obtain ⟨y, hy, hP⟩ := ih hx
      exact ⟨y, List.mem_cons_of_mem _ hy, hP⟩

section Refines

variable {σ τ : Type} {L : BlockLayer σ} {M : BlockLayer τ} {allowed : Fault → Prop}
  {R : σ → τ → Prop} {aware : Bool}

theorem traceWrites_refines (hsim : LayerSim L M allowed R) {s s' : Ext2Sys σ} {t : Ext2Sys τ}
    {bufs : List Block} {blkNo : ℕ} (hst : SysRel R s t)
    (hrun : s.writeSmrBlocks L aware bufs blkNo = .ok s') :
    List.Forall₂ (StepRel R) (traceWrites L aware s bufs blkNo)
      (traceWrites M aware t bufs blkNo) := by
  induction bufs generalizing s t blkNo with
  | nil => exact .nil
  | cons buf bufs ih =>
    rw [Ext2Sys.writeSmrBlocks] at hrun
    obtain ⟨s₁, hone, hrest⟩ := bind_eq_ok.mp hrun
    obtain ⟨t₁, hone', hst₁⟩ := (hsim.writeOne_refines aware hst buf blkNo).ok_of_ok hone
    rw [traceWrites_cons hone, traceWrites_cons hone']
    exact .cons ⟨hst, rfl, rfl, hst₁⟩ (ih hst₁ hrest)

/-- **A run over one layer makes the same writes as a run over the other.** -/
theorem trace_refines (hsim : LayerSim L M allowed R) {s s' : Ext2Sys σ} {t : Ext2Sys τ}
    {ops : List HostOp} {outs : List (List Block)} (hst : SysRel R s t)
    (hrun : runOps L aware s ops = .ok (outs, s')) :
    List.Forall₂ (StepRel R) (trace L aware s ops) (trace M aware t ops) := by
  induction ops generalizing s t outs with
  | nil => exact .nil
  | cons op ops ih =>
    obtain ⟨out, s₁, outs', hop, hrest, -⟩ := runOps_cons_ok.mp hrun
    obtain ⟨⟨out', t₁⟩, hop', -, hst₁⟩ := (hsim.runOp_refines aware hst op).ok_of_ok hop
    rw [trace_cons hop, trace_cons hop']
    refine List.rel_append ?_ (ih hst₁ hrest)
    cases op with
    | write blkNo bufs => exact traceWrites_refines hsim hst (runOp_write_ok.mp hop).1
    | read blkNo bufs => exact .nil

end Refines

/-! ## The rule -/

section Rule

variable {σ V : Type} {L : BlockLayer σ} {aware : Bool} {allowed : Fault → Prop}
  {R : σ → ArrayDisk → Prop} {Inv : Ext2Sys ArrayDisk → V → Prop} {f : V → WriteStep σ → V}
  {C Q : WriteStep σ → Prop}

/-- What one write preserves; `C` is assumed of the writes of the run and `Q` is concluded. -/
def StepRule (aware : Bool) (R : σ → ArrayDisk → Prop) (Inv : Ext2Sys ArrayDisk → V → Prop)
    (f : V → WriteStep σ → V) (C Q : WriteStep σ → Prop) : Prop :=
  ∀ st t t' v, SysRel R st.before t → SysRel R st.after t' →
    t.writeOne arrayLayer aware st.buf st.blkNo = .ok t' → Inv t v → C st → Inv t' (f v st) ∧ Q st

theorem traceWrites_rule (hsim : LayerSim L arrayLayer allowed R)
    (hstep : StepRule aware R Inv f C Q) {s s' : Ext2Sys σ} {t : Ext2Sys ArrayDisk} {v : V}
    {bufs : List Block} {blkNo : ℕ} (hst : SysRel R s t) (hinv : Inv t v)
    (hC : ∀ st ∈ traceWrites L aware s bufs blkNo, C st)
    (hrun : s.writeSmrBlocks L aware bufs blkNo = .ok s') :
    (∀ st ∈ traceWrites L aware s bufs blkNo, Q st) ∧
      ∃ t', SysRel R s' t' ∧ Inv t' ((traceWrites L aware s bufs blkNo).foldl f v) := by
  induction bufs generalizing s t v blkNo with
  | nil =>
    obtain rfl := Except.ok.inj hrun
    exact ⟨fun _ hmem => absurd hmem List.not_mem_nil, t, hst, hinv⟩
  | cons buf bufs ih =>
    rw [Ext2Sys.writeSmrBlocks] at hrun
    obtain ⟨s₁, hone, hrest⟩ := bind_eq_ok.mp hrun
    obtain ⟨t₁, hone', hst₁⟩ := (hsim.writeOne_refines aware hst buf blkNo).ok_of_ok hone
    rw [traceWrites_cons hone] at hC ⊢
    obtain ⟨hC₁, hC⟩ := List.forall_mem_cons.mp hC
    obtain ⟨hinv₁, hQ₁⟩ := hstep ⟨s, blkNo, buf, s₁⟩ t t₁ v hst hst₁ hone' hinv hC₁
    obtain ⟨hQ, t', hst', hinv'⟩ := ih hst₁ hinv₁ hC hrest
    exact ⟨List.forall_mem_cons.mpr ⟨hQ₁, hQ⟩, t', hst', hinv'⟩

/-- **The rule for runs.**  An invariant of the plain array that every write preserves holds after
every run, and every write of the run satisfies what the step concludes. -/
theorem trace_rule (hsim : LayerSim L arrayLayer allowed R) (hstep : StepRule aware R Inv f C Q)
    {s s' : Ext2Sys σ} {t : Ext2Sys ArrayDisk} {v : V} {ops : List HostOp}
    {outs : List (List Block)} (hst : SysRel R s t) (hinv : Inv t v)
    (hC : ∀ st ∈ trace L aware s ops, C st) (hrun : runOps L aware s ops = .ok (outs, s')) :
    (∀ st ∈ trace L aware s ops, Q st) ∧
      ∃ t', SysRel R s' t' ∧ Inv t' ((trace L aware s ops).foldl f v) := by
  induction ops generalizing s t v outs with
  | nil =>
    obtain ⟨-, rfl⟩ := Prod.mk.inj (Except.ok.inj hrun)
    exact ⟨fun _ hmem => absurd hmem List.not_mem_nil, t, hst, hinv⟩
  | cons op ops ih =>
    obtain ⟨out, s₁, outs', hop, hrest, -⟩ := runOps_cons_ok.mp hrun
    rw [trace_cons hop] at hC ⊢
    obtain ⟨hC₁, hC₂⟩ := List.forall_mem_append.mp hC
    have hone : (∀ st ∈ traceOp L aware s op, Q st) ∧
        ∃ t₁, SysRel R s₁ t₁ ∧ Inv t₁ ((traceOp L aware s op).foldl f v) := by
      cases op with
      | write blkNo bufs =>
        exact traceWrites_rule hsim hstep hst hinv hC₁ (runOp_write_ok.mp hop).1
      | read blkNo bufs =>
        obtain ⟨r, hread, -, hst₁⟩ := (hsim.readSmrBlocks_refines hst bufs blkNo).ok_of_ok hop
        have ht := (readSmrBlocks_array_spec t bufs blkNo).of_ok hread
        rw [ht.1] at hst₁
        exact ⟨fun _ hmem => absurd hmem List.not_mem_nil, t, hst₁, hinv⟩
    obtain ⟨hQ₁, t₁, hst₁, hinv₁⟩ := hone
    obtain ⟨hQ, t', hst', hinv'⟩ := ih hst₁ hinv₁ hC₂ hrest
    rw [List.foldl_append]
    exact ⟨List.forall_mem_append.mpr ⟨hQ₁, hQ⟩, t', hst', hinv'⟩

end Rule

end MemSmr
