import MemSmr.Groups

/-!
# Which group descriptors are processed

`detect_BG_DESCs_if_SBs` takes the descriptor blocks after block 0 one after the other, and
`get_number_of_BG_DESCs` says how many descriptors it processes in each.

* `readBgDescBlkLogged`: a round of the loop that also writes down the calls of
  `do_group_descriptor`; `readBgDescBlkLogged_eq` relates it to the loop of the source.
* `getNumberOfBgDescs_spec`: the number for one block.
* `descriptors_once_iff`: when every descriptor is processed once.
-/

namespace MemSmr

open Outcome Ext2MetaCtr

/-! ## A record of the calls -/

namespace Ext2Sys

variable {σ : Type} (L : BlockLayer σ)

/-- The call of `do_group_descriptor` on descriptor `k` of block `blk`, whose contents are `buf`. -/
def doGroupDescriptorLogged (buf : Block) (blk : ℕ) (st : Ext2MetaCtr × List (ℕ × ℕ)) (k : ℕ) :
    Ext2MetaCtr × List (ℕ × ℕ) :=
  (st.1.doGroupDescriptor (Ext2GroupDesc.ofBlock buf k), st.2 ++ [(blk, k)])

/-- `readBgDescBlk` with a record of the calls. -/
def readBgDescBlkLogged (st : Ext2Sys σ × List (ℕ × ℕ)) (blk : ℕ) :
    Except Fault (Ext2Sys σ × List (ℕ × ℕ)) := do
  let (buf, dev) ← readOne L st.1.dev st.1.bgDescsBuf blk
  let n ← st.1.metaCtr.getNumberOfBgDescs blk
  let (m, log) := (List.range n).foldl (doGroupDescriptorLogged buf blk) (st.1.metaCtr, st.2)
  return ({ st.1 with dev := dev, metaCtr := m, bgDescsBuf := buf }, log)

theorem foldl_doGroupDescriptorLogged (buf : Block) (blk : ℕ) (l : List ℕ) (m : Ext2MetaCtr)
    (log : List (ℕ × ℕ)) : l.foldl (doGroupDescriptorLogged buf blk) (m, log) =
      (l.foldl (fun m k => m.doGroupDescriptor (Ext2GroupDesc.ofBlock buf k)) m,
        log ++ l.map fun k => (blk, k)) := by
  induction l generalizing m log with
  | nil => simp
  | cons k l ih =>
    rw [List.foldl_cons, List.foldl_cons, List.map_cons, doGroupDescriptorLogged, ih,
      List.append_assoc, List.singleton_append]

/-- The record changes nothing. -/
theorem readBgDescBlkLogged_eq (s : Ext2Sys σ) (log : List (ℕ × ℕ)) (blk : ℕ) :
    readBgDescBlkLogged L (s, log) blk = (do
      let s' ← s.readBgDescBlk L blk
      let n ← s.metaCtr.getNumberOfBgDescs blk
      return (s', log ++ (List.range n).map fun k => (blk, k))) := by
  rw [readBgDescBlkLogged, readBgDescBlk]
  cases readOne L s.dev s.bgDescsBuf blk with
  | error e => rfl
  | ok r =>
    cases hn : s.metaCtr.getNumberOfBgDescs blk with
    | error e => rfl
    | ok n =>
      simp only [ok_bind, foldl_doGroupDescriptorLogged]
      rfl

end Ext2Sys

/-! ## The number of descriptors in a block -/

/-- **The backward search ends** at the nearest super block, when block 0 is one. -/
theorem precedingSb_spec {v : SortedVector} {blk : ℕ} (h0 : sb0BlockNo ∈ v) (fuel offset : ℕ)
    (hle : offset ≤ blk) (hfuel : blk + 1 ≤ fuel + offset) :
    ∃ o, precedingSb v blk fuel offset = .ok o ∧ offset ≤ o ∧ o ≤ blk ∧ blk - o ∈ v ∧
      ∀ o', offset ≤ o' → o' < o → blk - o' ∉ v := by
  induction fuel generalizing offset with
  | zero => omega
  | succ fuel ih =>
    rw [precedingSb]
    by_cases hv : blk - offset ∈ v
    · rw [if_pos (SortedVector.isExisting_iff.mpr hv)]
      exact ⟨offset, rfl, le_refl _, hle, hv, fun o' h1 h2 => by omega⟩
    · rw [if_neg (mt SortedVector.isExisting_iff.mp hv)]
      have hne : offset ≠ blk := by
        rintro rfl
        rw [Nat.sub_self] at hv
        exact hv h0
      obtain ⟨o, h1, h2, h3, h4, h5⟩ := ih (offset + 1) (by omega) (by omega)
      refine ⟨o, h1, by omega, h3, h4, fun o' h6 h7 => ?_⟩
      rcases h6.eq_or_lt with rfl | h6
      · exact hv
      · exact h5 o' h6 h7

/-- `descs_per_block`. -/
theorem descsPerBlock_eq : ext2BlockSize / sizeofGroupDesc = 128 := by decide

theorem Ext2SuperBlock.gdBlks_eq (sb : Ext2SuperBlock) : sb.gdBlks = (sb.gdCnt + 127) / 128 := by
  rw [gdBlks]
  simp only [sizeofGroupDesc, ext2BlockSize]
  omega

/-- No super block lies between block 0 and the last descriptor block after it. -/
def Ext2MetaCtr.NoneBetween (m : Ext2MetaCtr) : Prop :=
  ∀ x ∈ m.metaBlks .sbIdx, x = sb0BlockNo ∨ m.sb0.gdBlks ≤ x

/-- What `get_number_of_BG_DESCs` gives for the blocks after block 0: all of them are full but the
last one. -/
theorem getNumberOfBgDescs_spec {m : Ext2MetaCtr} (h0 : sb0BlockNo ∈ m.metaBlks .sbIdx)
    {blk : ℕ} (hpos : 0 < blk) (hle : blk ≤ m.sb0.gdBlks) (h1 : 1 < m.sb0.gdBlks) :
    ∃ n, m.getNumberOfBgDescs blk = .ok n ∧
      (blk = m.sb0.gdBlks ∧ m.NoneBetween → n = m.sb0.gdCnt % 128) ∧
      (¬ (blk = m.sb0.gdBlks ∧ m.NoneBetween) → n = 128) := by
  obtain ⟨o, ho, hge, hob, hmem, hmin⟩ :=
    precedingSb_spec (v := m.metaBlks .sbIdx) h0 blk 1 hpos (by omega)
  have hlast : o = m.sb0.gdBlks ↔ blk = m.sb0.gdBlks ∧ m.NoneBetween := by
    constructor
    · intro heq
      obtain rfl : blk = o := by omega
      refine ⟨heq, fun x hx => ?_⟩
      by_contra hnot
      rw [not_or] at hnot
      have hx0 : 0 < x := Nat.pos_of_ne_zero hnot.1
      have hback : blk - (blk - x) = x := by omega
      refine hmin (blk - x) (by omega) (by omega) ?_
      rw [hback]
      exact hx
    · rintro ⟨heq, hnone⟩
      rcases hnone _ hmem with hz | hz
      · have : sb0BlockNo = 0 := rfl
        omega
      · omega
  rw [getNumberOfBgDescs, if_neg (by omega), ho, ok_bind, descsPerBlock_eq]
  refine ⟨_, rfl, fun h => if_pos (hlast.mpr h), fun h => if_neg (mt hlast.mp h)⟩

/-! ## The whole loop -/

/-- Where descriptor `g` is: its block after block 0, and its index there. -/
def descPlace (g : ℕ) : ℕ × ℕ :=
  (sb0BlockNo + 1 + g / (ext2BlockSize / sizeofGroupDesc), g % (ext2BlockSize / sizeofGroupDesc))

/-- The descriptors of one block. -/
theorem map_descPlace_add {q r : ℕ} (hr : r ≤ 128) :
    (List.range (q * 128 + r)).map descPlace =
      (List.range (q * 128)).map descPlace ++ (List.range r).map fun k => (q + 1, k) := by
  rw [List.range_add, List.map_append, List.map_map]
  congr 1
  refine List.map_congr_left fun k hk => ?_
  have hlt := List.mem_range.mp hk
  rw [Function.comp_apply, descPlace, descsPerBlock_eq]
  have hdiv : sb0BlockNo + 1 + (q * 128 + k) / 128 = q + 1 := by
    have h0 : sb0BlockNo = 0 := rfl
    omega
  have hmod : (q * 128 + k) % 128 = k := by omega
  rw [hdiv, hmod]

/-- The descriptors of the first blocks. -/
theorem flatMap_full (q : ℕ) :
    (List.range q).flatMap (fun i => (List.range 128).map fun k => (i + 1, k)) =
      (List.range (q * 128)).map descPlace := by
  induction q with
  | zero => rfl
  | succ q ih =>
    rw [List.range_succ (n := q), List.flatMap_append, ih, List.flatMap_singleton, Nat.succ_mul,
      map_descPlace_add (le_refl _)]

namespace Ext2MetaCtr

/-- What `get_number_of_BG_DESCs` looks at. -/
def SameSupers (m m' : Ext2MetaCtr) : Prop :=
  m'.sb0 = m.sb0 ∧ m'.metaBlks .sbIdx = m.metaBlks .sbIdx

theorem SameSupers.getNumberOfBgDescs {m m' : Ext2MetaCtr} (h : SameSupers m m') (blk : ℕ) :
    m'.getNumberOfBgDescs blk = m.getNumberOfBgDescs blk := by
  rw [Ext2MetaCtr.getNumberOfBgDescs, Ext2MetaCtr.getNumberOfBgDescs, h.1, h.2]

theorem SameSupers.trans {m m' m'' : Ext2MetaCtr} (h : SameSupers m m') (h' : SameSupers m' m'') :
    SameSupers m m'' := ⟨h'.1.trans h.1, h'.2.trans h.2⟩

theorem sameSupers_insertBlk (m : Ext2MetaCtr) {idx : MetaVectIndex} (hidx : idx ≠ .sbIdx)
    (b : ℕ) : SameSupers m (m.insertBlk idx b) :=
  ⟨rfl, Function.update_of_ne hidx.symm _ _⟩

theorem sameSupers_doGroupDescriptor (m : Ext2MetaCtr) (gdp : Ext2GroupDesc) :
    SameSupers m (m.doGroupDescriptor gdp) := by
  rw [doGroupDescriptor]
  refine Outcome.foldl_range (P := fun _ m' => SameSupers m m')
    ((sameSupers_insertBlk m (by decide) _).trans (sameSupers_insertBlk _ (by decide) _))
    fun i _ m' h => h.trans (sameSupers_insertBlk _ (by decide) _)

end Ext2MetaCtr

namespace Ext2Sys

variable {σ : Type} (L : BlockLayer σ)

/-- One block: the calls are those that the number of descriptors allows. -/
theorem readBgDescBlk_ok {m : Ext2MetaCtr} {s : Ext2Sys σ} (hs : SameSupers m s.metaCtr)
    {blk n : ℕ} (hblk : blk < totalSmrBlocksCnt) (hn : m.getNumberOfBgDescs blk = .ok n) :
    ∃ s', s.readBgDescBlk L blk = .ok s' ∧ SameSupers m s'.metaCtr := by
  rw [readBgDescBlk, readOne, checkIndex, if_pos hblk, hs.getNumberOfBgDescs, hn]
  refine ⟨_, rfl, hs.trans ?_⟩
  refine Outcome.foldl_range (P := fun _ m' => SameSupers s.metaCtr m') ⟨rfl, rfl⟩
    fun k _ m' h => h.trans (sameSupers_doGroupDescriptor _ _)

/-- All blocks. -/
theorem foldlM_readBgDescBlkLogged {m : Ext2MetaCtr} {cnt : ℕ → ℕ} (l : List ℕ) {s : Ext2Sys σ}
    (hs : SameSupers m s.metaCtr) (log : List (ℕ × ℕ))
    (hl : ∀ b ∈ l, b < totalSmrBlocksCnt ∧ m.getNumberOfBgDescs b = .ok (cnt b)) :
    ∃ s', l.foldlM (readBgDescBlk L) s = .ok s' ∧ l.foldlM (readBgDescBlkLogged L) (s, log) =
      .ok (s', log ++ l.flatMap fun b => (List.range (cnt b)).map fun k => (b, k)) := by
  induction l generalizing s log with
  | nil => exact ⟨s, rfl, by rw [List.flatMap_nil, List.append_nil]; rfl⟩
  | cons b l ih =>
    obtain ⟨hb, hl⟩ := List.forall_mem_cons.mp hl
    obtain ⟨s₁, h1, hs₁⟩ := readBgDescBlk_ok L hs hb.1 hb.2
    obtain ⟨s₂, h2, h3⟩ := ih hs₁ (log ++ (List.range (cnt b)).map fun k => (b, k)) hl
    refine ⟨s₂, ?_, ?_⟩
    · rw [List.foldlM_cons, h1, ok_bind, h2]
    · rw [List.foldlM_cons, readBgDescBlkLogged_eq, h1, ok_bind, hs.getNumberOfBgDescs, hb.2,
        ok_bind, List.flatMap_cons, ← List.append_assoc]
      exact h3

end Ext2Sys

/-! ## After the super blocks have been found -/

theorem takeBgDescs_spec (m : Ext2MetaCtr) : m.takeBgDescs.sb0 = m.sb0 ∧
    (∀ x, x ∈ m.takeBgDescs.metaBlks .sbIdx ↔ x ∈ m.metaBlks .sbIdx) ∧
    (sb0BlockNo ∈ m.metaBlks .sbIdx → (m.takeBgDescs.metaBlks .tmpIdx).toList =
      (List.range m.sb0.gdBlks).map (· + 1)) := by
  rw [takeBgDescs]
  obtain ⟨honly, hmem⟩ := mem_foldl_recordBgDescs (n := m.sb0.gdBlks)
    (l := (((m.clearBlks .tmpIdx).setStatus .sbsDetected).metaBlks .sbIdx).toList)
    (m := (m.clearBlks .tmpIdx).setStatus .sbsDetected)
  have hsb : ∀ y, y ∈ ((m.clearBlks .tmpIdx).setStatus .sbsDetected).metaBlks .sbIdx ↔
      y ∈ m.metaBlks .sbIdx := fun y => mem_clearBlks.trans (and_iff_right (by decide))
  refine ⟨honly.sb0, fun x => ?_, fun h0 => ?_⟩
  · refine (hmem _ x).trans ((or_iff_left ?_).trans (hsb x))
    rintro ⟨y, -, h | h, -⟩
    · cases h
    · cases h.1
  · refine SortedVector.toList_eq ?_ fun x => ?_
    · rw [List.pairwise_map]
      exact List.pairwise_lt_range.imp fun h => Nat.succ_lt_succ h
    · refine (hmem _ x).trans ?_
      rw [List.mem_map]
      constructor
      · rintro (h | ⟨y, -, h | h, i, hi, rfl⟩)
        · exact absurd rfl (mem_clearBlks.mp h).1
        · cases h
        · refine ⟨i, List.mem_range.mpr hi, ?_⟩
          rw [h.2]
          exact (Nat.add_comm _ _).trans (by rw [Nat.zero_add])
      · rintro ⟨i, hi, rfl⟩
        refine Or.inr ⟨sb0BlockNo, SortedVector.mem_toList.mpr ((hsb _).mpr h0), Or.inr ⟨rfl, rfl⟩,
          i, List.mem_range.mp hi, ?_⟩
        rw [Nat.add_comm sb0BlockNo, Nat.add_comm]
        rfl

/-- A super block between block 0 and the last descriptor block: the group count has wrapped
around. -/
theorem gdCnt_of_between {sb : Ext2SuperBlock} {diskSize x : ℕ} (h : sb.isLegalOn diskSize = true)
    (hx : sb.IsScannedPos x) (hpos : x ≠ sb0BlockNo) (hlt : x < sb.gdBlks) : sb.gdCnt = 131072 := by
  obtain ⟨-, hle, -, -, -⟩ := Ext2SuperBlock.isLegalOn_iff.mp h
  refine Ext2SuperBlock.gdCnt_of_eq h (hle.eq_or_lt.resolve_right fun hblks => ?_)
  obtain ⟨g, hg, rfl⟩ := hx.resolve_left hpos
  have hcnt := Ext2SuperBlock.gdCnt_le h
  have hsparse := (hg.isSparseGroup.lt_of_lt (by have := hg.1; omega)).1
  rw [Ext2SuperBlock.groupStart_of_lt h hblks hg.1, sb.gdBlks_eq] at hlt
  omega

/-- The numbers of descriptors that the blocks after block 0 are said to hold: full ones, and a
last one. -/
theorem getNumberOfBgDescs_all {m : Ext2MetaCtr} (h0 : sb0BlockNo ∈ m.metaBlks .sbIdx) :
    ∃ rest ≤ 128, (∀ i < m.sb0.gdBlks, m.getNumberOfBgDescs (i + 1) =
        .ok (if i + 1 = m.sb0.gdBlks then rest else 128)) ∧
      (m.sb0.gdBlks = 1 → rest = m.sb0.gdCnt) ∧
      (1 < m.sb0.gdBlks → m.NoneBetween → rest = m.sb0.gdCnt % 128) ∧
      (1 < m.sb0.gdBlks → ¬ m.NoneBetween → rest = 128) := by
  have hblks := m.sb0.gdBlks_eq
  have hcnt := m.sb0.gdCnt_pos
  rcases Nat.lt_or_ge 1 m.sb0.gdBlks with h1 | h1
  · obtain ⟨rest, hrest, hlast, hfull⟩ :=
      getNumberOfBgDescs_spec h0 (Nat.zero_lt_of_lt h1) (le_refl _) h1
    refine ⟨rest, ?_, fun i hi => ?_, fun h => by omega, fun _ hnone => hlast ⟨rfl, hnone⟩,
      fun _ hnone => hfull fun h => hnone h.2⟩
    · by_cases hnone : m.NoneBetween
      · rw [hlast ⟨rfl, hnone⟩]
        omega
      · rw [hfull fun h => hnone h.2]
    · split_ifs with hi'
      · rw [hi', hrest]
      · obtain ⟨n, hn, -, hn'⟩ := getNumberOfBgDescs_spec h0 (Nat.succ_pos i) hi h1
        rw [hn, hn' fun h => hi' h.1]
  · refine ⟨m.sb0.gdCnt, by omega, fun i hi => ?_, fun _ => rfl, fun h => by omega,
      fun h => by omega⟩
    rw [if_pos (by omega)]
    exact getNumberOfBgDescs_eq h1 _

/-- The calls for full blocks and a last one. -/
theorem flatMap_counts {n rest : ℕ} (hn : 0 < n) (hrest : rest ≤ 128) :
    ((List.range n).map (· + 1)).flatMap
        (fun b => (List.range (if b = n then rest else 128)).map fun k => (b, k)) =
      (List.range ((n - 1) * 128 + rest)).map descPlace := by
  obtain ⟨q, rfl⟩ : ∃ q, n = q + 1 := ⟨n - 1, by omega⟩
  rw [Nat.add_sub_cancel, map_descPlace_add hrest, ← flatMap_full, List.flatMap_map,
    List.range_succ (n := q), List.flatMap_append, List.flatMap_singleton, if_pos rfl]
  congr 1
  refine List.flatMap_congr fun i hi => ?_
  have hlt := List.mem_range.mp hi
  rw [if_neg (by omega)]

theorem counts_eq {n rest : ℕ} (hn : 0 < n) :
    ((List.range n).map (· + 1)).map (fun b => if b = n then rest else 128) =
      List.replicate (n - 1) 128 ++ [rest] := by
  obtain ⟨q, rfl⟩ : ∃ q, n = q + 1 := ⟨n - 1, by omega⟩
  rw [Nat.add_sub_cancel, List.range_succ, List.map_append, List.map_append, List.map_singleton,
    List.map_singleton, if_pos rfl, List.map_map]
  congr 1
  refine List.eq_replicate_iff.mpr ⟨by rw [List.length_map, List.length_range], fun c hc => ?_⟩
  obtain ⟨i, hi, rfl⟩ := List.mem_map.mp hc
  have hlt := List.mem_range.mp hi
  have hne : i + 1 ≠ q + 1 := by omega
  exact if_neg hne

/-- Full blocks of descriptors and one that holds the remainder. -/
def FullBlocks (gdCnt : ℕ) (counts : List ℕ) : Prop :=
  ∃ q r, counts = List.replicate q 128 ++ [r] ∧ 0 < r ∧ r ≤ 128 ∧ counts.sum = gdCnt

/-- The numbers add up when the last one is right. -/
theorem fullBlocks_iff {gdCnt rest : ℕ} (hpos : 0 < gdCnt) (hrest : rest ≤ 128) :
    FullBlocks gdCnt (List.replicate ((gdCnt + 127) / 128 - 1) 128 ++ [rest]) ↔
      ((gdCnt + 127) / 128 - 1) * 128 + rest = gdCnt := by
  have hsum : (List.replicate ((gdCnt + 127) / 128 - 1) 128 ++ [rest]).sum =
      ((gdCnt + 127) / 128 - 1) * 128 + rest := by
    rw [List.sum_append, List.sum_replicate, List.sum_singleton, smul_eq_mul]
  constructor
  · rintro ⟨q, r, -, -, -, h⟩
    rw [← hsum, h]
  · intro h
    exact ⟨_, rest, rfl, by omega, hrest, hsum.trans h⟩

/-- Which calls are made, and when they are the right ones. -/
theorem descCalls_iff {m : Ext2MetaCtr}
    (hbetween : ¬ m.NoneBetween → m.sb0.gdCnt % 128 = 0) {rest : ℕ}
    (hone : m.sb0.gdBlks = 1 → rest = m.sb0.gdCnt)
    (hnone : 1 < m.sb0.gdBlks → m.NoneBetween → rest = m.sb0.gdCnt % 128)
    (hsome : 1 < m.sb0.gdBlks → ¬ m.NoneBetween → rest = 128) :
    (m.sb0.gdBlks - 1) * 128 + rest = m.sb0.gdCnt ↔
      m.sb0.gdCnt ≤ 128 ∨ m.sb0.gdCnt % 128 ≠ 0 ∨ ¬ m.NoneBetween := by
  have hpos := m.sb0.gdCnt_pos
  rw [m.sb0.gdBlks_eq] at hone hnone hsome ⊢
  by_cases h1 : m.sb0.gdCnt ≤ 128
  · rw [hone (by omega)]
    omega
  · by_cases hn : m.NoneBetween
    · rw [hnone (by omega) hn]
      simp only [hn, not_true_eq_false, or_false]
      omega
    · have hmod := hbetween hn
      rw [hsome (by omega) hn]
      simp only [hn, not_false_eq_true, or_true, iff_true]
      omega

/-- The calls that the loops make, from the state that the detection of the super blocks leaves. -/
theorem descCalls_spec {σ : Type} (L : BlockLayer σ) {diskSize : ℕ} (m : Ext2MetaCtr)
    {sb : Ext2SuperBlock} (h : sb.isLegalOn diskSize = true) :
    ∃ m', m.takeSuperBlk sb = .ok m' ∧ ∀ s : Ext2Sys σ, s.metaCtr = m'.takeBgDescs →
      ∃ s' rest, rest ≤ 128 ∧
        (s.metaCtr.metaBlks .tmpIdx).toList = (List.range sb.gdBlks).map (· + 1) ∧
        (s.metaCtr.metaBlks .tmpIdx).toList.foldlM (Ext2Sys.readBgDescBlk L) s = .ok s' ∧
        (s.metaCtr.metaBlks .tmpIdx).toList.foldlM (Ext2Sys.readBgDescBlkLogged L) (s, []) =
          .ok (s', (List.range ((sb.gdBlks - 1) * 128 + rest)).map descPlace) ∧
        (s.metaCtr.metaBlks .tmpIdx).toList.mapM s.metaCtr.getNumberOfBgDescs =
          .ok (List.replicate (sb.gdBlks - 1) 128 ++ [rest]) ∧
        ((sb.gdBlks - 1) * 128 + rest = sb.gdCnt ↔ sb.gdCnt ≤ 128 ∨ sb.gdCnt % 128 ≠ 0 ∨
          ∃ x ∈ s.metaCtr.metaBlks .sbIdx, x ≠ sb0BlockNo ∧ x < sb.gdBlks) := by
  obtain ⟨m', hm', hsb0, hmem⟩ := mem_takeSuperBlk m sb
  obtain ⟨hsb0', hsuper, htmp⟩ := takeBgDescs_spec m'
  refine ⟨m', hm', fun s hs => ?_⟩
  rw [← hs] at hsb0' hsuper htmp
  have hsb : s.metaCtr.sb0 = sb := hsb0'.trans hsb0
  have h0 : sb0BlockNo ∈ s.metaCtr.metaBlks .sbIdx :=
    (hsuper _).mpr ((hmem _).mpr (Or.inl rfl))
  have hlist := htmp ((hsuper _).mp h0)
  obtain ⟨rest, hrest, hcnt, hone, hnone, hsome⟩ := getNumberOfBgDescs_all h0
  have hbetween : (¬ s.metaCtr.NoneBetween) ↔
      ∃ x ∈ s.metaCtr.metaBlks .sbIdx, x ≠ sb0BlockNo ∧ x < sb.gdBlks := by
    rw [NoneBetween, hsb]
    push Not
    exact Iff.rfl
  have hwrap : ¬ s.metaCtr.NoneBetween → s.metaCtr.sb0.gdCnt % 128 = 0 := fun hnot => by
    obtain ⟨x, hx, hx0, hlt⟩ := hbetween.mp hnot
    have hgd := gdCnt_of_between h ((hmem x).mp ((hsuper x).mp hx)) hx0 hlt
    rw [hsb]
    omega
  have htotal := descCalls_iff hwrap hone hnone hsome
  rw [hbetween] at htotal
  rw [hsb] at hcnt htotal
  rw [hsb0] at hlist
  have hblks := sb.gdBlks_eq
  have hpos := sb.gdCnt_pos
  have hle := Ext2SuperBlock.gdCnt_le h
  have hall : ∀ b ∈ (List.range sb.gdBlks).map (· + 1), b < totalSmrBlocksCnt ∧
      s.metaCtr.getNumberOfBgDescs b = .ok (if b = sb.gdBlks then rest else 128) := by
    intro b hb
    obtain ⟨i, hi, rfl⟩ := List.mem_map.mp hb
    have hlt := List.mem_range.mp hi
    refine ⟨?_, hcnt i hlt⟩
    rw [totalSmrBlocksCnt_eq]
    omega
  obtain ⟨s', hplain, hlogged⟩ := Ext2Sys.foldlM_readBgDescBlkLogged L
    ((List.range sb.gdBlks).map (· + 1)) (s := s) ⟨rfl, rfl⟩ [] hall
  rw [List.nil_append, flatMap_counts (by omega) hrest] at hlogged
  have hmap := mapM_eq_ok fun b hb => (hall b hb).2
  rw [counts_eq (by omega)] at hmap
  rw [hlist]
  exact ⟨s', rest, hrest, rfl, hplain, hlogged, hmap, htotal⟩

/-- **The group descriptors.**  The search for the super block before a descriptor block always ends,
and the loops process every descriptor once and nothing else just when the descriptors fit in one
block or do not fill the last one: a last block that is full is taken for empty.  (With a super block
between block 0 and its last descriptor block the last block is not recognised and counts as full.
This takes a file system without blocks, whose group count has wrapped around.) -/
theorem descriptors_once_iff {σ : Type} (L : BlockLayer σ) (diskSize : ℕ) (m : Ext2MetaCtr)
    (sb : Ext2SuperBlock) (h : sb.isLegalOn diskSize = true) :
    ∃ m', m.takeSuperBlk sb = .ok m' ∧ ∀ s : Ext2Sys σ, s.metaCtr = m'.takeBgDescs →
      ∃ s' calls counts,
        (s.metaCtr.metaBlks .tmpIdx).toList = (List.range sb.gdBlks).map (· + 1) ∧
        (s.metaCtr.metaBlks .tmpIdx).toList.foldlM (Ext2Sys.readBgDescBlk L) s = .ok s' ∧
        (s.metaCtr.metaBlks .tmpIdx).toList.foldlM (Ext2Sys.readBgDescBlkLogged L) (s, []) =
          .ok (s', calls) ∧
        (s.metaCtr.metaBlks .tmpIdx).toList.mapM s.metaCtr.getNumberOfBgDescs = .ok counts ∧
        (calls = (List.range sb.gdCnt).map descPlace ↔ sb.gdCnt ≤ 128 ∨ sb.gdCnt % 128 ≠ 0 ∨
          ∃ x ∈ s.metaCtr.metaBlks .sbIdx, x ≠ sb0BlockNo ∧ x < sb.gdBlks) ∧
        (FullBlocks sb.gdCnt counts ↔ sb.gdCnt ≤ 128 ∨ sb.gdCnt % 128 ≠ 0 ∨
          ∃ x ∈ s.metaCtr.metaBlks .sbIdx, x ≠ sb0BlockNo ∧ x < sb.gdBlks) := by
  obtain ⟨m', hm', hall⟩ := descCalls_spec L m h
  refine ⟨m', hm', fun s hs => ?_⟩
  obtain ⟨s', rest, hrest, hlist, hplain, hlogged, hcounts, htotal⟩ := hall s hs
  refine ⟨s', _, _, hlist, hplain, hlogged, hcounts, ?_, ?_⟩
  · rw [← htotal]
    refine ⟨fun heq => ?_, fun heq => by rw [heq]⟩
    have hlen := congrArg List.length heq
    rwa [List.length_map, List.length_map, List.length_range, List.length_range] at hlen
  · rw [← htotal, sb.gdBlks_eq]
    exact fullBlocks_iff sb.gdCnt_pos hrest

/-- With 129 groups the second descriptor block holds one descriptor. -/
theorem descriptors_once_129_groups :
    let sb := Ext2SuperBlock.ofBlock (groupedSuperBlk 0x80 0x40) firstSuperBlockOffset
    sb.gdCnt = 129 ∧ ∃ m', freshArray.metaCtr.takeSuperBlk sb = .ok m' ∧
      ∀ s : Ext2Sys ArrayDisk, s.metaCtr = m'.takeBgDescs → ∃ s' calls counts,
        (s.metaCtr.metaBlks .tmpIdx).toList = (List.range sb.gdBlks).map (· + 1) ∧
        (s.metaCtr.metaBlks .tmpIdx).toList.foldlM (Ext2Sys.readBgDescBlk arrayLayer) s =
          .ok s' ∧
        (s.metaCtr.metaBlks .tmpIdx).toList.foldlM (Ext2Sys.readBgDescBlkLogged arrayLayer)
          (s, []) = .ok (s', calls) ∧
        (s.metaCtr.metaBlks .tmpIdx).toList.mapM s.metaCtr.getNumberOfBgDescs = .ok counts ∧
        calls = (List.range sb.gdCnt).map descPlace ∧ FullBlocks sb.gdCnt counts := by
  intro sb
  have hcnt : sb.gdCnt = 129 := by decide +kernel
  obtain ⟨m', hm', hall⟩ := descriptors_once_iff arrayLayer (2 ^ 35) freshArray.metaCtr sb
    (by decide +kernel)
  refine ⟨hcnt, m', hm', fun s hs => ?_⟩
  obtain ⟨s', calls, counts, hlist, hplain, hlogged, hcounts, hcalls, hfull⟩ := hall s hs
  have hrest : sb.gdCnt ≤ 128 ∨ sb.gdCnt % 128 ≠ 0 ∨
      ∃ x ∈ s.metaCtr.metaBlks .sbIdx, x ≠ sb0BlockNo ∧ x < sb.gdBlks := by
    rw [hcnt]
    exact Or.inr (Or.inl (by decide))
  exact ⟨s', calls, counts, hlist, hplain, hlogged, hcounts, hcalls.mpr hrest, hfull.mpr hrest⟩

/-- **With 256 groups, the second descriptor block is skipped.** -/
theorem full_last_block_skipped :
    (Ext2SuperBlock.ofBlock (groupedSuperBlk 0 0x80) firstSuperBlockOffset).isLegalOn (2 ^ 35) =
        true ∧
      (Ext2SuperBlock.ofBlock (groupedSuperBlk 0 0x80) firstSuperBlockOffset).gdCnt = 256 ∧
      ¬ ∃ m' s' calls, freshArray.metaCtr.takeSuperBlk
          (Ext2SuperBlock.ofBlock (groupedSuperBlk 0 0x80) firstSuperBlockOffset) = .ok m' ∧
        (m'.takeBgDescs.metaBlks .tmpIdx).toList.foldlM
            (Ext2Sys.readBgDescBlkLogged arrayLayer)
            ({ freshArray with metaCtr := m'.takeBgDescs }, []) = .ok (s', calls) ∧
        calls = (List.range 256).map descPlace := by
  have hlegal : (Ext2SuperBlock.ofBlock (groupedSuperBlk 0 0x80)
      firstSuperBlockOffset).isLegalOn (2 ^ 35) = true := by decide +kernel
  have hcnt : (Ext2SuperBlock.ofBlock (groupedSuperBlk 0 0x80) firstSuperBlockOffset).gdCnt =
      256 := by decide +kernel
  have hlt : (Ext2SuperBlock.ofBlock (groupedSuperBlk 0 0x80)
      firstSuperBlockOffset).sFirstDataBlock < (Ext2SuperBlock.ofBlock (groupedSuperBlk 0 0x80)
      firstSuperBlockOffset).sBlocksCount := by decide +kernel
  refine ⟨hlegal, hcnt, ?_⟩
  rintro ⟨m', s', calls, hm', hloop, rfl⟩
  obtain ⟨m'', hm'', hall⟩ := descCalls_spec arrayLayer freshArray.metaCtr hlegal
  obtain rfl := Except.ok.inj (hm'.symm.trans hm'')
  obtain ⟨s'', rest, -, -, -, hlogged, -, htotal⟩ :=
    hall { freshArray with metaCtr := m'.takeBgDescs } rfl
  have hcalls := congrArg List.length (Prod.mk.inj (Except.ok.inj (hloop.symm.trans hlogged))).2
  rw [List.length_map, List.length_map, List.length_range, List.length_range] at hcalls
  rw [hcnt] at htotal
  obtain ⟨x, hx, hx0, hxlt⟩ : ∃ x ∈ m'.takeBgDescs.metaBlks .sbIdx, x ≠ sb0BlockNo ∧
      x < (Ext2SuperBlock.ofBlock (groupedSuperBlk 0 0x80) firstSuperBlockOffset).gdBlks := by
    rcases htotal.mp hcalls.symm with h1 | h1 | h1
    · omega
    · omega
    · exact h1
  obtain ⟨m₁, hm₁, hsb0, hmem⟩ := mem_takeSuperBlk freshArray.metaCtr
    (Ext2SuperBlock.ofBlock (groupedSuperBlk 0 0x80) firstSuperBlockOffset)
  obtain rfl := Except.ok.inj (hm'.symm.trans hm₁)
  have hgd := gdCnt_of_between hlegal ((hmem x).mp (((takeBgDescs_spec m').2.1 x).mp hx)) hx0 hxlt
  omega

end MemSmr
