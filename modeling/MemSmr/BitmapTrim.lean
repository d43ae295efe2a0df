import MemSmr.Requests
import MemSmr.Detector

/-!
# What a bitmap trims

`mark_one_blk_bmp` trims the blocks whose bits are clear, each in one of three ways: a block in the
buffer gives its buffer back, a block of the SMR area leaves an invalid slot behind, and a block that
has no mapping is left alone.

* `Trimmed`: the trim of one block, the same statement for the three ways.
* `TrimmedBits`: what the first bits of a bitmap have done.
* `trim_by_bitmap_exact`: what a bitmap does, and that the shortcut for a word of ones is none.
-/

namespace MemSmr

open Outcome

namespace SmrDev

/-! ## One block -/

/-- Block `l` is in buffer `q`. -/
abbrev InBuf (d : SmrDev) (l q : ℕ) : Prop :=
  (d.smr.mappingTable l).mappingFlag = .inHddBuf ∧ (d.smr.mappingTable l).paddr = q

/-- Block `l` is in slot `p` of the SMR area. -/
abbrev InSlot (d : SmrDev) (l p : ℕ) : Prop :=
  (d.smr.mappingTable l).mappingFlag = .inSmrDisk ∧ (d.smr.mappingTable l).paddr = p

/-- Block `l` is in band `b` of the SMR area. -/
abbrev InBand (d : SmrDev) (l b : ℕ) : Prop :=
  (d.smr.mappingTable l).mappingFlag = .inSmrDisk ∧
    (d.smr.mappingTable l).paddr / blocksPerBand = b

/-- Block `l` is neither in the buffer nor in the SMR area. -/
abbrev Unmapped (d : SmrDev) (l : ℕ) : Prop :=
  (d.smr.mappingTable l).mappingFlag ≠ .inHddBuf ∧ (d.smr.mappingTable l).mappingFlag ≠ .inSmrDisk

/-- Block `l` has been trimmed. -/
structure Trimmed (d d' : SmrDev) (l : ℕ) : Prop where
  here : d'.Unmapped l
  metaFlag : ∀ l', (d'.smr.mappingTable l').metaFlag = (d.smr.mappingTable l').metaFlag
  others : ∀ l', l' ≠ l → d'.smr.mappingTable l' = d.smr.mappingTable l'
  hddBuf : d'.buf.hddBuf = d.buf.hddBuf
  data : d'.data = d.data
  cur : d'.smr.curPaddr = d.smr.curPaddr
  free : ∀ q, q ∈ d'.buf.freeHddBufs ↔ d.InBuf l q ∨ q ∈ d.buf.freeHddBufs
  entries : ∀ q, d'.buf.reverseTable q =
    if d.InBuf l q then ⟨(d.buf.reverseTable q).blkNo, 0, 0⟩ else d.buf.reverseTable q
  slots : ∀ p, d'.smr.smrReverseTable p =
    if d.InSlot l p then ⟨0, .invalidPhyBlock⟩ else d.smr.smrReverseTable p
  bands : ∀ b, d'.smr.phyBands b =
    if d.InBand l b then
      ⟨(d.smr.phyBands b).invalidCnt + 1, (d.smr.phyBands b).freeCnt,
        (d.smr.phyBands b).validCnt - 1⟩
    else d.smr.phyBands b

section One

variable {d : SmrDev} {l : ℕ}

theorem trimmed_reclaim (hf : (d.smr.mappingTable l).mappingFlag = .inHddBuf) :
    Trimmed d (d.reclaimFreeHddBuf l) l := by
  have hslot : ∀ p, ¬ d.InSlot l p := fun p h => by
    rw [InSlot, hf] at h
    cases h.1
  have hband : ∀ b, ¬ d.InBand l b := fun b h => by
    rw [InBand, hf] at h
    cases h.1
  have hbuf : ∀ q, d.InBuf l q ↔ q = (d.smr.mappingTable l).paddr := fun q =>
    ⟨fun h => h.2.symm, fun h => ⟨hf, h.symm⟩⟩
  rw [reclaimFreeHddBuf, if_pos (inHddBuf_iff.mpr hf)]
  constructor
  all_goals
    simp only [setupGlobalMappingEntry, setFreeHddBufs, resetPhyBufCounter, setHddBufEntry]
  case here =>
    dsimp only [Unmapped]
    rw [Function.update_self]
    exact ⟨fun h => (by cases h), fun h => (by cases h)⟩
  case metaFlag =>
    intro l'
    by_cases hne : l' = l
    · rw [hne, Function.update_self]
    · rw [Function.update_of_ne hne]
  case others => exact fun l' hne => Function.update_of_ne hne _ _
  case free =>
    intro q
    rw [SortedVector.mem_insert, hbuf]
  case entries =>
    intro q
    by_cases hq : q = (d.smr.mappingTable l).paddr
    · rw [if_pos ((hbuf q).mpr hq), hq, Function.update_self]
    · rw [if_neg fun h => hq ((hbuf q).mp h), Function.update_of_ne hq]
  case slots => exact fun p => (if_neg (hslot p)).symm
  case bands => exact fun b => (if_neg (hband b)).symm

theorem trimmed_invalidate (hf : (d.smr.mappingTable l).mappingFlag = .inSmrDisk) :
    Trimmed d (d.invalidateMappingEntry l) l := by
  have hbuf : ∀ q, ¬ d.InBuf l q := fun q h => by
    rw [InBuf, hf] at h
    cases h.1
  have hslot : ∀ p, d.InSlot l p ↔ p = (d.smr.mappingTable l).paddr := fun p =>
    ⟨fun h => h.2.symm, fun h => ⟨hf, h.symm⟩⟩
  have hband : ∀ b, d.InBand l b ↔ b = (d.smr.mappingTable l).paddr / blocksPerBand := fun b =>
    ⟨fun h => h.2.symm, fun h => ⟨hf, h.symm⟩⟩
  rw [invalidateMappingEntry_eq hf]
  constructor
  all_goals
    simp only [setupGlobalMappingEntry, setupSmrReverseMapping, setPhyBand, setFullyInvalidBands]
  case here =>
    dsimp only [Unmapped]
    rw [Function.update_self]
    exact ⟨fun h => (by cases h), fun h => (by cases h)⟩
  case metaFlag =>
    intro l'
    by_cases hne : l' = l
    · rw [hne, Function.update_self]
    · rw [Function.update_of_ne hne]
  case others => exact fun l' hne => Function.update_of_ne hne _ _
  case free => exact fun q => ⟨Or.inr, fun h => h.resolve_left (hbuf q)⟩
  case entries => exact fun q => (if_neg (hbuf q)).symm
  case slots =>
    intro p
    by_cases hp : p = (d.smr.mappingTable l).paddr
    · rw [if_pos ((hslot p).mpr hp), hp, Function.update_self]
    · rw [if_neg fun h => hp ((hslot p).mp h), Function.update_of_ne hp]
  case bands =>
    intro b
    by_cases hb : b = (d.smr.mappingTable l).paddr / blocksPerBand
    · rw [if_pos ((hband b).mpr hb), hb, Function.update_self]
    · rw [if_neg fun h => hb ((hband b).mp h), Function.update_of_ne hb]

/-- **The trim of one block.** -/
theorem trimmed_trimBlock (d : SmrDev) (l : ℕ) : Trimmed d (d.trimBlock l) l := by
  rw [trimBlock]
  by_cases hb : (d.smr.mappingTable l).mappingFlag = .inHddBuf
  · rw [if_pos (inHddBuf_iff.mpr hb)]
    exact trimmed_reclaim hb
  · rw [if_neg fun h => hb (inHddBuf_iff.mp h)]
    by_cases hs : (d.smr.mappingTable l).mappingFlag = .inSmrDisk
    · rw [if_pos (inSmrDisk_iff.mpr hs)]
      exact trimmed_invalidate hs
    · rw [if_neg fun h => hs (inSmrDisk_iff.mp h)]
      exact
        { here := ⟨hb, hs⟩
          metaFlag := fun _ => rfl
          others := fun _ _ => rfl
          hddBuf := rfl
          data := rfl
          cur := rfl
          free := fun q => ⟨Or.inr, fun h => h.resolve_left fun h => hb h.1⟩
          entries := fun q => (if_neg fun h => hb h.1).symm
          slots := fun p => (if_neg fun h => hs h.1).symm
          bands := fun b => (if_neg fun h => hs h.1).symm }

end One

/-! ## A set of blocks -/

/-- The blocks in `T` have been trimmed, `cnt b` of them in band `b`. -/
structure TrimmedAll (d : SmrDev) (T : ℕ → Prop) (cnt : ℕ → ℕ) (d' : SmrDev) : Prop where
  inv : DevInv d'
  /-- They have no mapping any more. -/
  unmapped : ∀ l, T l → d'.Unmapped l
  metaFlag : ∀ l, (d'.smr.mappingTable l).metaFlag = (d.smr.mappingTable l).metaFlag
  /-- The other blocks keep their entries, and no byte has changed. -/
  kept : ∀ l, ¬ T l → d'.smr.mappingTable l = d.smr.mappingTable l
  hddBuf : d'.buf.hddBuf = d.buf.hddBuf
  data : d'.data = d.data
  cur : d'.smr.curPaddr = d.smr.curPaddr
  /-- The buffers that held them are free, and their counts are zero. -/
  free : ∀ q, q ∈ d'.buf.freeHddBufs ↔ (∃ l, T l ∧ d.InBuf l q) ∨ q ∈ d.buf.freeHddBufs
  zeroed : ∀ q, (∃ l, T l ∧ d.InBuf l q) →
    d'.buf.reverseTable q = ⟨(d.buf.reverseTable q).blkNo, 0, 0⟩
  otherBufs : ∀ q, (¬ ∃ l, T l ∧ d.InBuf l q) → d'.buf.reverseTable q = d.buf.reverseTable q
  /-- The slots that held them are invalid, and the counters of the bands say so. -/
  invalid : ∀ p, (∃ l, T l ∧ d.InSlot l p) → d'.smr.smrReverseTable p = ⟨0, .invalidPhyBlock⟩
  otherSlots : ∀ p, (¬ ∃ l, T l ∧ d.InSlot l p) →
    d'.smr.smrReverseTable p = d.smr.smrReverseTable p
  bands : ∀ b, d'.smr.phyBands b = ⟨(d.smr.phyBands b).invalidCnt + cnt b,
    (d.smr.phyBands b).freeCnt, (d.smr.phyBands b).validCnt - cnt b⟩

theorem TrimmedAll.init {d : SmrDev} (h : DevInv d) :
    TrimmedAll d (fun _ => False) (fun _ => 0) d where
  inv := h
  unmapped _ hl := absurd hl id
  metaFlag _ := rfl
  kept _ _ := rfl
  hddBuf := rfl
  data := rfl
  cur := rfl
  free q := ⟨Or.inr, fun h => h.resolve_left fun ⟨_, hl, _⟩ => hl⟩
  zeroed _ := fun ⟨_, hl, _⟩ => absurd hl id
  otherBufs _ _ := rfl
  invalid _ := fun ⟨_, hl, _⟩ => absurd hl id
  otherSlots _ _ := rfl
  bands b := by rw [Int.natCast_zero, Int.add_zero, Int.sub_zero]

section All

variable {d d' : SmrDev} {T : ℕ → Prop} {cnt : ℕ → ℕ} {x : ℕ}

theorem exists_or_eq {P : ℕ → Prop} : (∃ l, (l = x ∨ T l) ∧ P l) ↔ P x ∨ ∃ l, T l ∧ P l := by
  constructor
  · rintro ⟨l, rfl | hl, hP⟩
    · exact Or.inl hP
    · exact Or.inr ⟨l, hl, hP⟩
  · rintro (hP | ⟨l, hl, hP⟩)
    · exact ⟨x, Or.inl rfl, hP⟩
    · exact ⟨l, Or.inr hl, hP⟩

/-- **One more block.** -/
theorem TrimmedAll.trim (h : TrimmedAll d T cnt d') (hx : ¬ T x) (hlt : x < totalSmrBlocksCnt) :
    TrimmedAll d (fun l => l = x ∨ T l) (fun b => cnt b + if d.InBand x b then 1 else 0)
      (d'.trimBlock x) := by
  have ht := trimmed_trimBlock d' x
  have hinv := (trimBlock_spec h.inv hlt).1
  -- The block is still where it was at first.
  have hentry := h.kept x hx
  have hbuf : ∀ q, d'.InBuf x q ↔ d.InBuf x q := fun q => by rw [InBuf, InBuf, hentry]
  have hslot : ∀ p, d'.InSlot x p ↔ d.InSlot x p := fun p => by rw [InSlot, InSlot, hentry]
  have hband : ∀ b, d'.InBand x b ↔ d.InBand x b := fun b => by rw [InBand, InBand, hentry]
  generalize d'.trimBlock x = d'' at ht hinv
  refine
    { inv := hinv
      unmapped := fun l hl => ?_
      metaFlag := fun l => (ht.metaFlag l).trans (h.metaFlag l)
      kept := fun l hl => ?_
      hddBuf := ht.hddBuf.trans h.hddBuf
      data := ht.data.trans h.data
      cur := ht.cur.trans h.cur
      free := fun q => ?_
      zeroed := fun q hq => ?_
      otherBufs := fun q hq => ?_
      invalid := fun p hp => ?_
      otherSlots := fun p hp => ?_
      bands := fun b => ?_ }
  · by_cases hne : l = x
    · rw [hne]
      exact ht.here
    · rw [Unmapped, ht.others l hne]
      exact h.unmapped l (hl.resolve_left hne)
  · rw [not_or] at hl
    exact (ht.others l hl.1).trans (h.kept l hl.2)
  · rw [ht.free, hbuf, h.free, exists_or_eq, or_assoc]
  · rw [ht.entries, if_congr (hbuf q) rfl rfl]
    by_cases hold : ∃ l, T l ∧ d.InBuf l q
    · rw [h.zeroed q hold]
      exact ite_self _
    · rw [if_pos ((exists_or_eq.mp hq).resolve_right hold), h.otherBufs q hold]
  · rw [exists_or_eq, not_or] at hq
    rw [ht.entries, if_neg fun h => hq.1 ((hbuf q).mp h), h.otherBufs q hq.2]
  · rw [ht.slots, if_congr (hslot p) rfl rfl]
    by_cases hold : ∃ l, T l ∧ d.InSlot l p
    · rw [h.invalid p hold]
      exact ite_self _
    · exact if_pos ((exists_or_eq.mp hp).resolve_right hold)
  · rw [exists_or_eq, not_or] at hp
    rw [ht.slots, if_neg fun h => hp.1 ((hslot p).mp h), h.otherSlots p hp.2]
  · rw [ht.bands, if_congr (hband b) rfl rfl, h.bands]
    dsimp only
    split_ifs
    · refine congrArg₂ (fun i v => BandInfo.mk i _ v) ?_ ?_
      · push_cast
        ring
      · push_cast
        ring
    · rfl

/-- A block that has not been trimmed keeps its contents. -/
theorem TrimmedAll.contents (h : TrimmedAll d T cnt d') {l : ℕ} (hl : ¬ T l) :
    d'.contents l = d.contents l := by
  have he := h.kept l hl
  exact contents_congr (by rw [he]) (fun _ => by rw [he, h.hddBuf]) fun _ => by rw [he, h.data]

end All

/-! ## The bits of a bitmap -/

/-- Block `l` is one of the `n` blocks from `start` on, and its bit is clear. -/
def ClearBit (bmp : Block) (start n l : ℕ) : Prop :=
  start ≤ l ∧ l < start + n ∧ getBit bmp (l - start) = false

/-- How many of the first `n` blocks have a clear bit and are in band `b`. -/
def trimCnt (d : SmrDev) (bmp : Block) (start n b : ℕ) : ℕ :=
  Nat.count (fun k => getBit bmp k = false ∧ d.InBand (start + k) b) n

section Bits

variable {d d' : SmrDev} {bmp : Block} {start n : ℕ}

theorem clearBit_zero : ClearBit bmp start 0 = fun _ => False := by
  funext l
  exact eq_false fun h => by
    have h1 := h.1
    have h2 := h.2.1
    omega

theorem clearBit_of_set (h : getBit bmp n = true) :
    ClearBit bmp start (n + 1) = ClearBit bmp start n := by
  funext l
  refine propext ⟨fun ⟨h1, h2, h3⟩ => ⟨h1, ?_, h3⟩, fun ⟨h1, h2, h3⟩ => ⟨h1, by omega, h3⟩⟩
  by_contra hge
  have hl : l - start = n := by omega
  rw [hl, h] at h3
  cases h3

theorem clearBit_of_clear (h : getBit bmp n = false) :
    ClearBit bmp start (n + 1) = fun l => l = start + n ∨ ClearBit bmp start n l := by
  funext l
  refine propext ⟨?_, ?_⟩
  · rintro ⟨h1, h2, h3⟩
    by_cases hl : l = start + n
    · exact Or.inl hl
    · exact Or.inr ⟨h1, by omega, h3⟩
  · rintro (rfl | ⟨h1, h2, h3⟩)
    · exact ⟨by omega, by omega, by rwa [Nat.add_sub_cancel_left]⟩
    · exact ⟨h1, by omega, h3⟩

theorem not_clearBit_next : ¬ ClearBit bmp start n (start + n) := fun h => Nat.lt_irrefl _ h.2.1

theorem trimCnt_zero : d.trimCnt bmp start 0 = fun _ => 0 := by
  funext b
  exact Nat.count_zero _

theorem trimCnt_of_set (h : getBit bmp n = true) :
    d.trimCnt bmp start (n + 1) = d.trimCnt bmp start n := by
  funext b
  rw [trimCnt, Nat.count_succ, if_neg fun hb => (by rw [h] at hb; cases hb.1), Nat.add_zero, trimCnt]

theorem trimCnt_of_clear (h : getBit bmp n = false) : d.trimCnt bmp start (n + 1) =
    fun b => d.trimCnt bmp start n b + if d.InBand (start + n) b then 1 else 0 := by
  funext b
  rw [trimCnt, Nat.count_succ, trimCnt]
  exact congrArg _ (if_congr ⟨And.right, fun hb => ⟨h, hb⟩⟩ rfl rfl)

/-- **`mark_one_blk_bmp`** trims the blocks whose bits are clear, and counts them. -/
theorem markOneBlkBmp_trims (env : Env) (h : DevInv d) (bmp : Block)
    (hstart : start + 32768 ≤ totalSmrBlocksCnt) :
    ∃ d', Ext2Sys.markOneBlkBmp (smrLayer env) .ext2Detected d bmp start =
        .ok (Nat.count (fun k => getBit bmp k = false) 32768, d') ∧
      TrimmedAll d (ClearBit bmp start 32768) (d.trimCnt bmp start 32768) d' := by
  have hrule : Meets (fun _ => False) _
      (Ext2Sys.markOneBlkBmp (smrLayer env) .ext2Detected d bmp start) :=
    markOneBlkBmp_rule (smrLayer env)
      (I := fun n d' => TrimmedAll d (ClearBit bmp start n) (d.trimCnt bmp start n) d') bmp start
      (by
        rw [clearBit_zero, trimCnt_zero]
        exact .init h)
      (fun n _ hbit d' hd' => by
        rw [clearBit_of_set hbit, trimCnt_of_set hbit]
        exact hd')
      (fun n _ hbit hlt d' hd' => by
        rw [clearBit_of_clear hbit, trimCnt_of_clear hbit]
        exact hd'.trim not_clearBit_next hlt)
      fun n hn _ hout => Nat.not_lt.mpr hout (by omega)
  obtain ⟨r, hok, hcnt, hall⟩ := hrule.exists_ok fun _ _ h => h
  refine ⟨r.2, ?_, hall⟩
  rw [hok, ← hcnt]

end Bits

/-- **A bitmap trims exactly what it says.**  The invariant holds in every state that the module
reaches; the last clause is that the shortcut for a word of ones gives what its bits give. -/
theorem trim_by_bitmap_exact (env : Env) :
    (∀ s, Reached s → DevInv s.dev) ∧
      (∀ s : Ext2Sys SmrDev, DevInv s.dev → s.metaCtr.status = .ext2Detected →
        ∀ (bmp : Block) (start : ℕ), start + 32768 ≤ totalSmrBlocksCnt →
          ∃ d', Ext2Sys.markOneBlkBmp (smrLayer env) s.metaCtr.status s.dev bmp start =
              .ok (Nat.count (fun k => getBit bmp k = false) 32768, d') ∧
            TrimmedAll s.dev (ClearBit bmp start 32768) (s.dev.trimCnt bmp start 32768) d' ∧
            (∀ l, ¬ ClearBit bmp start 32768 l → d'.contents l = s.dev.contents l) ∧
            ∀ b, b ∈ d'.smr.fullyInvalidBands ↔
              b < totalSmrBandsCnt ∧ (d'.smr.phyBands b).invalidCnt = blocksPerBand) ∧
      ∀ (bmp : Block) (st : ℕ × ℕ × SmrDev) (i : ℕ), Ext2Sys.markWord (smrLayer env) bmp st i =
        (List.range 32).foldlM (Ext2Sys.markBit (smrLayer env) (bmp.le32 (4 * i))) st := by
  refine ⟨fun s hs => hs.betweenCalls.inv, fun s h hstatus bmp start hstart => ?_,
    markWord_eq (smrLayer env)⟩
  obtain ⟨d', hok, hall⟩ := markOneBlkBmp_trims env h bmp hstart
  rw [hstatus]
  refine ⟨d', hok, hall, fun l hl => hall.contents hl, fun b => ?_⟩
  rw [hall.inv.stl.queue]
  refine and_congr_right fun hb => ?_
  rw [hall.inv.stl.invalidCnt_eq hb]
  exact Int.ofNat_inj.symm

/-- A bitmap without a set bit, when the blocks of the first group fill the buffer. -/
theorem trim_by_bitmap_exact_full : ∃ d',
    Ext2Sys.markOneBlkBmp (smrLayer ⟨true, false, fun _ => .other 0⟩) .ext2Detected fullDev 0 0 =
        .ok (Nat.count (fun k => getBit 0 k = false) 32768, d') ∧
      TrimmedAll fullDev (ClearBit 0 0 32768) (fullDev.trimCnt 0 0 32768) d' := by
  obtain ⟨d', hok, hall, -⟩ := (trim_by_bitmap_exact ⟨true, false, fun _ => .other 0⟩).2.1
    { freshModule (fun _ => 0) with
      dev := fullDev
      metaCtr := { zeroMetaCtr with status := .ext2Detected } }
    devInv_fullDev rfl 0 0 (by rw [totalSmrBlocksCnt_eq]; decide)
  exact ⟨d', hok, hall⟩

end SmrDev

end MemSmr
