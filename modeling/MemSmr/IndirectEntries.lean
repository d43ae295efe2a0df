import MemSmr.FileBlocks

/-!
# How the entries of an indirect block are read

On disk an indirect block is an array of `__u32`.  The source reads its entries through a `block_t *`,
and `block_t` is `__u64`.

* `blockTEntry`, `u32Entry`: an entry as the source reads it, and as it is on disk.
* `SameEntry`: when the two agree.
* `handedDown`, `PicksEntries`: the block numbers that a function hands to its callee, and when they
are the entries on disk.
* `indirect_entries_iff`: when the functions for indirect blocks pick the entries on disk.
-/

namespace MemSmr

namespace Ext2File

open Outcome

/-! ## Entries -/

/-- `*ptr`, where `ptr` is a `block_t *` that points at entry `index` of a buffer. -/
def blockTEntry (buf : Block) (index : ℕ) : Except ReadFault ℕ :=
  if 8 * index + 8 ≤ ext2BlockSize then
    .ok (buf.le32 (8 * index) + 2 ^ 32 * buf.le32 (8 * index + 4))
  else .error (.pastBuffer index)

/-- Entry `index` of an indirect block, as it is on disk. -/
def u32Entry (buf : Block) (index : ℕ) : ℕ := buf.le32 (4 * index)

/-- The entry that the source reads is the one on disk: it is in the buffer, the entry with twice the
index is the same, and the one after that is zero. -/
def SameEntry (buf : Block) (index : ℕ) : Prop :=
  index < 512 ∧ u32Entry buf (2 * index) = u32Entry buf index ∧ u32Entry buf (2 * index + 1) = 0

theorem blockTEntry_iff (buf : Block) (index : ℕ) :
    blockTEntry buf index = .ok (u32Entry buf index) ↔ SameEntry buf index := by
  have hlow : 4 * (2 * index) = 8 * index := by ring
  have hhigh : 4 * (2 * index + 1) = 8 * index + 4 := by ring
  have h := buf.le32_lt (4 * index)
  have hin : 8 * index + 8 ≤ ext2BlockSize ↔ index < 512 := by
    change 8 * index + 8 ≤ 4096 ↔ index < 512
    omega
  rw [blockTEntry, SameEntry, u32Entry, u32Entry, u32Entry, hlow, hhigh, if_congr hin rfl rfl]
  split_ifs with hlt
  · rw [Except.ok.injEq]
    constructor
    · intro heq
      omega
    · rintro ⟨-, h1, h2⟩
      omega
  · exact iff_of_false (fun h => by cases h) fun h => hlt h.1

/-! ## The functions with any entries -/

section Entries

variable (entry : Block → ℕ → Except ReadFault ℕ) (disk : ℕ → Block)

/-- A read entry becomes one read of the list. -/
theorem entry_map_ok {α : Type} {x : Except ReadFault ℕ} {v : ℕ} {c : ℕ → α}
    (hc : Function.Injective c) : (do
      let no ← x
      return c no) = Except.ok (c v) ↔ x = .ok v := by
  constructor
  · intro h
    obtain ⟨no, hx, hno⟩ := bind_eq_ok.mp h
    rw [hx, hc (Except.ok.inj hno)]
  · rintro rfl
    rfl

/-- A callee that only notes which block it is given. -/
def noteCallee (_fdata blkNo _lo n : ℕ) : ReadResult := .ok (n, [.indirect blkNo])

variable {size : ℕ}

/-- The block numbers that `read_indirect2_blocks` and `read_indirect3_blocks` hand to the function
that they call: the same function, with a callee that notes them. -/
def handedDown (hsize : 0 < size) (fdata b lo n : ℕ) : ReadResult :=
  readIndirectBlocks entry disk noteCallee hsize fdata b lo n

/-- How many entries the pointer comes to. -/
def stepCnt (size lo n : ℕ) : ℕ := 1 + (lo % size + n - 1) / size

/-- The bytes of the first piece, when it is not the only one, are a number that an `int` can hold. -/
def FirstPieceFits (size lo n : ℕ) : Prop :=
  n ≤ size - lo % size ∨ (size - lo % size) * ext2BlockSize < 2 ^ 31

theorem indirect_injective : Function.Injective FileRead.indirect := fun _ _ h => by cases h; rfl

theorem cons_indirect_ok {α : Type} {x : Except ReadFault ℕ} {y : Except ReadFault (List FileRead)}
    {v : ℕ} {l : List FileRead} {c : List FileRead → α} (hc : Function.Injective c) : (do
      let no ← x
      let rest ← y
      return c (.indirect no :: rest)) = Except.ok (c (.indirect v :: l)) ↔
        x = .ok v ∧ y = .ok l := by
  constructor
  · intro h
    obtain ⟨no, hx, hrest⟩ := bind_eq_ok.mp h
    obtain ⟨rest, hy, hcons⟩ := bind_eq_ok.mp hrest
    obtain ⟨hno, rfl⟩ := List.cons.inj (hc (Except.ok.inj hcons))
    exact ⟨by rw [hx, indirect_injective hno], hy⟩
  · rintro ⟨rfl, rfl⟩
    rfl

/-- The entries that the loop comes to. -/
theorem readPieces_note_iff (hsize : 0 < size) (buf : Block) (n : ℕ) : ∀ fdata index (g : ℕ → ℕ),
    readPieces entry noteCallee hsize buf fdata index n =
        .ok ((List.range ((n + size - 1) / size)).map fun j => .indirect (g j)) ↔
      ∀ j < (n + size - 1) / size, entry buf (index + j) = .ok (g j) := by
  induction n using Nat.strong_induction_on with
  | _ n ih =>
    intro fdata index g
    rw [readPieces]
    rcases Nat.eq_zero_or_pos n with rfl | hpos
    · have hnone : (0 + size - 1) / size = 0 := Nat.div_eq_of_lt (by omega)
      rw [if_pos rfl, hnone]
      exact iff_of_true rfl fun j hj => absurd hj (Nat.not_lt_zero j)
    · rw [if_neg (Nat.ne_of_gt hpos)]
      by_cases hle : n ≤ size
      · have hone : (n + size - 1) / size = 1 :=
          Nat.div_eq_of_lt_le (by omega) (by omega)
        rw [if_pos hle, hone, Nat.forall_lt_succ_left]
        refine (entry_map_ok (c := fun no => [FileRead.indirect no]) fun _ _ h =>
          indirect_injective (List.cons.inj h).1).trans ?_
        exact ⟨fun h => ⟨h, fun j hj => absurd hj (Nat.not_lt_zero j)⟩, And.left⟩
      · have hnext : (n + size - 1) / size = (n - size + size - 1) / size + 1 := by
          rw [← Nat.add_div_right _ hsize]
          exact congrArg (· / size) (by omega)
        rw [if_neg hle, hnext, List.range_succ_eq_map, List.map_cons, List.map_map,
          Nat.forall_lt_succ_left]
        refine (cons_indirect_ok (c := id) fun _ _ h => h).trans (and_congr_right fun _ => ?_)
        refine (ih (n - size) (by omega) _ (index + 1) fun j => g (j + 1)).trans ?_
        simp only [Nat.add_assoc, Nat.add_comm 1]

/-- **The pointer steps** of `read_indirect2_blocks` and of `read_indirect3_blocks`.  Only the first
piece, from the middle of an entry on, has its bytes counted in an `int`. -/
theorem handedDown_iff (hsize : 0 < size) (fdata b lo n : ℕ) (g : ℕ → ℕ) :
    handedDown entry disk hsize fdata b lo n =
        .ok (n, .indirect b :: (List.range (stepCnt size lo n)).map fun j => .indirect (g j)) ↔
      FirstPieceFits size lo n ∧
        ∀ j < stepCnt size lo n, entry (disk b) (lo / size + j) = .ok (g j) := by
  have hmod : lo % size < size := Nat.mod_lt lo hsize
  have hret : Function.Injective fun l : List FileRead => (n, FileRead.indirect b :: l) :=
    fun _ _ h => (List.cons.inj (Prod.mk.inj h).2).2
  rw [handedDown, readIndirectBlocks, stepCnt, FirstPieceFits]
  by_cases hle : n ≤ size - lo % size
  · have hone : (lo % size + n - 1) / size = 0 := Nat.div_eq_of_lt (by omega)
    rw [if_pos hle, hone, Nat.forall_lt_succ_left, and_iff_right (Or.inl hle)]
    refine (entry_map_ok (c := fun no => (n, [FileRead.indirect b, FileRead.indirect no]))
      fun _ _ h => indirect_injective (List.cons.inj (hret h)).1).trans ?_
    exact ⟨fun h => ⟨h, fun j hj => absurd hj (Nat.not_lt_zero j)⟩, And.left⟩
  · have hnext : 1 + (lo % size + n - 1) / size =
        (n - (size - lo % size) + size - 1) / size + 1 := by
      rw [Nat.add_comm]
      exact congrArg (· / size + 1) (by omega)
    rw [if_neg hle, or_iff_right hle]
    by_cases hcount : (size - lo % size) * ext2BlockSize < 2 ^ 31
    · rw [blocks2Bytes_ok hcount, hnext, List.range_succ_eq_map, List.map_cons, List.map_map,
        Nat.forall_lt_succ_left, and_iff_right hcount]
      refine (cons_indirect_ok hret).trans (and_congr_right fun _ => ?_)
      refine (readPieces_note_iff entry hsize (disk b) _ _ (lo / size + 1)
        fun j => g (j + 1)).trans ?_
      simp only [Nat.add_assoc, Nat.add_comm 1]
    · refine iff_of_false (fun h => ?_) fun h => hcount h.1
      obtain ⟨no, -, h⟩ := bind_eq_ok.mp h
      obtain ⟨r, -, h⟩ := bind_eq_ok.mp h
      obtain ⟨bytes, h, -⟩ := bind_eq_ok.mp h
      rw [blocks2Bytes, if_neg hcount] at h
      cases h

end Entries

/-! ## The entries on disk -/

/-- The pointer of `read_indirect2_blocks` or of `read_indirect3_blocks` picks, step by step, the entries
on disk from number `lo / size` on. -/
def PicksEntries (disk : ℕ → Block) {size : ℕ} (hsize : 0 < size) (fdata b lo n : ℕ) : Prop :=
  handedDown blockTEntry disk hsize fdata b lo n =
    .ok (n, .indirect b :: (List.range (stepCnt size lo n)).map fun j =>
      .indirect (u32Entry (disk b) (lo / size + j)))

theorem picksEntries_iff (disk : ℕ → Block) {size : ℕ} (hsize : 0 < size) (fdata b lo n : ℕ) :
    PicksEntries disk hsize fdata b lo n ↔ FirstPieceFits size lo n ∧
      ∀ j < stepCnt size lo n, SameEntry (disk b) (lo / size + j) :=
  (handedDown_iff blockTEntry disk hsize fdata b lo n _).trans <|
    and_congr_right fun _ => forall₂_congr fun _ _ => blockTEntry_iff _ _

theorem firstPieceFits_indirectBlks (lo n : ℕ) : FirstPieceFits indirectBlks lo n :=
  Or.inr (bytes_lt (Nat.sub_le indirectBlks _) (by decide))

/-- **When the entries are those on disk.**  `read_indirect1_blocks` reads the blocks that the
`__u32` entries of the range name just when each of these entries is read as it is, and so do the pointer
steps one and two levels up. -/
theorem indirect_entries_iff (disk : ℕ → Block) (fdata b lo n : ℕ) :
    (Reads (readIndirect1Blocks blockTEntry disk fdata b lo n) n
        (dataList fdata (fun k => u32Entry (disk b) (lo + k)) n) ↔
      ∀ k < n, SameEntry (disk b) (lo + k)) ∧
    (PicksEntries disk indirectBlks_pos fdata b lo n ↔
      ∀ j < stepCnt indirectBlks lo n, SameEntry (disk b) (lo / indirectBlks + j)) ∧
    (PicksEntries disk doubleIndBlks_pos fdata b lo n ↔ FirstPieceFits doubleIndBlks lo n ∧
      ∀ j < stepCnt doubleIndBlks lo n, SameEntry (disk b) (lo / doubleIndBlks + j)) := by
  refine ⟨?_, ?_, picksEntries_iff disk doubleIndBlks_pos fdata b lo n⟩
  · refine (readIndirect1Blocks_iff blockTEntry disk fdata b lo n _).trans ?_
    exact forall₂_congr fun k _ => blockTEntry_iff (disk b) (lo + k)
  · refine (picksEntries_iff disk indirectBlks_pos fdata b lo n).trans ?_
    exact and_iff_right (firstPieceFits_indirectBlks lo n)

/-- An indirect block with the entries 5 and 7. -/
def fiveSeven : Block := fun i => if i.val = 0 then 5 else if i.val = 4 then 7 else 0

theorem not_sameEntry_fiveSeven : ¬ SameEntry fiveSeven 0 := fun h => by
  have h7 : u32Entry fiveSeven 1 = 7 := by decide
  rw [h.2.2] at h7
  cases h7

/-- **Two entries are read as one.**  Entry 0 is read as block 5 + 7 · 2³², where data is read and
one and two levels up, and entry 512 is looked for behind the buffer. -/
theorem two_entries_as_one :
    0 + 1 ≤ indirectBlks ∧ 512 + 1 ≤ indirectBlks ∧
      u32Entry fiveSeven 0 = 5 ∧
      readIndirect1Blocks blockTEntry (fun _ => fiveSeven) 0 100 0 1 =
        .ok (1, [.indirect 100, .data 0 (5 + 7 * 2 ^ 32)]) ∧
      ¬ Reads (readIndirect1Blocks blockTEntry (fun _ => fiveSeven) 0 100 0 1) 1
        (dataList 0 (fun k => u32Entry fiveSeven (0 + k)) 1) ∧
      readIndirect1Blocks blockTEntry (fun _ => fiveSeven) 0 100 512 1 = .error (.pastBuffer 512) ∧
      ¬ PicksEntries (fun _ => fiveSeven) indirectBlks_pos 0 100 0 1 ∧
      ¬ PicksEntries (fun _ => fiveSeven) doubleIndBlks_pos 0 100 0 1 := by
  refine ⟨by decide, by decide, by decide, by rfl, fun h => ?_, by rfl, fun h => ?_, fun h => ?_⟩
  · have hentry := (readIndirect1Blocks_iff blockTEntry _ 0 100 0 1 _).mp h 0 (by decide)
    exact not_sameEntry_fiveSeven ((blockTEntry_iff _ _).mp hentry)
  · exact not_sameEntry_fiveSeven (((picksEntries_iff _ _ _ _ _ _).mp h).2 0 (by decide))
  · exact not_sameEntry_fiveSeven (((picksEntries_iff _ _ _ _ _ _).mp h).2 0 (by decide))

end Ext2File

end MemSmr
