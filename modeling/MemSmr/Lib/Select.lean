import Mathlib

/-!
# Selecting the least keys from a stream

The members of a stream have keys `a 0, a 1, …`.  A selection holds `k` of them; when the next member
comes, it may take the place of one whose key is the largest.  The right test for that is whether the
key of the newcomer is smaller than the largest key held.  Here the test uses another key `w`, with
`w q ≤ a q`, and may therefore admit too many.

* `Least`: the selection holds `k` of the least members so far.
* `Spoilt`: all but one of them, and in the place of a largest one a member that is too large.
* `Least.step`, `Spoilt.step`: what the next member does to each of them.
* `Mistaken`, `Mended`: the two events that decide, in terms of the keys alone.
* `selection_least_iff`: the selection is right at the end just when every mistake has been mended.
-/

namespace Select

variable {α : Type*} [LinearOrder α] {a w : ℕ → α} {q k m : ℕ} {C C' : Finset ℕ}

/-- `m` is a member with the largest key. -/
def IsLargest (a : ℕ → α) (C : Finset ℕ) (m : ℕ) : Prop := m ∈ C ∧ ∀ c ∈ C, a c ≤ a m

/-- The selection holds `k` members of the first `q`, and no member left out is smaller. -/
structure Least (a : ℕ → α) (q k : ℕ) (C : Finset ℕ) : Prop where
  sub : C ⊆ Finset.range q
  card : C.card = k
  le : ∀ c ∈ C, ∀ x < q, x ∉ C → a c ≤ a x

/-- One member has been lost to a larger one. -/
def Spoilt (a : ℕ → α) (q k : ℕ) (C : Finset ℕ) : Prop :=
  ∃ R m e, Least a q k R ∧ IsLargest a R m ∧ e ∉ R ∧ e < q ∧ a m < a e ∧ C = insert e (R.erase m)

/-- The next member takes the place of a largest one if its `w` is smaller than the largest key. -/
def Step (a w : ℕ → α) (q : ℕ) (C C' : Finset ℕ) : Prop :=
  ∃ m, IsLargest a C m ∧ C' = if w q < a m then insert q (C.erase m) else C

theorem Spoilt.not_least (h : Spoilt a q k C) : ¬ Least a q k C := by
  obtain ⟨R, m, e, hR, hm, he, -, hlt, rfl⟩ := h
  intro hC
  have hmR := Finset.mem_range.mp (hR.sub hm.1)
  have hout : m ∉ insert e (R.erase m) := by
    rw [Finset.mem_insert, Finset.mem_erase]
    rintro (rfl | h)
    · exact he hm.1
    · exact h.1 rfl
  exact absurd (hC.le e (Finset.mem_insert_self _ _) m hmR hout) (not_le.mpr hlt)

/-! ## The largest key held, by counting -/

theorem card_filter_le {R : Finset ℕ} (hm : m ∈ R) {p : ℕ → Prop} [DecidablePred p]
    (hsub : ∀ x < q, p x → x ∈ R ∧ x ≠ m) : Nat.count p q < R.card := by
  rw [Nat.count_eq_card_filter_range]
  refine Finset.card_lt_card ⟨fun x hx => ?_, fun hle => ?_⟩
  · obtain ⟨hx, hp⟩ := Finset.mem_filter.mp hx
    exact (hsub x (Finset.mem_range.mp hx) hp).1
  · obtain ⟨hx, hp⟩ := Finset.mem_filter.mp (hle hm)
    exact (hsub m (Finset.mem_range.mp hx) hp).2 rfl

theorem card_le_count {R : Finset ℕ} (hR : R ⊆ Finset.range q) {p : ℕ → Prop} [DecidablePred p]
    (hp : ∀ x ∈ R, p x) : R.card ≤ Nat.count p q := by
  rw [Nat.count_eq_card_filter_range]
  exact Finset.card_le_card fun x hx => Finset.mem_filter.mpr ⟨hR hx, hp x hx⟩

/-- A value is below the largest key of the least members just when few members are not above it. -/
theorem Least.lt_largest_iff (h : Least a q k C) (hm : IsLargest a C m) (v : α) :
    v < a m ↔ Nat.count (fun x => a x ≤ v) q < k := by
  constructor
  · intro hv
    rw [← h.card]
    refine card_filter_le hm.1 fun x hx hxv => ⟨?_, ?_⟩
    · by_contra hout
      exact absurd ((h.le m hm.1 x hx hout).trans hxv) (not_le.mpr hv)
    · rintro rfl
      exact absurd hxv (not_le.mpr hv)
  · intro hcount
    by_contra hv
    have hle := card_le_count (p := fun x => a x ≤ v) h.sub fun x hx =>
      (hm.2 x hx).trans (not_lt.mp hv)
    rw [h.card] at hle
    omega

/-- A value is above it just when many members are below it. -/
theorem Least.largest_lt_iff (h : Least a q k C) (hm : IsLargest a C m) (v : α) :
    a m < v ↔ k ≤ Nat.count (fun x => a x < v) q := by
  constructor
  · intro hv
    rw [← h.card]
    exact card_le_count h.sub fun x hx => (hm.2 x hx).trans_lt hv
  · intro hcount
    by_contra hv
    have hlt := card_filter_le (q := q) hm.1 (p := fun x => a x < v) fun x hx hxv => by
      have hxm : a x < a m := hxv.trans_le (not_lt.mp hv)
      refine ⟨?_, fun heq => absurd hxm (by rw [heq]; exact lt_irrefl _)⟩
      by_contra hout
      exact absurd (h.le m hm.1 x hx hout) (not_le.mpr hxm)
    rw [h.card] at hlt
    omega

/-! ## One step -/

/-- The newcomer is too large, and the test admits it. -/
def Mistaken (a w : ℕ → α) (k q : ℕ) : Prop :=
  Nat.count (fun x => a x ≤ w q) q < k ∧ k ≤ Nat.count (fun x => a x < a q) q

/-- The newcomer is one of the least members so far. -/
def Mended (a : ℕ → α) (k q : ℕ) : Prop := Nat.count (fun x => a x < a q) q < k

/-- A newcomer that is not larger takes the place of a largest member. -/
theorem Least.replace (h : Least a q k C) (hm : IsLargest a C m) (hq : a q ≤ a m) :
    Least a (q + 1) k (insert q (C.erase m)) := by
  have hnot : q ∉ C := fun hmem => absurd (Finset.mem_range.mp (h.sub hmem)) (lt_irrefl q)
  have hmq := Finset.mem_range.mp (h.sub hm.1)
  refine ⟨fun x hx => ?_, ?_, fun c hc x hx hout => ?_⟩
  · rw [Finset.mem_range]
    rcases Finset.mem_insert.mp hx with rfl | hx
    · exact Nat.lt_succ_self x
    · have := Finset.mem_range.mp (h.sub (Finset.mem_of_mem_erase hx))
      omega
  · rw [Finset.card_insert_of_notMem fun hmem => hnot (Finset.mem_of_mem_erase hmem),
      Finset.card_erase_of_mem hm.1, h.card]
    have := Finset.card_pos.mpr ⟨m, hm.1⟩
    rw [h.card] at this
    omega
  · -- What is left out was left out before, or is the member replaced.
    have hcm : a c ≤ a m := by
      rcases Finset.mem_insert.mp hc with rfl | hc
      · exact hq
      · exact hm.2 c (Finset.mem_of_mem_erase hc)
    rw [Finset.mem_insert, Finset.mem_erase] at hout
    by_cases hxm : x = m
    · rw [hxm]
      exact hcm
    · have hxC : x ∉ C := fun hx => hout (Or.inr ⟨hxm, hx⟩)
      have hxq : x < q := lt_of_le_of_ne (Nat.lt_succ_iff.mp hx) fun hxq => hout (Or.inl hxq)
      exact hcm.trans (h.le m hm.1 x hxq hxC)

/-- A newcomer that is not smaller stays out. -/
theorem Least.skip (h : Least a q k C) (hm : IsLargest a C m) (hq : a m ≤ a q) :
    Least a (q + 1) k C := by
  refine ⟨fun x hx => ?_, h.card, fun c hc x hx hout => ?_⟩
  · have := Finset.mem_range.mp (h.sub hx)
    rw [Finset.mem_range]
    omega
  · by_cases hxq : x = q
    · rw [hxq]
      exact (hm.2 c hc).trans hq
    · exact h.le c hc x (by omega) hout

theorem Least.step (h : Least a q k C) (hw : w q ≤ a q) (hstep : Step a w q C C') :
    Mistaken a w k q ∧ Spoilt a (q + 1) k C' ∨ ¬ Mistaken a w k q ∧ Least a (q + 1) k C' := by
  obtain ⟨m, hm, rfl⟩ := hstep
  have hmistaken : Mistaken a w k q ↔ w q < a m ∧ a m < a q := by
    rw [Mistaken, h.lt_largest_iff hm, h.largest_lt_iff hm]
  have hnot : q ∉ C := fun hmem => absurd (Finset.mem_range.mp (h.sub hmem)) (lt_irrefl q)
  by_cases hlarger : w q < a m
  · rw [if_pos hlarger]
    rcases lt_or_ge (a m) (a q) with hlarge | hsmall
    · exact Or.inl ⟨hmistaken.mpr ⟨hlarger, hlarge⟩, C, m, q, h.skip hm hlarge.le, hm, hnot,
        Nat.lt_succ_self q, hlarge, rfl⟩
    · exact Or.inr ⟨fun hmis => absurd (hmistaken.mp hmis).2 (not_lt.mpr hsmall),
        h.replace hm hsmall⟩
  · rw [if_neg hlarger]
    exact Or.inr ⟨fun hmis => hlarger (hmistaken.mp hmis).1,
      h.skip hm ((not_lt.mp hlarger).trans hw)⟩

theorem Spoilt.step (h : Spoilt a q k C) (hw : w q ≤ a q) (hstep : Step a w q C C') :
    Mended a k q ∧ Least a (q + 1) k C' ∨ ¬ Mended a k q ∧ Spoilt a (q + 1) k C' := by
  obtain ⟨R, m, e, hR, hm, he, heq, hlt, rfl⟩ := h
  obtain ⟨m', hm', rfl⟩ := hstep
  -- The intruder is the only largest member.
  have hm'e : m' = e := by
    rcases Finset.mem_insert.mp hm'.1 with h | h
    · exact h
    · have h1 := hm'.2 e (Finset.mem_insert_self e _)
      have h2 := hm.2 m' (Finset.mem_of_mem_erase h)
      exact absurd (h1.trans h2) (not_le.mpr hlt)
  have hmended : Mended a k q ↔ a q ≤ a m := by
    rw [Mended, ← not_lt, hR.largest_lt_iff hm, not_le]
  have hnot : q ∉ R := fun hmem => absurd (Finset.mem_range.mp (hR.sub hmem)) (lt_irrefl q)
  have herase : (insert e (R.erase m)).erase e = R.erase m :=
    Finset.erase_insert fun hmem => he (Finset.mem_of_mem_erase hmem)
  rw [hm'e, herase]
  rcases le_or_gt (a q) (a m) with hsmall | hlarge
  · rw [if_pos (hw.trans_lt (hsmall.trans_lt hlt))]
    exact Or.inl ⟨hmended.mpr hsmall, hR.replace hm hsmall⟩
  · refine Or.inr ⟨fun hmend => absurd (hmended.mp hmend) (not_le.mpr hlarge), ?_⟩
    split_ifs
    · exact ⟨R, m, q, hR.skip hm hlarge.le, hm, hnot, Nat.lt_succ_self q, hlarge, rfl⟩
    · exact ⟨R, m, e, hR.skip hm hlarge.le, hm, he, by omega, hlt, rfl⟩

/-! ## The whole stream -/

/-- Every mistake is mended by a later member. -/
def AllMended (a w : ℕ → α) (k q n : ℕ) : Prop :=
  ∀ i, q ≤ i → i < n → Mistaken a w k i → ∃ j, i < j ∧ j < n ∧ Mended a k j

theorem allMended_succ {n : ℕ} (hqn : q ≤ n) (hno : ¬ Mended a k n) :
    AllMended a w k q (n + 1) ↔ AllMended a w k q n ∧ ¬ Mistaken a w k n := by
  have hlt : ∀ {j}, j < n + 1 → Mended a k j → j < n := fun {j} hj hmend =>
    lt_of_le_of_ne (Nat.lt_succ_iff.mp hj) fun heq => hno (heq ▸ hmend)
  constructor
  · intro h
    refine ⟨fun i hqi hin hmis => ?_, fun hmis => ?_⟩
    · obtain ⟨j, hij, hj, hmend⟩ := h i hqi (by omega) hmis
      exact ⟨j, hij, hlt hj hmend, hmend⟩
    · obtain ⟨j, hij, hj, -⟩ := h n hqn (Nat.lt_succ_self n) hmis
      omega
  · rintro ⟨h, hmis⟩ i hqi hin hi
    have hin' : i < n := lt_of_le_of_ne (Nat.lt_succ_iff.mp hin) fun heq => hmis (heq ▸ hi)
    obtain ⟨j, hij, hj, hmend⟩ := h i hqi hin' hi
    exact ⟨j, hij, by omega, hmend⟩

theorem allMended_of_mended {n : ℕ} (hmend : Mended a k n) : AllMended a w k q (n + 1) := by
  intro i _ hin hmis
  have hne : i ≠ n := by
    rintro rfl
    exact absurd hmis.2 (not_le.mpr hmend)
  exact ⟨n, by omega, Nat.lt_succ_self n, hmend⟩

/-- **The selection is right at the end just when every mistake has been mended.** -/
theorem selection_least_iff {n : ℕ} {S : ℕ → Finset ℕ} (hqn : q ≤ n) (hstart : Least a q k (S q))
    (hw : ∀ i, q ≤ i → i < n → w i ≤ a i)
    (hstep : ∀ i, q ≤ i → i < n → Step a w i (S i) (S (i + 1))) :
    Least a n k (S n) ↔ AllMended a w k q n := by
  suffices h : Least a n k (S n) ∧ AllMended a w k q n ∨
      Spoilt a n k (S n) ∧ ¬ AllMended a w k q n by
    rcases h with ⟨h1, h2⟩ | ⟨h1, h2⟩
    · exact iff_of_true h1 h2
    · exact iff_of_false h1.not_least h2
  induction n, hqn using Nat.le_induction with
  | base => exact Or.inl ⟨hstart, fun i hqi hin => absurd hin (by omega)⟩
  | succ n hqn ih =>
    have hn := hstep n hqn (Nat.lt_succ_self n)
    have hwn := hw n hqn (Nat.lt_succ_self n)
    rcases ih (fun i h1 h2 => hw i h1 (by omega)) fun i h1 h2 => hstep i h1 (by omega) with
      ⟨hl, hall⟩ | ⟨hsp, hall⟩
    · rcases hl.step hwn hn with ⟨hmis, hsp⟩ | ⟨hmis, hl⟩
      · have hno : ¬ Mended a k n := not_lt.mpr hmis.2
        exact Or.inr ⟨hsp, fun h => ((allMended_succ hqn hno).mp h).2 hmis⟩
      · refine Or.inl ⟨hl, ?_⟩
        by_cases hmend : Mended a k n
        · exact allMended_of_mended hmend
        · exact (allMended_succ hqn hmend).mpr ⟨hall, hmis⟩
    · rcases hsp.step hwn hn with ⟨hmend, hl⟩ | ⟨hmend, hsp⟩
      · exact Or.inl ⟨hl, allMended_of_mended hmend⟩
      · exact Or.inr ⟨hsp, fun h => hall ((allMended_succ hqn hmend).mp h).1⟩

end Select
