import Mathlib

/-!
# Walks with fuel

A program that follows a relation, such as a loop that goes from record to record or a visit of all
that is below a point, need not come to an end.  Given fuel it does, and the fuel goes down by one
with every step along the relation.  No particular program is mentioned.

* `Stable`: more fuel does not change a result.
* `Acyclic`: nothing that is reached is below itself.
* `Acyclic.induction`: among finitely many points, what is below a point may then be assumed.
* `Fueled`: a program with fuel follows every child.  It comes to an end only from an acyclic point
  (`Fueled.acyclic`).
-/

namespace Walk

open Relation

/-! ## Fuel -/

/-- More fuel does not change a result. -/
def Stable {ε β : Type*} (f : ℕ → Except ε β) : Prop :=
  ∀ n m, n ≤ m → ∀ b, f n = .ok b → f m = .ok b

theorem stable_of_succ {ε β : Type*} {f : ℕ → Except ε β}
    (h : ∀ n b, f n = .ok b → f (n + 1) = .ok b) : Stable f := by
  intro n m hnm b hn
  induction hnm with
  | refl => exact hn
  | step _ ih => exact h _ b ih

/-! ## Points below themselves -/

variable {α : Type*} {child : α → α → Prop}

/-- Nothing that is reached from `a` is below itself. -/
def Acyclic (child : α → α → Prop) (a : α) : Prop :=
  ∀ b, ReflTransGen child a b → ¬ TransGen child b b

/-- **The induction rule.**  What is to be shown of a point may be assumed of its children. -/
theorem Acyclic.induction [Finite α] {a : α} (h : Acyclic child a) {P : α → Prop}
    (step : ∀ b, ReflTransGen child a b → (∀ c, child b c → P c) → P b) : P a := by
  let below : {b // ReflTransGen child a b} → {b // ReflTransGen child a b} → Prop :=
    fun x y => TransGen child y.1 x.1
  have htrans : IsTrans _ below := ⟨fun _ _ _ hxy hyz => hyz.trans hxy⟩
  have hirrefl : Std.Irrefl below := ⟨fun x hx => h x.1 x.2 hx⟩
  have hwf : WellFounded below := Finite.wellFounded_of_trans_of_irrefl below
  refine hwf.induction (C := fun x => P x.1) ⟨a, .refl⟩ ?_
  rintro ⟨b, hb⟩ ih
  exact step b hb fun c hc => ih ⟨c, hb.tail hc⟩ (.single hc)

/-! ## Programs -/

/-- `runs n a`: with fuel `n` the program comes to its end from `a`.  It does so only if it comes to
its end from the children of `a`, with less fuel. -/
structure Fueled (child : α → α → Prop) (runs : ℕ → α → Prop) : Prop where
  zero : ∀ a, ¬ runs 0 a
  child : ∀ {n a b}, runs (n + 1) a → child a b → runs n b

namespace Fueled

variable {runs : ℕ → α → Prop} {n : ℕ} {a b : α}

theorem below (h : Fueled child runs) (hn : runs n a) (hab : TransGen child a b) :
    ∃ m < n, runs m b := by
  have hone : ∀ {n a b}, runs n a → child a b → ∃ m < n, runs m b := by
    intro n a b hn hab
    cases n with
    | zero => exact absurd hn (h.zero a)
    | succ n => exact ⟨n, Nat.lt_succ_self n, h.child hn hab⟩
  induction hab with
  | single hab => exact hone hn hab
  | tail _ hbc ih =>
    obtain ⟨m, hm, hb⟩ := ih
    obtain ⟨k, hk, hc⟩ := hone hb hbc
    exact ⟨k, hk.trans hm, hc⟩

theorem reached (h : Fueled child runs) (hn : runs n a) (hab : ReflTransGen child a b) :
    ∃ m ≤ n, runs m b := by
  rcases reflTransGen_iff_eq_or_transGen.mp hab with rfl | hab
  · exact ⟨n, le_rfl, hn⟩
  · obtain ⟨m, hm, hb⟩ := h.below hn hab
    exact ⟨m, hm.le, hb⟩

/-- **A program comes to an end only from an acyclic point.** -/
theorem acyclic (h : Fueled child runs) (hn : runs n a) : Acyclic child a := by
  intro b hab hbb
  obtain ⟨m, -, hm⟩ := h.reached hn hab
  clear hn
  induction m using Nat.strong_induction_on with
  | h m ih =>
    obtain ⟨k, hk, hb⟩ := h.below hm hbb
    exact ih k hk hb

end Fueled

end Walk
