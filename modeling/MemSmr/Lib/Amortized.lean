import Mathlib

/-!
# The potential method

A run is a list of steps; each step has a state in which it begins and a state in which it ends.  What
happens between two steps costs nothing and may not raise the potential.  Nothing here is about a
particular program.

* `Leads`: the steps lead from one state to another, with moves of the kind `gap` between them.
* `Leads.before`, `Leads.append`: how runs compose.
* `Leads.sum_le`: if every step satisfies `cost + Φ after ≤ credit + Φ before`, then so does the run.
* `Leads.sum_eq`: the same with equalities, when the moves leave the potential alone.
* `Leads.count`: an invariant with a counter, which the moves keep and each step advances by its cost.
-/

namespace Amortized

variable {α σ : Type*} {gap : α → α → Prop} {src dst : σ → α}

/-- The steps lead from `a` to `b`. -/
def Leads (gap : α → α → Prop) (src dst : σ → α) : α → List σ → α → Prop
  | a, [], b => gap a b
  | a, s :: steps, b => gap a (src s) ∧ Leads gap src dst (dst s) steps b

@[simp] theorem leads_nil {a b : α} : Leads gap src dst a [] b ↔ gap a b := Iff.rfl

@[simp] theorem leads_cons {a b : α} {s : σ} {steps : List σ} :
    Leads gap src dst a (s :: steps) b ↔
      gap a (src s) ∧ Leads gap src dst (dst s) steps b := Iff.rfl

/-- A move before the first step. -/
theorem Leads.before (htrans : ∀ a b c, gap a b → gap b c → gap a c) {a b c : α} {steps : List σ}
    (hab : gap a b) (h : Leads gap src dst b steps c) : Leads gap src dst a steps c := by
  cases steps with
  | nil => exact htrans a b c hab h
  | cons s steps => exact ⟨htrans a b (src s) hab h.1, h.2⟩

/-- One run after another. -/
theorem Leads.append (htrans : ∀ a b c, gap a b → gap b c → gap a c) {a b c : α}
    {steps steps' : List σ} (h : Leads gap src dst a steps b) (h' : Leads gap src dst b steps' c) :
    Leads gap src dst a (steps ++ steps') c := by
  induction steps generalizing a with
  | nil => exact h'.before htrans h
  | cons s steps ih => exact ⟨h.1, ih h.2⟩

/-- **The run bound.** -/
theorem Leads.sum_le (Φ : α → ℕ) (cost credit : σ → ℕ) (hgap : ∀ a b, gap a b → Φ b ≤ Φ a)
    {a b : α} {steps : List σ} (h : Leads gap src dst a steps b)
    (hstep : ∀ s ∈ steps, cost s + Φ (dst s) ≤ credit s + Φ (src s)) :
    (steps.map cost).sum + Φ b ≤ (steps.map credit).sum + Φ a := by
  induction steps generalizing a with
  | nil =>
    have hab := hgap a b h
    simp only [List.map_nil, List.sum_nil]
    omega
  | cons s steps ih =>
    obtain ⟨hs, hrest⟩ := List.forall_mem_cons.mp hstep
    have hlast := ih h.2 hrest
    have hfirst := hgap a (src s) h.1
    simp only [List.map_cons, List.sum_cons]
    omega

/-- **The balance of a run.** -/
theorem Leads.sum_eq (Φ : α → ℕ) (cost credit : σ → ℕ) (hgap : ∀ a b, gap a b → Φ b = Φ a)
    {a b : α} {steps : List σ} (h : Leads gap src dst a steps b)
    (hstep : ∀ s ∈ steps, cost s + Φ (dst s) = credit s + Φ (src s)) :
    (steps.map cost).sum + Φ b = (steps.map credit).sum + Φ a := by
  induction steps generalizing a with
  | nil =>
    rw [List.map_nil, List.map_nil, hgap a b h]
  | cons s steps ih =>
    obtain ⟨hs, hrest⟩ := List.forall_mem_cons.mp hstep
    have hlast := ih h.2 hrest
    have hfirst := hgap a (src s) h.1
    simp only [List.map_cons, List.sum_cons]
    omega

/-- **What a run counts.** -/
theorem Leads.count (I : ℕ → α → Prop) (cost : σ → ℕ) (hgap : ∀ n a b, gap a b → I n a → I n b)
    {n : ℕ} {a b : α} {steps : List σ} (h : Leads gap src dst a steps b)
    (hstep : ∀ s ∈ steps, ∀ n, I n (src s) → I (n + cost s) (dst s)) (ha : I n a) :
    I (n + (steps.map cost).sum) b := by
  induction steps generalizing n a with
  | nil => exact hgap n a b h ha
  | cons s steps ih =>
    obtain ⟨hs, hrest⟩ := List.forall_mem_cons.mp hstep
    rw [List.map_cons, List.sum_cons, ← Nat.add_assoc]
    exact ih h.2 hrest (hs n (hgap n a (src s) h.1 ha))

end Amortized
