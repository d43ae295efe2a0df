import Mathlib

/-!
# Programs that may stop on a fault

A program with explicit state is a function into `Except ε`.  This file is the small program logic
the verification uses for such functions, and it mentions no particular program.

* `Meets allowed Q x`: the outcome `x` is a value satisfying `Q`, or a fault that `allowed` admits.
* `Refines allowed R x y`: the outcomes `x` and `y` are both values, related by `R`, or the same
  fault; the left one may in addition stop on a fault that `allowed` admits.
* `meets_foldlM_range`, `Refines.foldlM`: the loop rules.  A counted loop is a fold over
  `List.range n`, and its invariant is indexed by the number of rounds that have been made.
* `foldlM_range_eq_ok`: the states between the rounds of such a loop.
* `visited`, `meets_foldlM_visited`: the same with a sum over the states in which the rounds begin.
-/

namespace Outcome

variable {ε ε' α β γ δ : Type}

/-! ## One program -/

/-- The outcome is a value satisfying `Q`, or an admitted fault. -/
def Meets (allowed : ε → Prop) (Q : α → Prop) : Except ε α → Prop
  | .ok a => Q a
  | .error e => allowed e

@[simp] theorem meets_ok {allowed : ε → Prop} {Q : α → Prop} {a : α} :
    Meets allowed Q (.ok a) ↔ Q a := Iff.rfl

@[simp] theorem meets_pure {allowed : ε → Prop} {Q : α → Prop} {a : α} :
    Meets allowed Q (pure a) ↔ Q a := Iff.rfl

@[simp] theorem meets_error {allowed : ε → Prop} {Q : α → Prop} {e : ε} :
    Meets allowed Q (.error e) ↔ allowed e := Iff.rfl

theorem Meets.mono {allowed : ε → Prop} {P Q : α → Prop} {x : Except ε α}
    (h : Meets allowed P x) (hPQ : ∀ a, P a → Q a) : Meets allowed Q x := by
  cases x with
  | ok a => exact hPQ a h
  | error e => exact h

theorem Meets.weaken {allowed allowed' : ε → Prop} {Q : α → Prop} {x : Except ε α}
    (h : Meets allowed Q x) (hw : ∀ e, allowed e → allowed' e) : Meets allowed' Q x := by
  cases x with
  | ok a => exact h
  | error e => exact hw e h

theorem Meets.and {allowed : ε → Prop} {P Q : α → Prop} {x : Except ε α} (h : Meets allowed P x)
    (h' : Meets allowed Q x) : Meets allowed (fun a => P a ∧ Q a) x := by
  cases x with
  | ok a => exact ⟨h, h'⟩
  | error e => exact h

/-- Sequencing: what the first part establishes is what the second part may assume. -/
theorem Meets.bind {allowed : ε → Prop} {P : α → Prop} {Q : β → Prop} {x : Except ε α}
    {f : α → Except ε β} (hx : Meets allowed P x) (hf : ∀ a, P a → Meets allowed Q (f a)) :
    Meets allowed Q (x >>= f) := by
  cases x with
  | ok a => exact hf a hx
  | error e => exact hx

theorem Meets.of_ok {allowed : ε → Prop} {Q : α → Prop} {x : Except ε α} {a : α}
    (h : Meets allowed Q x) (hx : x = .ok a) : Q a := by
  rw [hx] at h
  exact h

theorem Meets.of_error {allowed : ε → Prop} {Q : α → Prop} {x : Except ε α} {e : ε}
    (h : Meets allowed Q x) (hx : x = .error e) : allowed e := by
  rw [hx] at h
  exact h

theorem Meets.exists_ok {allowed : ε → Prop} {Q : α → Prop} {x : Except ε α}
    (h : Meets allowed Q x) (hno : ∀ e, x = .error e → ¬ allowed e) : ∃ a, x = .ok a ∧ Q a := by
  cases x with
  | ok a => exact ⟨a, rfl, h⟩
  | error e => exact absurd h (hno e rfl)

theorem ok_bind (a : α) (f : α → Except ε β) : (Except.ok a >>= f) = f a := rfl

theorem bind_eq_ok {x : Except ε α} {f : α → Except ε β} {b : β} :
    (x >>= f) = .ok b ↔ ∃ a, x = .ok a ∧ f a = .ok b := by
  cases x with
  | ok a => exact ⟨fun h => ⟨a, rfl, h⟩, fun ⟨_, ha, h⟩ => by cases ha; exact h⟩
  | error e => exact ⟨fun h => (nomatch h), fun ⟨_, ha, _⟩ => (nomatch ha)⟩

/-- Calls none of which stops on a fault. -/
theorem mapM_eq_ok_iff {f : α → Except ε β} {g : α → β} {l : List α} :
    l.mapM f = .ok (l.map g) ↔ ∀ a ∈ l, f a = .ok (g a) := by
  induction l with
  | nil => exact ⟨fun _ _ h => absurd h List.not_mem_nil, fun _ => rfl⟩
  | cons a l ih =>
    rw [List.mapM_cons, List.map_cons, List.forall_mem_cons, ← ih]
    constructor
    · intro h
      obtain ⟨b, hb, hrest⟩ := bind_eq_ok.mp h
      obtain ⟨bs, hbs, hcons⟩ := bind_eq_ok.mp hrest
      obtain ⟨rfl, rfl⟩ := List.cons.inj (Except.ok.inj hcons)
      exact ⟨hb, hbs⟩
    · rintro ⟨ha, hl⟩
      rw [ha, ok_bind, hl]
      rfl

theorem mapM_eq_ok {f : α → Except ε β} {g : α → β} {l : List α} (h : ∀ a ∈ l, f a = .ok (g a)) :
    l.mapM f = .ok (l.map g) := mapM_eq_ok_iff.mpr h

/-- Naming the faults of a program part by part. -/
theorem mapError_bind (e : ε → ε') (x : Except ε α) (f : α → Except ε β) :
    (x >>= f).mapError e = x.mapError e >>= fun a => (f a).mapError e := by
  cases x with
  | ok a => rfl
  | error e' => rfl

/-- A program that can be run is run. -/
theorem ok_of_any {x : Except ε α} {p : α → Bool} (h : x.toOption.any p = true) :
    ∃ a, x = .ok a ∧ p a = true := by
  cases x with
  | ok a => exact ⟨a, rfl, h⟩
  | error e => cases h

/-! ## Counted loops -/

/-- The invariant rule for a counted loop without faults. -/
theorem foldl_range {f : α → ℕ → α} {n : ℕ} {a : α} (P : ℕ → α → Prop) (h0 : P 0 a)
    (hs : ∀ i, i < n → ∀ b, P i b → P (i + 1) (f b i)) : P n ((List.range n).foldl f a) := by
  induction n with
  | zero => exact h0
  | succ n ih =>
    rw [List.range_succ, List.foldl_append, List.foldl_cons, List.foldl_nil]
    exact hs n (Nat.lt_succ_self n) _ (ih fun i hi => hs i (Nat.lt_succ_of_lt hi))

/-- The invariant rule for a counted loop whose body may stop on a fault. -/
theorem meets_foldlM_range {allowed : ε → Prop} {f : α → ℕ → Except ε α} {n : ℕ} {a : α}
    (P : ℕ → α → Prop) (h0 : P 0 a)
    (hs : ∀ i, i < n → ∀ b, P i b → Meets allowed (P (i + 1)) (f b i)) :
    Meets allowed (P n) ((List.range n).foldlM f a) := by
  induction n with
  | zero => exact h0
  | succ n ih =>
    rw [List.range_succ, List.foldlM_append]
    refine Meets.bind (ih fun i hi => hs i (Nat.lt_succ_of_lt hi)) fun b hb => ?_
    rw [List.foldlM_cons]
    exact Meets.bind (hs n (Nat.lt_succ_self n) b hb) fun c hc => hc

/-- The states between the rounds of a counted loop that has come to its end. -/
theorem foldlM_range_eq_ok {f : α → ℕ → Except ε α} {n : ℕ} {a b : α}
    (h : (List.range n).foldlM f a = .ok b) :
    ∃ st : ℕ → α, st 0 = a ∧ st n = b ∧ ∀ i < n, f (st i) i = .ok (st (i + 1)) := by
  induction n generalizing b with
  | zero => exact ⟨fun _ => a, rfl, Except.ok.inj h, fun i hi => absurd hi (Nat.not_lt_zero i)⟩
  | succ n ih =>
    rw [List.range_succ, List.foldlM_append] at h
    obtain ⟨c, hc, hround⟩ := bind_eq_ok.mp h
    rw [List.foldlM_cons] at hround
    obtain ⟨b', hb', hnil⟩ := bind_eq_ok.mp hround
    obtain rfl : b' = b := Except.ok.inj hnil
    obtain ⟨st, h0, hn, hst⟩ := ih hc
    refine ⟨Function.update st (n + 1) b', ?_, Function.update_self _ _ _, fun i hi => ?_⟩
    · rw [Function.update_of_ne (Nat.succ_ne_zero n).symm, h0]
    · rw [Function.update_of_ne (Nat.ne_of_lt hi)]
      rcases Nat.lt_succ_iff_lt_or_eq.mp hi with hlt | rfl
      · rw [Function.update_of_ne (Nat.ne_of_lt (Nat.succ_lt_succ hlt))]
        exact hst i hlt
      · rw [Function.update_self, hn]
        exact hb'

/-- The invariant rule for a loop over a list, when the invariant does not count. -/
theorem meets_foldlM {allowed : ε → Prop} {f : α → γ → Except ε α} {l : List γ} {a : α}
    (P : α → Prop) (h0 : P a) (hs : ∀ c ∈ l, ∀ b, P b → Meets allowed P (f b c)) :
    Meets allowed P (l.foldlM f a) := by
  induction l generalizing a with
  | nil => exact h0
  | cons c l ih =>
    rw [List.foldlM_cons]
    exact Meets.bind (hs c List.mem_cons_self a h0) fun b hb =>
      ih hb fun c' hc' => hs c' (List.mem_cons_of_mem c hc')

/-! ## The cost of a loop -/

/-- The states in which the rounds of a loop begin. -/
def visited (f : α → γ → Except ε α) (a : α) : List γ → List α
  | [] => []
  | c :: l => a :: match f a c with
    | .ok b => visited f b l
    | .error _ => []

theorem visited_cons {f : α → γ → Except ε α} {a b : α} {c : γ} {l : List γ} (h : f a c = .ok b) :
    visited f a (c :: l) = a :: visited f b l := by rw [visited, h]

/-- The invariant rule for a counted loop that knows what the rounds have cost. -/
theorem meets_foldlM_visited {allowed : ε → Prop} {f : α → ℕ → Except ε α} {cost : α → ℕ} {n : ℕ}
    {a : α} (P : ℕ → ℕ → α → Prop) (h0 : P 0 0 a)
    (hs : ∀ i, i < n → ∀ m b, P i m b → Meets allowed (P (i + 1) (m + cost b)) (f b i)) :
    Meets allowed (P n ((visited f a (List.range n)).map cost).sum)
      ((List.range n).foldlM f a) := by
  suffices h : ∀ k i m b, i + k = n → P i m b →
      Meets allowed (P n (m + ((visited f b (List.range' i k)).map cost).sum))
        ((List.range' i k).foldlM f b) by
    rw [List.range_eq_range', ← Nat.zero_add ((visited _ _ _).map cost).sum]
    exact h n 0 0 a (Nat.zero_add n) h0
  intro k
  induction k with
  | zero =>
    rintro i m b rfl hP
    exact hP
  | succ k ih =>
    intro i m b hik hP
    have hround := hs i (by omega) m b hP
    rw [List.range'_succ, List.foldlM_cons]
    cases hres : f b i with
    | error e =>
      rw [hres] at hround
      exact hround
    | ok b' =>
      rw [hres] at hround
      rw [visited_cons hres, List.map_cons, List.sum_cons, ← Nat.add_assoc]
      exact ih (i + 1) _ b' (by omega) hround

/-! ## Two programs -/

/-- Both outcomes are related values, or the same fault; the left program may also stop on an
admitted fault where the right one goes on. -/
def Refines (allowed : ε → Prop) (R : α → β → Prop) : Except ε α → Except ε β → Prop
  | .ok a, .ok b => R a b
  | .error e, .error e' => e = e' ∨ allowed e
  | .error e, .ok _ => allowed e
  | .ok _, .error _ => False

@[simp] theorem refines_ok {allowed : ε → Prop} {R : α → β → Prop} {a : α} {b : β} :
    Refines allowed R (.ok a) (.ok b) ↔ R a b := Iff.rfl

theorem refines_error {allowed : ε → Prop} {R : α → β → Prop} {e : ε} :
    Refines allowed R (.error e) (.error e) := Or.inl rfl

theorem Refines.mono {allowed : ε → Prop} {R S : α → β → Prop} {x : Except ε α} {y : Except ε β}
    (h : Refines allowed R x y) (hRS : ∀ a b, R a b → S a b) : Refines allowed S x y := by
  cases x with
  | ok a =>
    cases y with
    | ok b => exact hRS a b h
    | error e => exact h
  | error e =>
    cases y with
    | ok b => exact h
    | error e' => exact h

theorem Refines.bind {allowed : ε → Prop} {R : α → β → Prop} {S : γ → δ → Prop}
    {x : Except ε α} {y : Except ε β} {f : α → Except ε γ} {g : β → Except ε δ}
    (hxy : Refines allowed R x y) (hfg : ∀ a b, R a b → Refines allowed S (f a) (g b)) :
    Refines allowed S (x >>= f) (y >>= g) := by
  cases x with
  | ok a =>
    cases y with
    | ok b => exact hfg a b hxy
    | error e => exact absurd hxy id
  | error e =>
    cases y with
    | ok b =>
      change Refines allowed S (Except.error e) (g b)
      cases g b with
      | ok d => exact hxy
      | error e' => exact Or.inr hxy
    | error e' => exact hxy

theorem Refines.weaken {allowed allowed' : ε → Prop} {R : α → β → Prop} {x : Except ε α}
    {y : Except ε β} (h : Refines allowed R x y) (hw : ∀ e, allowed e → allowed' e) :
    Refines allowed' R x y := by
  cases x with
  | ok a =>
    cases y with
    | ok b => exact h
    | error e => exact h
  | error e =>
    cases y with
    | ok b => exact hw e h
    | error e' => exact Or.imp_right (hw e) h

/-- Two refinements, of which the second has no faults of its own. -/
theorem Refines.trans {allowed : ε → Prop} {R : α → β → Prop} {S : β → γ → Prop} {x : Except ε α}
    {y : Except ε β} {z : Except ε γ} (h : Refines allowed R x y)
    (h' : Refines (fun _ => False) S y z) : Refines allowed (fun a c => ∃ b, R a b ∧ S b c) x z := by
  cases y with
  | ok b =>
    cases z with
    | error e => exact absurd h' id
    | ok c =>
      cases x with
      | ok a => exact ⟨b, h, h'⟩
      | error e => exact h
  | error e =>
    cases z with
    | ok c => exact absurd h' id
    | error e' =>
      cases x with
      | ok a => exact absurd h id
      | error e'' => exact Or.imp_left (fun heq => heq.trans (h'.resolve_right id)) h

/-- What the left program establishes on its own. -/
theorem Refines.and_left {allowed : ε → Prop} {R : α → β → Prop} {P : α → Prop} {x : Except ε α}
    {y : Except ε β} (h : Refines allowed R x y) (hP : ∀ a, x = .ok a → P a) :
    Refines allowed (fun a b => R a b ∧ P a) x y := by
  cases x with
  | ok a =>
    cases y with
    | ok b => exact ⟨h, hP a rfl⟩
    | error e => exact h
  | error e =>
    cases y with
    | ok b => exact h
    | error e' => exact h

/-- The simulation rule for a loop over a list. -/
theorem Refines.foldlM {allowed : ε → Prop} {R : α → β → Prop} {f : α → γ → Except ε α}
    {g : β → γ → Except ε β} {l : List γ} {a : α} {b : β} (h0 : R a b)
    (hs : ∀ c ∈ l, ∀ a b, R a b → Refines allowed R (f a c) (g b c)) :
    Refines allowed R (l.foldlM f a) (l.foldlM g b) := by
  induction l generalizing a b with
  | nil => exact h0
  | cons c l ih =>
    rw [List.foldlM_cons, List.foldlM_cons]
    exact Refines.bind (hs c List.mem_cons_self a b h0) fun a' b' h' =>
      ih h' fun c' hc' => hs c' (List.mem_cons_of_mem c hc')

/-- A refinement whose left side only stops on faults that do not occur transports every value. -/
theorem Refines.ok_of_ok {allowed : ε → Prop} {R : α → β → Prop} {x : Except ε α}
    {y : Except ε β} {a : α} (h : Refines allowed R x y) (hx : x = .ok a) :
    ∃ b, y = .ok b ∧ R a b := by
  subst hx
  cases y with
  | ok b => exact ⟨b, rfl, h⟩
  | error e => exact absurd h id

/-- The other way round, when the left side has no faults of its own. -/
theorem Refines.ok_of_ok_right {allowed : ε → Prop} {R : α → β → Prop} {x : Except ε α}
    {y : Except ε β} {b : β} (h : Refines allowed R x y) (hno : ∀ e, ¬ allowed e)
    (hy : y = .ok b) : ∃ a, x = .ok a ∧ R a b := by
  subst hy
  cases x with
  | ok a => exact ⟨a, rfl, h⟩
  | error e => exact absurd h (hno e)

end Outcome
