import MemSmr.Lib.Outcome

/-!
# Files whose transfers may be short

A call that reads or writes a file gives back a negative error or a count, and the count may be less
than what was asked for.  A program that checks for the error only goes on with what it has.  The
file mentions no particular program.

* `IoFile`, `IoFile.read`, `IoFile.write`: an open file, and the calls.  What each call does is an
  arbitrary function of its number and of the bytes asked for; the calls that were made are recorded.
* `ReadStep`, `runReads`: a program that reads one piece after the other into its state.
* `parse`: what the pieces are, taken from the bytes alone.  `runReads_sound` and `runReads_full`
  say when a program finds just that.
* `WriteStep`, `runWrites`: a program that writes one piece after the other.
-/

namespace ShortIo

/-- A call that was made. -/
structure Transfer where
  requested : ℕ
  /-- The count that came back, `none` for a negative error. -/
  result : Option ℕ
  /-- The caller stops on a negative error. -/
  checked : Bool

/-- The call transferred all the bytes, or it failed and the caller stopped. -/
def Transfer.Sound (t : Transfer) : Prop :=
  t.result = some t.requested ∨ t.result = none ∧ t.checked = true

/-- An open file. -/
structure IoFile where
  bytes : List UInt8
  pos : ℕ
  /-- What a call does: its number and the bytes asked for give an error or a count. -/
  outcome : ℕ → ℕ → Option ℕ
  calls : List Transfer

namespace IoFile

/-- A file that has just been opened. -/
def opened (bytes : List UInt8) (outcome : ℕ → ℕ → Option ℕ) : IoFile := ⟨bytes, 0, outcome, []⟩

/-- Every call transfers what it is asked for. -/
def fullIo : ℕ → ℕ → Option ℕ := fun _ n => some n

/-- What has not been read. -/
def rest (f : IoFile) : List UInt8 := f.bytes.drop f.pos

/-- What lies before the position. -/
def done (f : IoFile) : List UInt8 := f.bytes.take f.pos

/-- The calls that were made were all sound. -/
def AllSound (f : IoFile) : Prop := ∀ t ∈ f.calls, t.Sound

/-- A read of `n` bytes: the bytes it gets, and the file.  A count beyond the end of the file is cut
off there. -/
def read (f : IoFile) (n : ℕ) (checked : Bool) : Option (List UInt8) × IoFile :=
  match f.outcome f.calls.length n with
  | none => (none, { f with calls := ⟨n, none, checked⟩ :: f.calls })
  | some k =>
    let got := f.rest.take (min k n)
    (some got, { f with
      pos := f.pos + got.length
      calls := ⟨n, some got.length, checked⟩ :: f.calls })

/-- A write: the count it gives back, and the file. -/
def write (f : IoFile) (src : List UInt8) : Option ℕ × IoFile :=
  match f.outcome f.calls.length src.length with
  | none => (none, { f with calls := ⟨src.length, none, true⟩ :: f.calls })
  | some k =>
    let out := src.take k
    (some out.length, { f with
      bytes := f.done ++ out ++ f.bytes.drop (f.pos + out.length)
      pos := f.pos + out.length
      calls := ⟨src.length, some out.length, true⟩ :: f.calls })

theorem rest_opened (bytes : List UInt8) (outcome : ℕ → ℕ → Option ℕ) :
    (opened bytes outcome).rest = bytes := rfl

theorem allSound_opened (bytes : List UInt8) (outcome : ℕ → ℕ → Option ℕ) :
    (opened bytes outcome).AllSound := fun _ h => absurd h List.not_mem_nil

/-! ## One call -/

section Read

variable {f f' : IoFile} {n : ℕ} {checked : Bool} {got : Option (List UInt8)}

theorem read_none (h : f.outcome f.calls.length n = none) :
    f.read n checked = (none, { f with calls := ⟨n, none, checked⟩ :: f.calls }) := by
  rw [read, h]

theorem read_some {k : ℕ} (h : f.outcome f.calls.length n = some k) :
    f.read n checked = (some (f.rest.take (min k n)), { f with
      pos := f.pos + (f.rest.take (min k n)).length
      calls := ⟨n, some (f.rest.take (min k n)).length, checked⟩ :: f.calls }) := by
  rw [read, h]

/-- A read does not change the file. -/
theorem read_bytes (h : f.read n checked = (got, f')) :
    f'.bytes = f.bytes ∧ f'.outcome = f.outcome := by
  cases hout : f.outcome f.calls.length n with
  | none =>
    rw [read_none hout] at h
    obtain ⟨-, rfl⟩ := Prod.mk.inj h
    exact ⟨rfl, rfl⟩
  | some k =>
    rw [read_some hout] at h
    obtain ⟨-, rfl⟩ := Prod.mk.inj h
    exact ⟨rfl, rfl⟩

/-- **A sound read** has got all the bytes, or it has failed and the caller stops. -/
theorem read_sound (h : f.read n checked = (got, f')) (hsound : f'.AllSound) :
    f.AllSound ∧ (got = none ∧ checked = true ∨
      got = some (f.rest.take n) ∧ n ≤ f.rest.length ∧ f'.pos = f.pos + n ∧
        f'.rest = f.rest.drop n) := by
  cases hout : f.outcome f.calls.length n with
  | none =>
    rw [read_none hout] at h
    obtain ⟨rfl, rfl⟩ := Prod.mk.inj h
    obtain ⟨hcall, hcalls⟩ := List.forall_mem_cons.mp hsound
    refine ⟨hcalls, Or.inl ⟨rfl, ?_⟩⟩
    rcases hcall with hcall | ⟨-, hcall⟩
    · cases hcall
    · exact hcall
  | some k =>
    rw [read_some hout] at h
    obtain ⟨rfl, rfl⟩ := Prod.mk.inj h
    obtain ⟨hcall, hcalls⟩ := List.forall_mem_cons.mp hsound
    have hlen : (f.rest.take (min k n)).length = n := by
      rcases hcall with hcall | ⟨hcall, -⟩
      · exact Option.some.inj hcall
      · cases hcall
    have hle : n ≤ f.rest.length ∧ n ≤ k := by
      rw [List.length_take] at hlen
      omega
    have hmin : min k n = n := Nat.min_eq_right hle.2
    refine ⟨hcalls, Or.inr ⟨by rw [hmin], hle.1, congrArg (f.pos + ·) hlen, ?_⟩⟩
    show f.bytes.drop (f.pos + (f.rest.take (min k n)).length) = (f.bytes.drop f.pos).drop n
    rw [hlen, List.drop_drop]

/-- A read of bytes that are there, when every call transfers what it is asked for. -/
theorem read_full (checked : Bool) (hout : f.outcome = fullIo) (hle : n ≤ f.rest.length) :
    ∃ f', f.read n checked = (some (f.rest.take n), f') ∧ f'.outcome = fullIo ∧
      f'.pos = f.pos + n ∧ f'.rest = f.rest.drop n ∧ (f.AllSound → f'.AllSound) := by
  have hk : f.outcome f.calls.length n = some n := by rw [hout, fullIo]
  have hread : f.read n checked = _ := read_some hk
  have hlen : (f.rest.take n).length = n := List.length_take_of_le hle
  rw [Nat.min_self, hlen] at hread
  refine ⟨_, hread, hout, rfl, ?_, fun h => List.forall_mem_cons.mpr ⟨Or.inl rfl, h⟩⟩
  exact List.drop_drop.symm

end Read

section Write

variable {f f' : IoFile} {src : List UInt8} {ret : Option ℕ}

theorem write_none (h : f.outcome f.calls.length src.length = none) :
    f.write src = (none, { f with calls := ⟨src.length, none, true⟩ :: f.calls }) := by
  rw [write, h]

theorem write_some {k : ℕ} (h : f.outcome f.calls.length src.length = some k) :
    f.write src = (some (src.take k).length, { f with
      bytes := f.done ++ src.take k ++ f.bytes.drop (f.pos + (src.take k).length)
      pos := f.pos + (src.take k).length
      calls := ⟨src.length, some (src.take k).length, true⟩ :: f.calls }) := by
  rw [write, h]

theorem length_done (hpos : f.pos ≤ f.bytes.length) : f.done.length = f.pos :=
  List.length_take_of_le hpos

theorem write_allSound (h : f.write src = (ret, f')) (hsound : f'.AllSound) : f.AllSound := by
  cases hout : f.outcome f.calls.length src.length with
  | none =>
    rw [write_none hout] at h
    obtain ⟨-, rfl⟩ := Prod.mk.inj h
    exact (List.forall_mem_cons.mp hsound).2
  | some k =>
    rw [write_some hout] at h
    obtain ⟨-, rfl⟩ := Prod.mk.inj h
    exact (List.forall_mem_cons.mp hsound).2

/-- A write does not leave a gap. -/
theorem write_pos (h : f.write src = (ret, f')) (hpos : f.pos ≤ f.bytes.length) :
    f'.pos ≤ f'.bytes.length := by
  cases hout : f.outcome f.calls.length src.length with
  | none =>
    rw [write_none hout] at h
    obtain ⟨-, rfl⟩ := Prod.mk.inj h
    exact hpos
  | some k =>
    rw [write_some hout] at h
    obtain ⟨-, rfl⟩ := Prod.mk.inj h
    show f.pos + (src.take k).length ≤ (f.done ++ src.take k ++ f.bytes.drop _).length
    rw [List.length_append, List.length_append, length_done hpos]
    exact Nat.le_add_right _ _

/-- **A sound write** that does not fail has put down all the bytes. -/
theorem write_sound (h : f.write src = (ret, f')) (hret : ret ≠ none) (hsound : f'.AllSound)
    (hpos : f.pos ≤ f.bytes.length) : f.AllSound ∧ f'.done = f.done ++ src ∧
      f'.pos = f.pos + src.length := by
  cases hout : f.outcome f.calls.length src.length with
  | none =>
    rw [write_none hout] at h
    exact absurd (Prod.mk.inj h).1.symm hret
  | some k =>
    rw [write_some hout] at h
    obtain ⟨-, rfl⟩ := Prod.mk.inj h
    obtain ⟨hcall, hcalls⟩ := List.forall_mem_cons.mp hsound
    have hlen : (src.take k).length = src.length := by
      rcases hcall with hcall | ⟨hcall, -⟩
      · exact Option.some.inj hcall
      · cases hcall
    have hsrc : src.take k = src := by
      rw [List.length_take] at hlen
      exact List.take_of_length_le (by omega)
    have hdone : (f.done ++ src).length = f.pos + src.length := by
      rw [List.length_append, length_done hpos]
    refine ⟨hcalls, ?_, congrArg (f.pos + ·) hlen⟩
    show (f.done ++ src.take k ++ f.bytes.drop _).take (f.pos + (src.take k).length) = _
    rw [hsrc, List.take_left' hdone]

/-- A write inside the first `m` bytes. -/
theorem write_length_le {m : ℕ} (h : f.write src = (ret, f')) (hsrc : f.pos + src.length ≤ m)
    (hm : f.bytes.length ≤ m) : f'.bytes.length ≤ m := by
  cases hout : f.outcome f.calls.length src.length with
  | none =>
    rw [write_none hout] at h
    obtain ⟨-, rfl⟩ := Prod.mk.inj h
    exact hm
  | some k =>
    rw [write_some hout] at h
    obtain ⟨-, rfl⟩ := Prod.mk.inj h
    show (f.bytes.take f.pos ++ src.take k ++ f.bytes.drop _).length ≤ m
    simp only [List.length_append, List.length_take, List.length_drop]
    omega

/-- A write when every call transfers what it is asked for. -/
theorem write_full (src : List UInt8) (hout : f.outcome = fullIo) :
    ∃ f', f.write src = (some src.length, f') ∧ f'.outcome = fullIo ∧
      f'.pos = f.pos + src.length ∧ (f.AllSound → f'.AllSound) := by
  have hk : f.outcome f.calls.length src.length = some src.length := by rw [hout, fullIo]
  have hwrite : f.write src = _ := write_some hk
  rw [List.take_length] at hwrite
  exact ⟨_, hwrite, hout, rfl, fun h => List.forall_mem_cons.mpr ⟨Or.inl rfl, h⟩⟩

end Write

end IoFile

open IoFile Outcome

/-! ## Reading one piece after the other -/

/-- One piece of a program that reads. -/
structure ReadStep (σ : Type) where
  /-- The bytes that are asked for; there is no call for none. -/
  size : σ → ℕ
  /-- What is done with the bytes that come back. -/
  put : List UInt8 → σ → σ
  /-- What follows an error: the program stops, or goes on with another state. -/
  fail : Option (σ → σ)

section Reads

variable {σ : Type}

/-- One piece. -/
def ReadStep.run (st : ReadStep σ) (f : IoFile) (s : σ) : Except (IoFile × σ) (IoFile × σ) :=
  if st.size s = 0 then .ok (f, st.put [] s)
  else
    let r := f.read (st.size s) st.fail.isNone
    match r.1, st.fail with
    | some got, _ => .ok (r.2, st.put got s)
    | none, none => .error (r.2, s)
    | none, some next => .ok (r.2, next s)

/-- The pieces in order, up to the first error that stops the program. -/
def runReads : List (ReadStep σ) → IoFile → σ → Except (IoFile × σ) (IoFile × σ)
  | [], f, s => .ok (f, s)
  | st :: steps, f, s => st.run f s >>= fun r => runReads steps r.1 r.2

/-- One piece, taken from the bytes. -/
def ReadStep.parse (st : ReadStep σ) (l : List UInt8) (s : σ) : Option (σ × List UInt8) :=
  if st.size s ≤ l.length then some (st.put (l.take (st.size s)) s, l.drop (st.size s)) else none

/-- The pieces, taken from the bytes; there have to be enough of them. -/
def parse : List (ReadStep σ) → List UInt8 → σ → Option (σ × List UInt8)
  | [], l, s => some (s, l)
  | st :: steps, l, s => (st.parse l s).bind fun r => parse steps r.2 r.1

variable {st : ReadStep σ} {steps : List (ReadStep σ)} {f f' : IoFile} {s s' : σ}

theorem ReadStep.parse_eq {l bytes tail : List UInt8} (hl : l = bytes ++ tail)
    (hlen : bytes.length = st.size s) : st.parse l s = some (st.put bytes s, tail) := by
  rw [ReadStep.parse, hl, if_pos (by rw [List.length_append]; omega), List.take_left' hlen,
    List.drop_left' hlen]

theorem parse_cons {l bytes tail : List UInt8} (hl : l = bytes ++ tail)
    (hlen : bytes.length = st.size s) :
    parse (st :: steps) l s = parse steps tail (st.put bytes s) := by
  rw [parse, ReadStep.parse_eq hl hlen]
  rfl

theorem runReads_cons_ok {f₁ : IoFile} {s₁ : σ} (h : st.run f s = .ok (f₁, s₁)) :
    runReads (st :: steps) f s = runReads steps f₁ s₁ := by
  rw [runReads, h, ok_bind]

theorem runReads_cons_error {p : IoFile × σ} (h : st.run f s = .error p) :
    runReads (st :: steps) f s = .error p := by
  rw [runReads, h]
  rfl

/-- A sound piece is the one that is there. -/
theorem ReadStep.run_sound (h : st.run f s = .ok (f', s')) (hsound : f'.AllSound) :
    f.AllSound ∧ st.parse f.rest s = some (s', f'.rest) := by
  rw [ReadStep.run] at h
  split_ifs at h with hzero
  · obtain ⟨rfl, rfl⟩ := Prod.mk.inj (Except.ok.inj h)
    exact ⟨hsound, ReadStep.parse_eq rfl hzero.symm⟩
  · cases hres : f.read (st.size s) st.fail.isNone with
    | mk got f₁ =>
      rw [hres] at h
      cases got with
      | some got =>
        obtain ⟨rfl, rfl⟩ := Prod.mk.inj (Except.ok.inj h)
        obtain ⟨hf, ⟨hgot, -⟩ | ⟨hgot, hle, -, hrest⟩⟩ := read_sound hres hsound
        · cases hgot
        · obtain rfl := Option.some.inj hgot
          exact ⟨hf, by rw [ReadStep.parse, if_pos hle, hrest]⟩
      | none =>
        cases hfail : st.fail with
        | none =>
          rw [hfail] at h
          cases h
        | some next =>
          rw [hfail] at h hres
          obtain ⟨rfl, -⟩ := Prod.mk.inj (Except.ok.inj h)
          obtain ⟨-, ⟨-, hchecked⟩ | ⟨hgot, -⟩⟩ := read_sound hres hsound
          · cases hchecked
          · cases hgot

/-- **A program that reads, when its calls are sound**, finds what is there. -/
theorem runReads_sound (h : runReads steps f s = .ok (f', s')) (hsound : f'.AllSound) :
    f.AllSound ∧ parse steps f.rest s = some (s', f'.rest) := by
  induction steps generalizing f s with
  | nil =>
    obtain ⟨rfl, rfl⟩ := Prod.mk.inj (Except.ok.inj h)
    exact ⟨hsound, rfl⟩
  | cons st steps ih =>
    obtain ⟨r, hr, hrest⟩ := bind_eq_ok.mp h
    obtain ⟨h1, h2⟩ := ih hrest
    obtain ⟨h3, h4⟩ := ReadStep.run_sound hr h1
    refine ⟨h3, ?_⟩
    rw [parse, h4]
    exact h2

/-- **A program that reads what is there, when every call transfers what it is asked for.** -/
theorem runReads_full (hout : f.outcome = fullIo) {r : List UInt8}
    (h : parse steps f.rest s = some (s', r)) :
    ∃ f', runReads steps f s = .ok (f', s') ∧ (f.AllSound → f'.AllSound) := by
  induction steps generalizing f s with
  | nil =>
    obtain ⟨rfl, rfl⟩ := Prod.mk.inj (Option.some.inj h)
    exact ⟨f, rfl, id⟩
  | cons st steps ih =>
    rw [parse] at h
    obtain ⟨⟨s₁, l⟩, h1, h2⟩ := Option.bind_eq_some_iff.mp h
    rw [ReadStep.parse] at h1
    split_ifs at h1 with hle
    obtain ⟨rfl, rfl⟩ := Prod.mk.inj (Option.some.inj h1)
    by_cases hzero : st.size s = 0
    · have hrun : st.run f s = .ok (f, st.put (f.rest.take 0) s) := by
        rw [ReadStep.run, if_pos hzero]
        rfl
      rw [hzero, List.drop_zero] at h2
      obtain ⟨f', hf', hsound⟩ := ih hout h2
      exact ⟨f', (runReads_cons_ok hrun).trans hf', hsound⟩
    · obtain ⟨f₁, hread, hout₁, -, hrest₁, hsound₁⟩ := read_full st.fail.isNone hout hle
      have hrun : st.run f s = .ok (f₁, st.put (f.rest.take (st.size s)) s) := by
        rw [ReadStep.run, if_neg hzero, hread]
      rw [← hrest₁] at h2
      obtain ⟨f', hf', hsound⟩ := ih hout₁ h2
      exact ⟨f', (runReads_cons_ok hrun).trans hf', fun hf => hsound (hsound₁ hf)⟩

/-- A program that reads does not stop if no call fails. -/
theorem runReads_of_no_error (steps : List (ReadStep σ)) (s : σ) (hout : ∀ i n, f.outcome i n ≠ none) :
    ∃ f' s', runReads steps f s = .ok (f', s') := by
  induction steps generalizing f s with
  | nil => exact ⟨f, s, rfl⟩
  | cons st steps ih =>
    by_cases hzero : st.size s = 0
    · have hrun : st.run f s = .ok (f, st.put [] s) := by
        rw [ReadStep.run]
        exact if_pos hzero
      obtain ⟨f', s', h⟩ := ih (st.put [] s) hout
      exact ⟨f', s', (runReads_cons_ok hrun).trans h⟩
    · obtain ⟨k, hk⟩ := Option.ne_none_iff_exists'.mp (hout f.calls.length (st.size s))
      cases hread : f.read (st.size s) st.fail.isNone with
      | mk got f₁ =>
        have hout₁ : ∀ i n, f₁.outcome i n ≠ none := by
          rw [(read_bytes hread).2]
          exact hout
        rw [read_some hk] at hread
        obtain ⟨rfl, hf₁⟩ := Prod.mk.inj hread
        have hrun : st.run f s = .ok (f₁, st.put (f.rest.take (min k (st.size s))) s) := by
          rw [ReadStep.run, if_neg hzero, read_some hk, hf₁]
        obtain ⟨f', s', h⟩ := ih (st.put (f.rest.take (min k (st.size s))) s) hout₁
        exact ⟨f', s', (runReads_cons_ok hrun).trans h⟩

/-- A piece that goes on after an error. -/
theorem ReadStep.run_resumes (hfail : st.fail ≠ none) (f : IoFile) (s : σ) :
    ∃ f' s', st.run f s = .ok (f', s') := by
  obtain ⟨next, hnext⟩ := Option.ne_none_iff_exists'.mp hfail
  rw [ReadStep.run, hnext]
  split_ifs
  · exact ⟨f, _, rfl⟩
  · cases hres : f.read (st.size s) false with
    | mk got f₁ =>
      dsimp only [Option.isNone_some]
      rw [hres]
      cases got with
      | some got => exact ⟨f₁, _, rfl⟩
      | none => exact ⟨f₁, _, rfl⟩

/-- A program whose pieces all go on after an error does not stop. -/
theorem runReads_resumes (hfail : ∀ st ∈ steps, st.fail ≠ none) (f : IoFile) (s : σ) :
    ∃ f' s', runReads steps f s = .ok (f', s') := by
  induction steps generalizing f s with
  | nil => exact ⟨f, s, rfl⟩
  | cons st steps ih =>
    obtain ⟨hst, hsteps⟩ := List.forall_mem_cons.mp hfail
    obtain ⟨f₁, s₁, hrun⟩ := ReadStep.run_resumes hst f s
    obtain ⟨f', s', hrest⟩ := ih hsteps f₁ s₁
    exact ⟨f', s', (runReads_cons_ok hrun).trans hrest⟩

/-- More bytes behind those that are read make no difference. -/
theorem parse_append {l r : List UInt8} (h : parse steps l s = some (s', r)) (tail : List UInt8) :
    parse steps (l ++ tail) s = some (s', r ++ tail) := by
  induction steps generalizing l s with
  | nil =>
    obtain ⟨rfl, rfl⟩ := Prod.mk.inj (Option.some.inj h)
    rfl
  | cons st steps ih =>
    rw [parse] at h
    obtain ⟨⟨s₁, l₁⟩, h1, h2⟩ := Option.bind_eq_some_iff.mp h
    rw [ReadStep.parse] at h1
    split_ifs at h1 with hle
    obtain ⟨rfl, rfl⟩ := Prod.mk.inj (Option.some.inj h1)
    have hsplit : l ++ tail = l.take (st.size s) ++ (l.drop (st.size s) ++ tail) := by
      rw [← List.append_assoc, List.take_append_drop]
    rw [parse_cons hsplit (List.length_take_of_le hle)]
    exact ih h2

end Reads

/-! ## Writing one piece after the other -/

/-- One piece of a program that writes. -/
structure WriteStep (σ : Type) where
  /-- What is changed in the state before the call. -/
  set : σ → σ
  /-- The bytes that are written; there is no call for none. -/
  src : σ → List UInt8

section Writes

variable {σ : Type}

/-- One piece. -/
def WriteStep.run (st : WriteStep σ) (f : IoFile) (s : σ) : Except (IoFile × σ) (IoFile × σ) :=
  let s := st.set s
  if st.src s = [] then .ok (f, s)
  else
    let r := f.write (st.src s)
    match r.1 with
    | some _ => .ok (r.2, s)
    | none => .error (r.2, s)

/-- The pieces in order, up to the first error. -/
def runWrites : List (WriteStep σ) → IoFile → σ → Except (IoFile × σ) (IoFile × σ)
  | [], f, s => .ok (f, s)
  | st :: steps, f, s => st.run f s >>= fun r => runWrites steps r.1 r.2

/-- All the bytes that the pieces are to write, and the state at the end. -/
def image : List (WriteStep σ) → σ → List UInt8 × σ
  | [], s => ([], s)
  | st :: steps, s =>
    let r := image steps (st.set s)
    (st.src (st.set s) ++ r.1, r.2)

variable {st : WriteStep σ} {steps : List (WriteStep σ)} {f f' : IoFile} {s s' : σ}

theorem WriteStep.run_cases (h : st.run f s = .ok (f', s')) : s' = st.set s ∧
    (f' = f ∧ st.src (st.set s) = [] ∨ ∃ k, f.write (st.src (st.set s)) = (some k, f')) := by
  rw [WriteStep.run] at h
  dsimp only at h
  split_ifs at h with hnil
  · obtain ⟨rfl, rfl⟩ := Prod.mk.inj (Except.ok.inj h)
    exact ⟨rfl, Or.inl ⟨rfl, hnil⟩⟩
  · cases hres : f.write (st.src (st.set s)) with
    | mk ret f₁ =>
      rw [hres] at h
      cases ret with
      | none => cases h
      | some k =>
        obtain ⟨rfl, rfl⟩ := Prod.mk.inj (Except.ok.inj h)
        exact ⟨rfl, Or.inr ⟨k, rfl⟩⟩

/-- **A program that writes, when its calls are sound**, puts down everything. -/
theorem runWrites_sound (h : runWrites steps f s = .ok (f', s')) (hsound : f'.AllSound)
    (hpos : f.pos ≤ f.bytes.length) : f.AllSound ∧ s' = (image steps s).2 ∧
      f'.done = f.done ++ (image steps s).1 ∧ f'.pos ≤ f'.bytes.length := by
  induction steps generalizing f s with
  | nil =>
    obtain ⟨rfl, rfl⟩ := Prod.mk.inj (Except.ok.inj h)
    exact ⟨hsound, rfl, (List.append_nil _).symm, hpos⟩
  | cons st steps ih =>
    obtain ⟨⟨f₁, s₁⟩, hrun, hrest⟩ := bind_eq_ok.mp h
    dsimp only at hrest
    obtain ⟨rfl, ⟨rfl, hnil⟩ | ⟨k, hwrite⟩⟩ := WriteStep.run_cases hrun
    · obtain ⟨h1, h2, h3, h4⟩ := ih hrest hpos
      exact ⟨h1, h2, by rw [h3, image, hnil]; rfl, h4⟩
    · obtain ⟨h1, h2, h3, h4⟩ := ih hrest (write_pos hwrite hpos)
      obtain ⟨h5, h6, -⟩ := write_sound hwrite (Option.some_ne_none k) h1 hpos
      exact ⟨h5, h2, by rw [h3, h6, List.append_assoc]; rfl, h4⟩

/-- A program that writes when every call transfers what it is asked for. -/
theorem runWrites_full (steps : List (WriteStep σ)) (s : σ) (hout : f.outcome = fullIo) :
    ∃ f', runWrites steps f s = .ok (f', (image steps s).2) ∧ (f.AllSound → f'.AllSound) := by
  induction steps generalizing f s with
  | nil => exact ⟨f, rfl, id⟩
  | cons st steps ih =>
    by_cases hnil : st.src (st.set s) = []
    · have hrun : st.run f s = .ok (f, st.set s) := by
        rw [WriteStep.run]
        exact if_pos hnil
      obtain ⟨f', hf', hsound⟩ := ih (st.set s) hout
      exact ⟨f', by rw [runWrites, hrun]; exact hf', hsound⟩
    · obtain ⟨f₁, hwrite, hout₁, -, hsound₁⟩ := write_full (st.src (st.set s)) hout
      have hrun : st.run f s = .ok (f₁, st.set s) := by
        rw [WriteStep.run]
        dsimp only
        rw [if_neg hnil, hwrite]
      obtain ⟨f', hf', hsound⟩ := ih (st.set s) hout₁
      exact ⟨f', by rw [runWrites, hrun]; exact hf', fun h => hsound (hsound₁ h)⟩

end Writes

/-! ## Loops over the blocks of a file -/

section Loops

variable {σ : Type}

/-- `while (pos < limit)`: block `i` is written, then the next one.  There is no result when the
rounds run out. -/
def writeLoop (limit : ℕ) (src : ℕ → List UInt8) :
    ℕ → ℕ → IoFile → Option (Except IoFile IoFile)
  | 0, _, _ => none
  | fuel + 1, i, f =>
    if f.pos < limit then
      let r := f.write (src i)
      match r.1 with
      | none => some (.error r.2)
      | some _ => writeLoop limit src fuel (i + 1) r.2
    else some (.ok f)

/-- `while (pos < limit)`: `n` bytes are read into block `i`, then into the next one. -/
def readLoop (limit n : ℕ) (put : ℕ → List UInt8 → σ → σ) :
    ℕ → ℕ → IoFile → σ → Option (Except (IoFile × σ) (IoFile × σ))
  | 0, _, _, _ => none
  | fuel + 1, i, f, s =>
    if f.pos < limit then
      let r := f.read n true
      match r.1 with
      | none => some (.error (r.2, s))
      | some got => readLoop limit n put fuel (i + 1) r.2 (put i got s)
    else some (.ok (f, s))

/-- The blocks of a list of bytes are put into place. -/
def putBlocks (n : ℕ) (put : ℕ → List UInt8 → σ → σ) (bytes : List UInt8) (m : ℕ) (s : σ) : σ :=
  (List.range m).foldl (fun s i => put i ((bytes.drop (i * n)).take n) s) s

theorem putBlocks_succ (n : ℕ) (put : ℕ → List UInt8 → σ → σ) (bytes : List UInt8) (m : ℕ)
    (s : σ) : putBlocks n put bytes (m + 1) s =
      put m ((bytes.drop (m * n)).take n) (putBlocks n put bytes m s) := by
  rw [putBlocks, List.range_succ, List.foldl_append]
  rfl

variable {n m fuel i : ℕ} {src : ℕ → List UInt8} {put : ℕ → List UInt8 → σ → σ} {f f' : IoFile}
  {s s' s₀ : σ}

/-- The loops run as long as there are blocks. -/
theorem mul_lt_iff (hn : 0 < n) (hi : i ≤ m) : i * n < m * n ↔ i ≠ m := by
  rw [Nat.mul_lt_mul_right hn]
  omega

theorem writeLoop_allSound {limit : ℕ} (h : writeLoop limit src fuel i f = some (.ok f'))
    (hsound : f'.AllSound) : f.AllSound := by
  induction fuel generalizing i f with
  | zero => cases h
  | succ fuel ih =>
    rw [writeLoop] at h
    split_ifs at h
    · cases hres : f.write (src i) with
      | mk ret f₁ =>
        rw [hres] at h
        cases ret with
        | none => cases h
        | some k => exact write_allSound hres (ih h)
    · obtain rfl := Except.ok.inj (Option.some.inj h)
      exact hsound

theorem readLoop_allSound {limit : ℕ} (h : readLoop limit n put fuel i f s = some (.ok (f', s')))
    (hsound : f'.AllSound) : f.AllSound := by
  induction fuel generalizing i f s with
  | zero => cases h
  | succ fuel ih =>
    rw [readLoop] at h
    split_ifs at h
    · cases hres : f.read n true with
      | mk got f₁ =>
        rw [hres] at h
        cases got with
        | none => cases h
        | some got => exact (read_sound hres (ih h)).1
    · obtain ⟨rfl, -⟩ := Prod.mk.inj (Except.ok.inj (Option.some.inj h))
      exact hsound

/-- **A loop of sound writes** puts down all the blocks. -/
theorem writeLoop_sound (hn : 0 < n) (hsrc : ∀ i, (src i).length = n)
    (h : writeLoop (m * n) src fuel i f = some (.ok f')) (hsound : f'.AllSound)
    (hpos : f.pos = i * n) (hi : i ≤ m) (hle : f.pos ≤ f.bytes.length)
    (hdone : f.done = (List.range i).flatMap src) :
    f'.done = (List.range m).flatMap src ∧ f'.pos = m * n ∧ f'.pos ≤ f'.bytes.length ∧
      (f.bytes.length ≤ m * n → f'.bytes.length ≤ m * n) := by
  induction fuel generalizing i f with
  | zero => cases h
  | succ fuel ih =>
    rw [writeLoop] at h
    by_cases him : i = m
    · rw [if_neg (by rw [hpos, mul_lt_iff hn hi]; exact not_not_intro him)] at h
      obtain rfl := Except.ok.inj (Option.some.inj h)
      rw [← him]
      exact ⟨hdone, hpos, hle, id⟩
    · rw [if_pos (by rw [hpos, mul_lt_iff hn hi]; exact him)] at h
      cases hres : f.write (src i) with
      | mk ret f₁ =>
        rw [hres] at h
        cases ret with
        | none => cases h
        | some k =>
          have hsound₁ : f₁.AllSound := writeLoop_allSound h hsound
          obtain ⟨-, h1, h2⟩ := write_sound hres (Option.some_ne_none k) hsound₁ hle
          have hroom : f.pos + (src i).length ≤ m * n := by
            rw [hpos, hsrc, ← Nat.succ_mul]
            exact Nat.mul_le_mul_right n (by omega)
          obtain ⟨h3, h4, h5, h6⟩ := ih h (by rw [h2, hpos, hsrc, Nat.succ_mul]) (by omega)
            (write_pos hres hle) (by
              rw [h1, hdone, List.range_succ, List.flatMap_append, List.flatMap_singleton])
          exact ⟨h3, h4, h5, fun hm => h6 (write_length_le hres hroom hm)⟩

/-- A loop of writes when every call transfers what it is asked for. -/
theorem writeLoop_full (hn : 0 < n) (hsrc : ∀ i, (src i).length = n) (hout : f.outcome = fullIo)
    (hpos : f.pos = i * n) (hi : i ≤ m) (hfuel : m - i < fuel) :
    ∃ f', writeLoop (m * n) src fuel i f = some (.ok f') ∧ (f.AllSound → f'.AllSound) := by
  induction fuel generalizing i f with
  | zero => exact absurd hfuel (Nat.not_lt_zero _)
  | succ fuel ih =>
    rw [writeLoop]
    by_cases him : i = m
    · rw [if_neg (by rw [hpos, mul_lt_iff hn hi]; exact not_not_intro him)]
      exact ⟨f, rfl, id⟩
    · obtain ⟨f₁, hwrite, hout₁, hpos₁, hsound₁⟩ := write_full (src i) hout
      rw [if_pos (by rw [hpos, mul_lt_iff hn hi]; exact him), hwrite]
      obtain ⟨f', hf', hsound⟩ := ih (i := i + 1) hout₁
        (by rw [hpos₁, hpos, hsrc, Nat.succ_mul]) (by omega) (by omega)
      exact ⟨f', hf', fun h => hsound (hsound₁ h)⟩

/-- **A loop of sound reads** puts all the blocks into place. -/
theorem readLoop_sound (hn : 0 < n)
    (h : readLoop (m * n) n put fuel i f s = some (.ok (f', s'))) (hsound : f'.AllSound)
    (hpos : f.pos = i * n) (hi : i ≤ m) (hs : s = putBlocks n put f.bytes i s₀) :
    s' = putBlocks n put f.bytes m s₀ := by
  induction fuel generalizing i f s with
  | zero => cases h
  | succ fuel ih =>
    rw [readLoop] at h
    by_cases him : i = m
    · rw [if_neg (by rw [hpos, mul_lt_iff hn hi]; exact not_not_intro him)] at h
      obtain ⟨-, rfl⟩ := Prod.mk.inj (Except.ok.inj (Option.some.inj h))
      rw [hs, him]
    · rw [if_pos (by rw [hpos, mul_lt_iff hn hi]; exact him)] at h
      cases hres : f.read n true with
      | mk got f₁ =>
        rw [hres] at h
        cases got with
        | none => cases h
        | some got =>
          have hsound₁ : f₁.AllSound := readLoop_allSound h hsound
          obtain ⟨hbytes, -⟩ := read_bytes hres
          obtain ⟨-, ⟨hgot, -⟩ | ⟨hgot, -, hpos₁, -⟩⟩ := read_sound hres hsound₁
          · cases hgot
          · rw [← hbytes]
            refine ih h ?_ (by omega) ?_
            · rw [hpos₁, hpos, Nat.succ_mul]
            · rw [hbytes, putBlocks_succ, ← hs, ← hpos, Option.some.inj hgot]
              rfl

/-- A loop of reads when every call transfers what it is asked for. -/
theorem readLoop_full (put : ℕ → List UInt8 → σ → σ) (s : σ) (hn : 0 < n)
    (hout : f.outcome = fullIo) (hpos : f.pos = i * n) (hi : i ≤ m)
    (hlen : f.bytes.length = m * n) (hfuel : m - i < fuel) :
    ∃ f' s', readLoop (m * n) n put fuel i f s = some (.ok (f', s')) ∧
      (f.AllSound → f'.AllSound) := by
  induction fuel generalizing i f s with
  | zero => exact absurd hfuel (Nat.not_lt_zero _)
  | succ fuel ih =>
    rw [readLoop]
    by_cases him : i = m
    · rw [if_neg (by rw [hpos, mul_lt_iff hn hi]; exact not_not_intro him)]
      exact ⟨f, s, rfl, id⟩
    · have hrest : n ≤ f.rest.length := by
        have hmul : (i + 1) * n ≤ m * n := Nat.mul_le_mul_right n (by omega)
        rw [Nat.succ_mul] at hmul
        rw [rest, List.length_drop, hlen, hpos]
        omega
      obtain ⟨f₁, hread, hout₁, hpos₁, -, hsound₁⟩ := read_full true hout hrest
      rw [if_pos (by rw [hpos, mul_lt_iff hn hi]; exact him), hread]
      obtain ⟨f', s', hf', hsound⟩ := ih (i := i + 1) (put i (f.rest.take n) s) hout₁
        (by rw [hpos₁, hpos, Nat.succ_mul]) (by omega) (by rw [(read_bytes hread).1, hlen])
        (by omega)
      exact ⟨f', s', hf', fun h => hsound (hsound₁ h)⟩

/-! When a loop of reads is stopped by a call. -/

namespace IoFile

/-- The file after `k` reads of `n` bytes. -/
def afterReads (n k : ℕ) (f : IoFile) : IoFile := (fun f => (f.read n true).2)^[k] f

/-- Reads of `n` bytes come to the limit, no call failing on the way. -/
def Comes (limit n : ℕ) (f : IoFile) : Prop :=
  ∀ k, (f.afterReads n k).pos < limit → ((f.afterReads n k).read n true).1 ≠ none

theorem pos_le_pos_read (f : IoFile) (n : ℕ) (checked : Bool) :
    f.pos ≤ (f.read n checked).2.pos := by
  cases hout : f.outcome f.calls.length n with
  | none => rw [read_none hout]
  | some k =>
    rw [read_some hout]
    exact Nat.le_add_right _ _

theorem pos_le_pos_afterReads (f : IoFile) (n k : ℕ) : f.pos ≤ (f.afterReads n k).pos := by
  induction k generalizing f with
  | zero => exact Nat.le_refl _
  | succ k ih => exact (pos_le_pos_read f n true).trans (ih _)

theorem comes_of_le {limit n : ℕ} {f : IoFile} (h : limit ≤ f.pos) : f.Comes limit n :=
  fun k hk => absurd (h.trans (pos_le_pos_afterReads f n k)) (Nat.not_le.mpr hk)

theorem comes_iff {limit n : ℕ} {f : IoFile} (h : f.pos < limit) :
    f.Comes limit n ↔ (f.read n true).1 ≠ none ∧ (f.read n true).2.Comes limit n := by
  constructor
  · exact fun hf => ⟨hf 0 h, fun k => hf (k + 1)⟩
  · rintro ⟨hfirst, hrest⟩ (_ | k)
    · exact fun _ => hfirst
    · exact hrest k

end IoFile

/-- **A loop of reads** is stopped just when a call fails before the limit. -/
theorem readLoop_isOk {limit : ℕ} {res : Except (IoFile × σ) (IoFile × σ)}
    (h : readLoop limit n put fuel i f s = some res) : f.Comes limit n ↔ ∃ p, res = .ok p := by
  induction fuel generalizing i f s with
  | zero => cases h
  | succ fuel ih =>
    rw [readLoop] at h
    split_ifs at h with hlt
    · rw [comes_iff hlt]
      cases hres : f.read n true with
      | mk got f₁ =>
        rw [hres] at h
        cases got with
        | none =>
          obtain rfl := Option.some.inj h
          refine iff_of_false (fun h => h.1 rfl) ?_
          rintro ⟨p, hp⟩
          cases hp
        | some got => exact (and_iff_right (Option.some_ne_none got)).trans (ih h)
    · obtain rfl := Option.some.inj h
      exact iff_of_true (comes_of_le (Nat.not_lt.mp hlt)) ⟨_, rfl⟩

/-- What every block keeps is kept by a loop of reads, stopped or not. -/
theorem readLoop_keeps {limit : ℕ} {P : σ → Prop} (hput : ∀ i got s, P s → P (put i got s))
    {res : Except (IoFile × σ) (IoFile × σ)} (h : readLoop limit n put fuel i f s = some res)
    (hs : P s) : ∃ f' s', P s' ∧ (res = .ok (f', s') ∨ res = .error (f', s')) := by
  induction fuel generalizing i f s with
  | zero => cases h
  | succ fuel ih =>
    rw [readLoop] at h
    split_ifs at h
    · cases hres : f.read n true with
      | mk got f₁ =>
        rw [hres] at h
        cases got with
        | none =>
          obtain rfl := Option.some.inj h
          exact ⟨f₁, s, hs, Or.inr rfl⟩
        | some got => exact ih h (hput i got s hs)
    · obtain rfl := Option.some.inj h
      exact ⟨f, s, hs, Or.inl rfl⟩

end Loops

end ShortIo
