import Mathlib

/-!
# Memory images

How a value lies in memory, byte by byte, and what becomes of it when other bytes are laid over the
image.  The file mentions no particular program.

* `leBytes`, `ofLe`: little-endian numbers; `ofLe_leBytes` is the round trip.
* `Codec`: the size of an image, the image of a value, and the value after an image has been loaded
  over it.  A codec may leave out parts of a value (a pointer, the entries past the end of a table):
  `Same` compares the rest, and `Fits` says which values the image can hold.
* `le`, `int32`, `raw`, `skip`, `pair`, `array`, `via`, `onto`: the codecs of fields, and their
  composition.
-/

/-! ## Numbers -/

/-- The `n` low bytes of a number, the lowest first. -/
def leBytes : ℕ → ℕ → List UInt8
  | 0, _ => []
  | n + 1, a => UInt8.ofNat a :: leBytes n (a / 256)

/-- The number that little-endian bytes spell. -/
def ofLe : List UInt8 → ℕ
  | [] => 0
  | b :: l => b.toNat + 256 * ofLe l

@[simp] theorem length_leBytes (n a : ℕ) : (leBytes n a).length = n := by
  induction n generalizing a with
  | zero => rfl
  | succ n ih => rw [leBytes, List.length_cons, ih]

theorem ofLe_leBytes (n a : ℕ) : ofLe (leBytes n a) = a % 256 ^ n := by
  induction n generalizing a with
  | zero => rw [leBytes, ofLe, pow_zero, Nat.mod_one]
  | succ n ih =>
    have hbyte : (UInt8.ofNat a).toNat = a % 256 := UInt8.toNat_ofNat'
    rw [leBytes, ofLe, ih, hbyte, pow_succ', Nat.mod_mul]

/-! ## Codecs -/

/-- The memory image of the values of a type. -/
structure Codec (α : Type) where
  size : ℕ
  encode : α → List UInt8
  /-- The value after an image has been loaded over it. -/
  load : List UInt8 → α → α
  /-- Two values agree in all that the image holds. -/
  Same : α → α → Prop
  /-- The image can hold the value. -/
  Fits : α → Prop
  length_encode : ∀ a, (encode a).length = size
  load_encode : ∀ a b, Fits a → Same (load (encode a) b) a

namespace Codec

variable {α β : Type}

/-- Some bytes are laid over the front of the image of a value. -/
def overlay (c : Codec α) (bytes : List UInt8) (a : α) : α :=
  c.load (bytes ++ (c.encode a).drop bytes.length) a

/-- A whole image leaves nothing of the old value. -/
theorem overlay_full (c : Codec α) {bytes : List UInt8} (a : α) (h : bytes.length = c.size) :
    c.overlay bytes a = c.load bytes a := by
  rw [overlay, h, List.drop_eq_nil_of_le (c.length_encode a).le, List.append_nil]

/-- An unsigned number of `n` bytes. -/
def le (n : ℕ) : Codec ℕ where
  size := n
  encode a := leBytes n a
  load l _ := ofLe l
  Same := Eq
  Fits a := a < 256 ^ n
  length_encode a := length_leBytes n a
  load_encode a _ h := by rw [ofLe_leBytes, Nat.mod_eq_of_lt h]

/-- A signed number of four bytes, in two's complement. -/
def int32 : Codec ℤ where
  size := 4
  encode z := leBytes 4 (z % 2 ^ 32).toNat
  load l _ := if ofLe l < 2 ^ 31 then ofLe l else ofLe l - 2 ^ 32
  Same := Eq
  Fits z := -2 ^ 31 ≤ z ∧ z < 2 ^ 31
  length_encode _ := length_leBytes 4 _
  load_encode z _ h := by
    obtain ⟨h1, h2⟩ := h
    have hmod : (z % 2 ^ 32).toNat % 256 ^ 4 = (z % 2 ^ 32).toNat := by omega
    rw [ofLe_leBytes, hmod]
    split_ifs with hlt <;> omega

/-- Bytes as they are. -/
def raw (n : ℕ) : Codec (Fin n → UInt8) where
  size := n
  encode b := List.ofFn b
  load l _ i := l.getD i 0
  Same := Eq
  Fits _ := True
  length_encode _ := List.length_ofFn
  load_encode b _ _ := by
    funext i
    rw [List.getD_eq_getElem _ _ (by rw [List.length_ofFn]; exact i.isLt), List.getElem_ofFn]

/-- Bytes whose contents nobody looks at. -/
def skip {n : ℕ} (bytes : Fin n → UInt8) : Codec Unit where
  size := n
  encode _ := List.ofFn bytes
  load _ _ := ()
  Same _ _ := True
  Fits _ := True
  length_encode _ := List.length_ofFn
  load_encode _ _ _ := trivial

/-- Two images one after the other. -/
def pair (c : Codec α) (d : Codec β) : Codec (α × β) where
  size := c.size + d.size
  encode x := c.encode x.1 ++ d.encode x.2
  load l x := (c.load (l.take c.size) x.1, d.load (l.drop c.size) x.2)
  Same x y := c.Same x.1 y.1 ∧ d.Same x.2 y.2
  Fits x := c.Fits x.1 ∧ d.Fits x.2
  length_encode x := by rw [List.length_append, c.length_encode, d.length_encode]
  load_encode x y h := by
    rw [List.take_left' (c.length_encode _), List.drop_left' (c.length_encode _)]
    exact ⟨c.load_encode _ _ h.1, d.load_encode _ _ h.2⟩

theorem length_flatMap_encode (c : Codec α) (f : ℕ → α) (n : ℕ) :
    ((List.range n).flatMap fun i => c.encode (f i)).length = n * c.size := by
  rw [List.length_flatMap]
  simp only [c.length_encode, List.map_const', List.length_range, List.sum_replicate, smul_eq_mul]

/-- Entry `i` of an image of many entries. -/
theorem take_drop_flatMap (c : Codec α) (f : ℕ → α) (tail : List UInt8) {n i : ℕ} (hi : i < n) :
    (((List.range n).flatMap fun j => c.encode (f j)) ++ tail |>.drop (i * c.size)).take c.size =
      c.encode (f i) := by
  have hsplit : List.range n = List.range i ++ i :: (List.range (n - i - 1)).map (i + 1 + ·) := by
    conv_lhs => rw [show n = i + 1 + (n - i - 1) by omega, List.range_add, List.range_succ]
    rw [List.append_assoc, List.singleton_append]
  rw [hsplit, List.flatMap_append, List.flatMap_cons, List.append_assoc, List.append_assoc,
    List.drop_left' (c.length_flatMap_encode f i),
    List.take_left' (c.length_encode _)]

/-- A table of `n` entries, as a function; what it is from `n` on is left out. -/
def array (n : ℕ) (c : Codec α) : Codec (ℕ → α) where
  size := n * c.size
  encode f := (List.range n).flatMap fun i => c.encode (f i)
  load l f i := if i < n then c.load ((l.drop (i * c.size)).take c.size) (f i) else f i
  Same f g := ∀ i < n, c.Same (f i) (g i)
  Fits f := ∀ i < n, c.Fits (f i)
  length_encode f := c.length_flatMap_encode f n
  load_encode f g h := fun i hi => by
    have hentry := c.take_drop_flatMap f [] hi
    rw [List.append_nil] at hentry
    simp only [if_pos hi, hentry]
    exact c.load_encode _ _ (h i hi)

/-- A type whose values are represented by those of another. -/
def via (c : Codec α) (hc : ∀ a b, c.Same a b → a = b) (repr : β → α) (ofRepr : α → β) :
    Codec β where
  size := c.size
  encode b := c.encode (repr b)
  load l b := ofRepr (c.load l (repr b))
  Same := Eq
  Fits b := c.Fits (repr b) ∧ ofRepr (repr b) = b
  length_encode b := c.length_encode _
  load_encode b b' h := by rw [hc _ _ (c.load_encode (repr b) (repr b') h.1), h.2]

/-- A struct: `get` gives the fields in the order in which they lie in memory, and `set` puts them
back. -/
def onto (c : Codec α) (get : β → α) (set : α → β → β) (h : ∀ a b, get (set a b) = a) :
    Codec β where
  size := c.size
  encode b := c.encode (get b)
  load l b := set (c.load l (get b)) b
  Same b b' := c.Same (get b) (get b')
  Fits b := c.Fits (get b)
  length_encode b := c.length_encode _
  load_encode b b' hb := by
    rw [h]
    exact c.load_encode _ _ hb

/-- Two codecs take the same from an image; what they leave in the gaps may differ. -/
structure LoadsLike (c d : Codec α) : Prop where
  size : c.size = d.size
  load : c.load = d.load

namespace LoadsLike

theorem refl (c : Codec α) : LoadsLike c c := ⟨rfl, rfl⟩

theorem skip {n : ℕ} (b b' : Fin n → UInt8) : LoadsLike (skip b) (skip b') := ⟨rfl, rfl⟩

theorem pair {c c' : Codec α} {d d' : Codec β} (h : LoadsLike c c') (h' : LoadsLike d d') :
    LoadsLike (pair c d) (pair c' d') where
  size := by
    show c.size + d.size = c'.size + d'.size
    rw [h.size, h'.size]
  load := by
    funext l x
    show (c.load (l.take c.size) x.1, d.load (l.drop c.size) x.2) = _
    rw [h.size, h.load, h'.load]
    rfl

theorem array {c d : Codec α} (n : ℕ) (h : LoadsLike c d) : LoadsLike (array n c) (array n d) where
  size := congrArg (n * ·) h.size
  load := by
    funext l f i
    show (if i < n then c.load ((l.drop (i * c.size)).take c.size) (f i) else f i) = _
    rw [h.size, h.load]
    rfl

theorem via {c d : Codec α} (h : LoadsLike c d) (hc : ∀ a b, c.Same a b → a = b)
    (hd : ∀ a b, d.Same a b → a = b) (repr : β → α) (ofRepr : α → β) :
    LoadsLike (c.via hc repr ofRepr) (d.via hd repr ofRepr) where
  size := h.size
  load := by
    funext l b
    show ofRepr (c.load l (repr b)) = ofRepr (d.load l (repr b))
    rw [h.load]

theorem onto {c d : Codec α} (h : LoadsLike c d) (get : β → α) (set : α → β → β)
    (hget : ∀ a b, get (set a b) = a) : LoadsLike (c.onto get set hget) (d.onto get set hget) where
  size := h.size
  load := by
    funext l b
    show set (c.load l (get b)) b = set (d.load l (get b)) b
    rw [h.load]

end LoadsLike

end Codec
