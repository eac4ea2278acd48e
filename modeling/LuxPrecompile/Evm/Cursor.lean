import LuxPrecompile.Evm.Calldata
import LuxPrecompile.Support.Slices

/-!
# The cursor

`contract/cursor.go`, with its 64-bit integers and with slices that reach up to their capacity.
A cursor stands at a place of its input.  A read that is refused leaves it there, and one that
succeeds returns what lies between that place and the next.
-/

namespace LuxPrecompile.Wire

open Evm Support

/-- `ErrShort` and `ErrTrailing`. -/
inductive Error
  | short
  | trailing
deriving DecidableEq, Repr

/-- `Cursor`. -/
structure Cursor where
  buf : Slice UInt8
  off : Int64

/-- A read moves the cursor; `none` is a panic. -/
def Read (α : Type) : Type := Cursor → Option (Except Error α × Cursor)

namespace Read

variable {α β : Type}

/-- A read that refuses where `x` does, and goes on with what `x` returns. -/
def bind (x : Read α) (f : α → Read β) : Read β := fun c =>
  match x c with
  | none => none
  | some (.error why, c') => some (.error why, c')
  | some (.ok a, c') => f a c'

/-- `l[i]`. -/
def item (l : List α) (i : ℕ) : Read α := fun c =>
  match l[i]? with
  | none => none
  | some a => some (.ok a, c)

instance : Monad Read where
  pure a := fun c => some (.ok a, c)
  bind := bind

theorem pure_apply (a : α) (c : Cursor) : (pure a : Read α) c = some (.ok a, c) := rfl

theorem bind_of_ok {x : Read α} {f : α → Read β} {c c' : Cursor} {a : α}
    (h : x c = some (.ok a, c')) : (x >>= f) c = f a c' := by
  change bind x f c = f a c'
  rw [bind, h]

theorem bind_of_error {x : Read α} {f : α → Read β} {c c' : Cursor} {why : Error}
    (h : x c = some (.error why, c')) : (x >>= f) c = some (.error why, c') := by
  change bind x f c = some (.error why, c')
  rw [bind, h]

end Read

namespace Cursor

/-! ## Reads -/

def read (b : Slice UInt8) : Cursor := ⟨b, 0⟩

def len (c : Cursor) : Int64 := Int64.ofNat c.buf.len - c.off

/-- `s[i:j:k]` for machine integers. -/
def cutAt (s : Slice UInt8) (i j k : Int64) : Option (Slice UInt8) :=
  if 0 ≤ i ∧ 0 ≤ j ∧ 0 ≤ k then
    match (s.cut i.toInt.toNat j.toInt.toNat k.toInt.toNat : Checked Empty (Slice UInt8)) with
    | .ok w => some w
    | .error _ => none
  else none

def take (n : UInt64) : Read (Slice UInt8) := fun c =>
  let lo := c.off
  let hi := lo + n.toInt64
  match cutAt c.buf lo hi hi with
  | none => none
  | some w => some (.ok w, { c with off := hi })

def bytes (n : UInt64) : Read (Slice UInt8) := fun c =>
  if n > c.len.toUInt64 then some (.error .short, c) else take n c

def byte : Read UInt8 := do
  let b ← bytes 1
  Read.item b.toList 0

def uint16 : Read UInt16 := do
  let b ← bytes 2
  pure (UInt16.ofNat (bytesToNat b.toList))

def uint32 : Read UInt32 := do
  let b ← bytes 4
  pure (bytesToUint32 b.toList)

def uint64 : Read UInt64 := do
  let b ← bytes 8
  pure (bytesToUint64 b.toList)

/-- The loop of `Fields`. -/
def takes (w : UInt64) : ℕ → Read (List (Slice UInt8))
  | 0 => pure []
  | n + 1 => do
      let field ← take w
      let others ← takes w n
      pure (field :: others)

def fields (n w : UInt64) : Read (List (Slice UInt8)) := fun c =>
  if w = 0 then some (.ok [], c)
  else if n > c.len.toUInt64 / w then some (.error .short, c)
  else takes w n.toNat c

/-- `Rest`; `none` is nil. -/
def rest : Read (Option (Slice UInt8)) := fun c =>
  match bytes c.len.toUInt64 c with
  | none => none
  | some (.error _, c') => some (.ok none, c')
  | some (.ok b, c') => some (.ok (some b), c')

/-- `End`. -/
def finish : Read Unit := fun c =>
  if c.len ≠ 0 then some (.error .trailing, c) else some (.ok (), c)

/-- `n` successive reads of `Bytes(w)`. -/
def successive (w : UInt64) : ℕ → Read (List (Slice UInt8))
  | 0 => pure []
  | n + 1 => do
      let field ← bytes w
      let others ← successive w n
      pure (field :: others)

/-! ## Places -/

/-- The cursor stands at the place `k` of the input `b`. -/
structure At (c : Cursor) (b : Slice UInt8) (k : ℕ) : Prop where
  buf : c.buf = b
  off : c.off = Int64.ofNat k
  le : k ≤ b.len

theorem read_at (b : Slice UInt8) : (read b).At b 0 := ⟨rfl, rfl, Nat.zero_le _⟩

section Place

variable {c : Cursor} {b : Slice UInt8} {k : ℕ}

theorem At.len (h : c.At b k) : c.len = Int64.ofNat (b.len - k) := by
  rw [Cursor.len, h.buf, h.off, Int64.ofNat_sub _ _ h.le]

theorem At.toNat_len (h : c.At b k) : c.len.toUInt64.toNat = b.len - k := by
  have hlt := b.len_lt
  rw [h.len, Int64.toUInt64_ofNat', uint64_toNat_ofNat (by omega)]

theorem toInt_toNat_ofNat {n : ℕ} (h : n < 2 ^ 63) : (Int64.ofNat n).toInt.toNat = n := by
  rw [Int64.toInt_ofNat_of_lt h, Int.toNat_natCast]

theorem ofNat_nonneg {n : ℕ} (h : n < 2 ^ 63) : 0 ≤ Int64.ofNat n := by
  rw [Int64.le_iff_toInt_le, Int64.toInt_ofNat_of_lt h]
  exact Int.natCast_nonneg n

/-- What is taken inside the input is its part from one place to the next. -/
theorem At.take (h : c.At b k) {n : UInt64} (hn : k + n.toNat ≤ b.len) :
    ∃ w c', Cursor.take n c = some (.ok w, c') ∧ c'.At b (k + n.toNat) ∧
      b.IsPart k (k + n.toNat) w ∧ w.cap = w.hi := by
  have hlt := b.len_lt
  have hint : n.toInt64 = Int64.ofNat n.toNat := by
    rw [← UInt64.toInt64_ofNat', UInt64.ofNat_toNat]
  have hhi : c.off + n.toInt64 = Int64.ofNat (k + n.toNat) := by
    rw [h.off, hint, Int64.ofNat_add]
  obtain ⟨w, hcut, hpart, hcap⟩ := Slice.cut_of_le (ε := Empty) (Nat.le_add_right k n.toNat) hn
    le_rfl (hn.trans b.len_le_room)
  have hcutAt : cutAt b (Int64.ofNat k) (Int64.ofNat (k + n.toNat))
      (Int64.ofNat (k + n.toNat)) = some w := by
    rw [cutAt, if_pos ⟨ofNat_nonneg (by omega), ofNat_nonneg (by omega), ofNat_nonneg (by omega)⟩,
      toInt_toNat_ofNat (by omega), toInt_toNat_ofNat (by omega), hcut]
  refine ⟨w, { c with off := Int64.ofNat (k + n.toNat) }, ?_, ⟨h.buf, rfl, hn⟩, hpart, ?_⟩
  · rw [Cursor.take, hhi, h.buf, h.off, hcutAt]
  · rw [hcap, hpart.hi]

end Place

end Cursor

end LuxPrecompile.Wire
