import LuxPrecompile.Support.Buffers
import LuxPrecompile.Evm.Word
import LuxPrecompile.Inference.Luts

/-!
# The integer kernels

Buffers are lists of `int8`, accumulators are integers that are wrapped where
the code's machine integers are, and indices are computed in 32 bits.  A kernel
returns `none` where the code panics: on an index outside a buffer, a negative
shift count or a division by zero.
-/

namespace LuxPrecompile.Inference

open LuxPrecompile.Evm LuxPrecompile.Buffers

/-! ## Machine integers -/

/-- A 32-bit index. -/
def u32 (x : ℕ) : ℕ := x % 2 ^ 32

/-- Wrapping to a signed 64-bit integer. -/
def int64 (x : ℤ) : ℤ := x.bmod (2 ^ 64)

/-- `v >> shift`, arithmetic; a negative count panics. -/
def shr (v shift : ℤ) : Option ℤ :=
  if shift < 0 then none else some (v / 2 ^ shift.toNat)

/-- `a / b` on `int64`, truncating; a zero divisor panics. -/
def quo64 (a b : ℤ) : Option ℤ := if b = 0 then none else some (int64 (a.tdiv b))

/-- `lut[i]` for a signed index. -/
def lutAt (lut : List ℤ) (i : ℤ) : Option ℤ := if i < 0 then none else lut[i.toNat]?

def satI8 (v : ℤ) : Int8 :=
  if v > 127 then 127 else if v < -128 then -128 else Int8.ofInt v

def satI8FromI64 (v : ℤ) : Int8 :=
  if v > 127 then 127 else if v < -128 then -128 else Int8.ofInt v

/-- `isqrtU64`: the first loop, which looks for the leading bit. -/
def isqrtBit (n bit : UInt64) : UInt64 :=
  if bit > n then isqrtBit n (bit >>> 2) else bit
termination_by bit.toNat
decreasing_by
  rename_i h
  have hpos : 0 < bit.toNat := Nat.lt_of_le_of_lt (Nat.zero_le _) (UInt64.lt_iff_toNat_lt.mp h)
  simp only [UInt64.toNat_shiftRight, Nat.shiftRight_eq_div_pow]
  exact Nat.div_lt_self hpos (by decide)

/-- `isqrtU64`: the second loop. -/
def isqrtLoop (n res bit : UInt64) : UInt64 :=
  if bit = 0 then res
  else if n ≥ res + bit then isqrtLoop (n - (res + bit)) ((res >>> 1) + bit) (bit >>> 2)
  else isqrtLoop n (res >>> 1) (bit >>> 2)
termination_by bit.toNat
decreasing_by
  all_goals
    rename_i h _
    have hpos : 0 < bit.toNat := Nat.pos_of_ne_zero fun h0 => h (UInt64.toNat_inj.mp h0)
    simp only [UInt64.toNat_shiftRight, Nat.shiftRight_eq_div_pow]
    exact Nat.div_lt_self hpos (by decide)

def isqrtU64 (n : UInt64) : UInt64 := isqrtLoop n 0 (isqrtBit n ((1 : UInt64) <<< (62 : UInt64)))

/-! ## Matrix product -/

/-- The value `gemmI8` stores at row `mi` and column `ni`. -/
def gemmCell (a bt : List Int8) (bias : List ℤ) (mi ni k : ℕ) (shift : ℤ) : Option Int8 := do
  let acc ← bias[ni]?
  let acc ← loop k (fun ki acc => do
    let x ← a[u32 (mi * k + ki)]?
    let y ← bt[u32 (ni * k + ki)]?
    some (int32 (acc + x.toInt * y.toInt))) acc
  let acc ← shr acc shift
  some (satI8 acc)

def gemmI8 (a bt : List Int8) (bias : List ℤ) (c : List Int8) (m n k : ℕ) (shift : ℤ) :
    Option (List Int8) :=
  loop m (fun mi => loop n (fun ni c =>
    gemmCell a bt bias mi ni k shift >>= store c (u32 (mi * n + ni)))) c

/-! ## Normalisation -/

/-- The divisor of one row. -/
def rmsDenom (ss eps : ℤ) : ℤ :=
  let denom := int64 (isqrtU64 (UInt64.ofInt (int64 (ss + eps)))).toNat
  if denom = 0 then 1 else denom

/-- One row of length `d`. -/
def rmsnormI8 (x w out : List Int8) (d : ℕ) (mult eps : ℤ) : Option (List Int8) := do
  let ss ← loop d (fun ki ss => do
    let xv ← x[ki]?
    some (int64 (ss + int64 (xv.toInt * xv.toInt)))) 0
  loop d (fun i out => (do
    let xi ← x[i]?
    let wi ← w[i]?
    let q ← quo64 (int64 (int64 (xi.toInt * wi.toInt) * mult)) (rmsDenom ss eps)
    some (satI8FromI64 q)) >>= store out i) out

/-! ## Attention -/

/-- The entry of the exponential table for a score. -/
def expAt (lut score : List ℤ) (mx : ℤ) (j : ℕ) : Option ℤ := do
  let sj ← score[j]?
  let d2 := int32 (mx - sj)
  lutAt lut (if d2 > 255 then 255 else d2)

/-- The score of row `ti` against row `j`. -/
def scoreOf (q k : List Int8) (ti j d : ℕ) (qkShift : ℤ) : Option ℤ := do
  let acc ← loop d (fun ki acc => do
    let x ← q[u32 (ti * d + ki)]?
    let y ← k[u32 (j * d + ki)]?
    some (int32 (acc + x.toInt * y.toInt))) 0
  let acc ← shr acc qkShift
  some (satI8 acc).toInt

/-- The scores of row `ti` against the rows up to `jmax`, with the greatest. -/
def scoreRow (q k : List Int8) (score : List ℤ) (ti jmax d : ℕ) (qkShift : ℤ) :
    Option (ℤ × List ℤ) :=
  loop (jmax + 1) (fun j s => do
    let sc ← scoreOf q k ti j d qkShift
    let score ← store s.2 j sc
    some (if sc > s.1 then sc else s.1, score)) (-128, score)

/-- The value `attentionI8` stores at a row's column `ki`. -/
def attendCell (v : List Int8) (lut score : List ℤ) (mx sum : ℤ) (jmax d ki : ℕ)
    (ovShift : ℤ) : Option Int8 := do
  let oacc ← loop (jmax + 1) (fun j oacc => do
    let e ← expAt lut score mx j
    let p ← quo64 (int64 (int64 (e * 127) + sum.tdiv 2)) sum
    let x ← v[u32 (j * d + ki)]?
    some (int32 (oacc + int32 (int32 p * x.toInt)))) 0
  let oacc ← shr oacc ovShift
  some (satI8 oacc)

/-- The body of `attentionI8` for row `ti`: the scores are kept in one buffer for all rows. -/
def attentionRow (q k v : List Int8) (lut : List ℤ) (t d : ℕ) (qkShift ovShift : ℤ)
    (causal : Bool) (ti : ℕ) (s : List ℤ × List Int8) : Option (List ℤ × List Int8) := do
  let jmax := if causal then ti else t - 1
  let row ← scoreRow q k s.1 ti jmax d qkShift
  let sum ← loop (jmax + 1) (fun j sum => do
    let e ← expAt lut row.2 row.1 j
    some (int64 (sum + e))) 0
  let sum := if sum = 0 then 1 else sum
  let out ← loop d (fun ki out =>
    attendCell v lut row.2 row.1 sum jmax d ki ovShift >>= store out (u32 (ti * d + ki))) s.2
  some (row.2, out)

/-- Single-head attention. -/
def attentionI8 (q k v : List Int8) (lut : List ℤ) (out : List Int8) (t d : ℕ)
    (qkShift ovShift : ℤ) (causal : Bool) : Option (List Int8) := do
  let s ← loop t (attentionRow q k v lut t d qkShift ovShift causal) (List.replicate t 0, out)
  some s.2

/-! ## Elementwise kernels -/

def swigluI8 (gate up : List Int8) (lut : List ℤ) (out : List Int8) (n : ℕ) (shift : ℤ) :
    Option (List Int8) :=
  loop n (fun i out => (do
    let g ← gate[i]?
    let s ← lutAt lut (int32 (g.toInt + 128))
    let u ← up[i]?
    let v ← shr (int32 (s * u.toInt)) shift
    some (satI8 v)) >>= store out i) out

/-- `residualAddI8(a, b, a, n)`: both callers pass the first operand as the output. -/
def residualAddI8 (a b : List Int8) (n : ℕ) : Option (List Int8) :=
  loop n (fun i a => (do
    let x ← a[i]?
    let y ← b[i]?
    some (satI8 (int32 (x.toInt + y.toInt)))) >>= store a i) a

/-- A token as the row of the embedding table it selects. -/
def tokenRow (token : Int32) : ℕ := token.toUInt32.toNat

def embedGather (tokens : List Int32) (table out : List Int8) (t d : ℕ) : Option (List Int8) :=
  loop t (fun ti out => do
    let tok ← tokens[ti]?
    loop d (fun ki out =>
      table[u32 (tokenRow tok * d + ki)]? >>= store out (u32 (ti * d + ki))) out) out

/-- The first index of the greatest logit. -/
def argmaxI8 (logits : List Int8) (n : ℕ) : Option Int32 := do
  let bv ← logits[0]?
  let s ← loop (n - 1) (fun i s => do
    let v ← logits[i + 1]?
    some (if v.toInt > s.2 then (Int32.ofNat (i + 1), v.toInt) else s)) ((0 : Int32), bv.toInt)
  some s.1

end LuxPrecompile.Inference
