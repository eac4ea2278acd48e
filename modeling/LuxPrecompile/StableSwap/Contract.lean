import LuxPrecompile.Evm.Calldata
import LuxPrecompile.Support.Newton

/-!
# The StableSwap precompile

`src/stableswap/contract.go`: quotes and shares of a Curve-style pool whose coin count,
balances and amplification all come with the call data.  The precompile keeps no state.
Amounts are `big.Int`s, so they are integers of any size; a division by zero and a slice
or an index out of range are panics, which are errors of their own here.
-/

namespace LuxPrecompile.StableSwap

open Evm Support

/-- The errors of the precompile, and a Go panic. -/
inductive Error
  | outOfGas
  | invalidInput
  | invalidIndex
  | zeroLiquidity
  | convergence
  | unknownOp
  | tooManyTokens
  | invalidAmp
  | panic
  deriving DecidableEq, Repr

def gasBase : ℕ := 5000
def maxIterations : ℕ := 256
def maxTokens : ℕ := 8
def gasPerTokenIter : ℕ := 10

/-! ## `big.Int` and slices -/

/-- `big.Int.Div`: Euclidean, and a panic on a zero divisor. -/
def div (x y : ℤ) : Except Error ℤ := if y = 0 then .error .panic else .ok (x / y)

/-- `divCeil`, from the truncated quotient and remainder of `big.Int.QuoRem`. -/
def divCeil (num denom : ℤ) : Except Error ℤ :=
  if denom = 0 then .error .panic
  else
    let z := num.tdiv denom
    .ok (if 0 < num.tmod denom then z + 1 else z)

/-- `padTo32` of a number's `Bytes`: the low 32 bytes of its magnitude. -/
def padTo32 (x : ℤ) : List UInt8 := natToBytes 32 x.natAbs

/-- `data[i:j]`. -/
def cut (data : List UInt8) (i j : ℕ) : Except Error (List UInt8) :=
  if j ≤ data.length then .ok (slice data i j) else .error .panic

/-- `binary.BigEndian.Uint32(data[i:i+4])`. -/
def uint32At (data : List UInt8) (i : ℕ) : Except Error ℕ :=
  (cut data i (i + 4)).map bytesToNat

/-- `new(big.Int).SetBytes(data[i:i+32])`. -/
def wordAt (data : List UInt8) (i : ℕ) : Except Error ℤ :=
  (cut data i (i + 32)).map fun b => (bytesToNat b : ℤ)

/-- `n` words in a row. -/
def wordsAt (data : List UInt8) (off : ℕ) : ℕ → Except Error (List ℤ)
  | 0 => .ok []
  | n + 1 => do
      let x ← wordAt data off
      let xs ← wordsAt data (off + 32) n
      .ok (x :: xs)

/-- `xs[k]`. -/
def entry (xs : List ℤ) (k : ℕ) : Except Error ℤ :=
  match xs[k]? with
  | some x => .ok x
  | none => .error .panic

/-! ## The Newton solvers -/

/-- The stopping test of both solvers. -/
abbrev Close (x y : ℤ) : Prop := |x - y| ≤ 1

/-- One factor of `dP`. -/
def dPStep (d nn dP x : ℤ) : Except Error ℤ :=
  if x = 0 then .error .zeroLiquidity else div (dP * d) (x * nn)

/-- `dP = D^(n+1) / (n^n * prod(x_i))`, one division a balance. -/
def curveProduct (balances : List ℤ) (nn d : ℤ) : Except Error ℤ :=
  balances.foldlM (dPStep d nn) d

def numD (ann nn s d dP : ℤ) : ℤ := (ann * s + nn * dP) * d

def denomD (ann nn d dP : ℤ) : ℤ := (ann - 1) * d + (nn + 1) * dP

/-- A round of `computeD`. -/
def nextD (balances : List ℤ) (ann nn s d : ℤ) : Except Error ℤ := do
  let dP ← curveProduct balances nn d
  div (numD ann nn s d dP) (denomD ann nn d dP)

def computeD (balances : List ℤ) (amp : ℤ) (n : ℕ) : Except Error ℤ :=
  let s := balances.sum
  if s = 0 then .ok 0
  else seek (nextD balances (amp * n) n s) Close .convergence maxIterations s

/-- A balance's part in `c` and in the sum. -/
def otherFactor (nn d : ℤ) (cs : ℤ × ℤ) (x : ℤ) : Except Error (ℤ × ℤ) :=
  if x = 0 then .error .zeroLiquidity
  else do
    let c ← div (cs.1 * d) (x * nn)
    .ok (c, cs.2 + x)

/-- A round of the loop over the balances, which passes token `j` over. -/
def otherStep (balances : List ℤ) (nn d : ℤ) (j : ℕ) (cs : ℤ × ℤ) (k : ℕ) :
    Except Error (ℤ × ℤ) :=
  if k = j then .ok cs
  else do
    let x ← entry balances k
    otherFactor nn d cs x

/-- The coefficients `b` and `c` of the quadratic `computeY` solves. -/
def coefficients (balances : List ℤ) (amp : ℤ) (n j : ℕ) (d : ℤ) : Except Error (ℤ × ℤ) := do
  let ann := amp * n
  let (c, s) ← (List.range n).foldlM (otherStep balances n d j) (d, 0)
  let c ← div (c * d) (ann * n)
  let q ← div d ann
  .ok (s + q, c)

def denomY (b d y : ℤ) : ℤ := 2 * y + b - d

/-- A round of `computeY`. -/
def nextY (b c d y : ℤ) : Except Error ℤ :=
  if denomY b d y ≤ 0 then .error .convergence else divCeil (y * y + c) (denomY b d y)

def computeY (balances : List ℤ) (amp : ℤ) (n j : ℕ) (d : ℤ) : Except Error ℤ := do
  let (b, c) ← coefficients balances amp n j d
  seek (nextY b c d) Close .convergence maxIterations d

/-! ## Entry points

Every entry point returns its bytes and the gas left; an error leaves gas too. -/

/-- An error that leaves `gas`. -/
def leaving {α : Type} (gas : ℕ) : Except Error α → Except (Error × ℕ) α
  | .ok a => .ok a
  | .error e => .error (e, gas)

/-- `contract.DeductGas`; every caller leaves no gas on its error. -/
def deductGas : ℕ → ℕ → Except (Error × ℕ) ℕ := chargeGas (Error.outOfGas, 0)

def readAmp (b : List UInt8) : Except Error ℤ :=
  let amp : ℤ := bytesToNat b
  if amp ≤ 0 then .error .invalidAmp else .ok amp

def chargeNewtonGas (gas n solves : ℕ) : Except (Error × ℕ) ℕ :=
  deductGas gas (solves * n * maxIterations * gasPerTokenIter)

/-- The arithmetic of `getDy`. -/
def quote (balances : List ℤ) (amp : ℤ) (n i j : ℕ) (dx : ℤ) : Except Error ℤ := do
  let d ← computeD balances amp n
  let x ← entry balances i
  let y ← computeY (balances.set i (x + dx)) amp n j d
  let bal ← entry balances j
  -- A balance below `y` quotes zero.
  .ok (max (bal - y - 1) 0)

def getDy (data : List UInt8) (gas : ℕ) : Except (Error × ℕ) (List UInt8 × ℕ) :=
  if data.length < 76 then .error (.invalidInput, gas)
  else do
    let i ← leaving gas (uint32At data 0)
    let j ← leaving gas (uint32At data 4)
    let dx ← leaving gas (wordAt data 8)
    let n ← leaving gas (uint32At data 40)
    let b ← leaving gas (cut data 44 76)
    let amp ← leaving gas (readAmp b)
    if n < 2 ∨ data.length < 76 + n * 32 then .error (.invalidInput, gas)
    else if maxTokens < n then .error (.tooManyTokens, gas)
    else if n ≤ i ∨ n ≤ j ∨ i = j then .error (.invalidIndex, gas)
    else do
      let gas ← chargeNewtonGas gas n 2
      let balances ← leaving gas (wordsAt data 76 n)
      let dy ← leaving gas (quote balances amp n i j dx)
      .ok (padTo32 dy, gas)

/-- The arithmetic of `addLiquidity`. -/
def mintFor (amounts balances : List ℤ) (amp : ℤ) (n : ℕ) (totalSupply : ℤ) :
    Except Error ℤ := do
  let d0 ← computeD balances amp n
  let d1 ← computeD (List.zipWith (· + ·) balances amounts) amp n
  if totalSupply = 0 then .ok d1
  else if d0 = 0 then .error .zeroLiquidity
  else div (totalSupply * (d1 - d0)) d0

def addLiquidity (data : List UInt8) (gas : ℕ) : Except (Error × ℕ) (List UInt8 × ℕ) :=
  if data.length < 68 then .error (.invalidInput, gas)
  else do
    let n ← leaving gas (uint32At data 0)
    let b ← leaving gas (cut data 4 36)
    let amp ← leaving gas (readAmp b)
    let totalSupply ← leaving gas (wordAt data 36)
    if n < 2 ∨ data.length < 68 + 2 * n * 32 then .error (.invalidInput, gas)
    else if maxTokens < n then .error (.tooManyTokens, gas)
    else do
      let gas ← chargeNewtonGas gas n 2
      let amounts ← leaving gas (wordsAt data 68 n)
      let balances ← leaving gas (wordsAt data (68 + n * 32) n)
      let mint ← leaving gas (mintFor amounts balances amp n totalSupply)
      .ok (padTo32 mint, gas)

/-- The proportional shares of `removeLiquidity`, one word a token. -/
def shares (lpAmount totalSupply : ℤ) : List ℤ → Except Error (List UInt8)
  | [] => .ok []
  | x :: xs => do
      let amt ← div (x * lpAmount) totalSupply
      let rest ← shares lpAmount totalSupply xs
      .ok (padTo32 amt ++ rest)

def removeLiquidity (data : List UInt8) (gas : ℕ) : Except (Error × ℕ) (List UInt8 × ℕ) :=
  if data.length < 68 then .error (.invalidInput, gas)
  else do
    let n ← leaving gas (uint32At data 0)
    let lpAmount ← leaving gas (wordAt data 4)
    let totalSupply ← leaving gas (wordAt data 36)
    if n < 2 ∨ data.length < 68 + n * 32 then .error (.invalidInput, gas)
    else if maxTokens < n then .error (.tooManyTokens, gas)
    else if totalSupply = 0 then .error (.zeroLiquidity, gas)
    else do
      let balances ← leaving gas (wordsAt data 68 n)
      let result ← leaving gas (shares lpAmount totalSupply balances)
      .ok (result, gas)

def getD (data : List UInt8) (gas : ℕ) : Except (Error × ℕ) (List UInt8 × ℕ) :=
  if data.length < 36 then .error (.invalidInput, gas)
  else do
    let n ← leaving gas (uint32At data 0)
    let b ← leaving gas (cut data 4 36)
    let amp ← leaving gas (readAmp b)
    if n < 2 ∨ data.length < 36 + n * 32 then .error (.invalidInput, gas)
    else if maxTokens < n then .error (.tooManyTokens, gas)
    else do
      let gas ← chargeNewtonGas gas n 1
      let balances ← leaving gas (wordsAt data 36 n)
      let d ← leaving gas (computeD balances amp n)
      .ok (padTo32 d, gas)

def run (input : List UInt8) (suppliedGas : ℕ) : Except (Error × ℕ) (List UInt8 × ℕ) := do
  let gas ← deductGas suppliedGas gasBase
  match input with
  | [] => .error (.invalidInput, gas)
  | op :: data =>
      match op.toNat with
      | 0x01 => getDy data gas
      | 0x02 => addLiquidity data gas
      | 0x03 => removeLiquidity data gas
      | 0x04 => getD data gas
      | _ => .error (.unknownOp, gas)

end LuxPrecompile.StableSwap
