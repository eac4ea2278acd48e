import LuxPrecompile.Inference.Kernels

/-!
# The transformer

The layers chain the kernels over scratch buffers that live for a whole step.
One vector of zeros, as long as the greater of the vocabulary and the hidden
size, is the bias of every product.
-/

namespace LuxPrecompile.Inference

open LuxPrecompile.Buffers

structure ModelConfig where
  vocab : UInt32
  dim : UInt32
  hidden : UInt32
  nLayers : UInt32
  gemmShift : Int32
  gemmShiftH : Int32
  lmShift : Int32
  rmsMult : Int32
  rmsEps : Int32
  qkShift : Int32
  ovShift : Int32
  swigluShift : Int32

/-- Row-major; per-layer arrays are concatenated by layer. -/
structure Weights where
  embed : List Int8
  rms1 : List Int8
  wq : List Int8
  wk : List Int8
  wv : List Int8
  wo : List Int8
  rms2 : List Int8
  wgate : List Int8
  wup : List Int8
  wdown : List Int8
  rmsf : List Int8
  wlm : List Int8

structure Model where
  cfg : ModelConfig
  w : Weights

/-- The buffers of one step. -/
structure Scratch where
  x : List Int8
  hh : List Int8
  q : List Int8
  k : List Int8
  v : List Int8
  attn : List Int8
  tmp : List Int8
  h2 : List Int8
  gate : List Int8
  up : List Int8
  act : List Int8
  mlp : List Int8

def maxu32 (a b : UInt32) : UInt32 := if a > b then a else b

/-- `make([]int8, n)`. -/
def zeros (n : ℕ) : List Int8 := List.replicate n 0

/-- The loop that normalises the rows of `x` into those of `out`. -/
def rmsnormRows (x w out : List Int8) (t d off : ℕ) (mult eps : ℤ) : Option (List Int8) :=
  loop t (fun ti out => do
    let xr ← sliceFrom x (u32 (ti * d))
    let wr ← sliceFrom w off
    let outr ← sliceFrom out (u32 (ti * d))
    let outr ← rmsnormI8 xr wr outr d mult eps
    some (out.take (u32 (ti * d)) ++ outr)) out

namespace Model

variable (m : Model)

/-- `zb`. -/
def zeroBias : List ℤ := List.replicate (maxu32 m.cfg.vocab m.cfg.hidden).toNat 0

/-- The buffers before the layers: the embedded tokens, and zeros. -/
def embedded (tokens : List Int32) : Option Scratch := do
  let t := u32 tokens.length
  let d := m.cfg.dim.toNat
  let h := m.cfg.hidden.toNat
  let x ← embedGather tokens m.w.embed (zeros (u32 (t * d))) t d
  some {
    x := x
    hh := zeros (u32 (t * d))
    q := zeros (u32 (t * d))
    k := zeros (u32 (t * d))
    v := zeros (u32 (t * d))
    attn := zeros (u32 (t * d))
    tmp := zeros (u32 (t * d))
    h2 := zeros (u32 (t * d))
    gate := zeros (u32 (t * h))
    up := zeros (u32 (t * h))
    act := zeros (u32 (t * h))
    mlp := zeros (u32 (t * d)) }

/-- The first half of layer `l`. -/
def attentionBlock (t l : ℕ) (b : Scratch) : Option Scratch := do
  let d := m.cfg.dim.toNat
  let shift := m.cfg.gemmShift.toInt
  let hh ← rmsnormRows b.x m.w.rms1 b.hh t d (u32 (l * d)) m.cfg.rmsMult.toInt m.cfg.rmsEps.toInt
  let wq ← sliceFrom m.w.wq (u32 (l * d * d))
  let q ← gemmI8 hh wq m.zeroBias b.q t d d shift
  let wk ← sliceFrom m.w.wk (u32 (l * d * d))
  let k ← gemmI8 hh wk m.zeroBias b.k t d d shift
  let wv ← sliceFrom m.w.wv (u32 (l * d * d))
  let v ← gemmI8 hh wv m.zeroBias b.v t d d shift
  let attn ← attentionI8 q k v aivmExpLUT b.attn t d m.cfg.qkShift.toInt m.cfg.ovShift.toInt true
  let wo ← sliceFrom m.w.wo (u32 (l * d * d))
  let tmp ← gemmI8 attn wo m.zeroBias b.tmp t d d shift
  let x ← residualAddI8 b.x tmp (u32 (t * d))
  some { b with x := x, hh := hh, q := q, k := k, v := v, attn := attn, tmp := tmp }

/-- The second half of layer `l`. -/
def mlpBlock (t l : ℕ) (b : Scratch) : Option Scratch := do
  let d := m.cfg.dim.toNat
  let h := m.cfg.hidden.toNat
  let shift := m.cfg.gemmShift.toInt
  let h2 ← rmsnormRows b.x m.w.rms2 b.h2 t d (u32 (l * d)) m.cfg.rmsMult.toInt m.cfg.rmsEps.toInt
  let wgate ← sliceFrom m.w.wgate (u32 (l * h * d))
  let gate ← gemmI8 h2 wgate m.zeroBias b.gate t h d shift
  let wup ← sliceFrom m.w.wup (u32 (l * h * d))
  let up ← gemmI8 h2 wup m.zeroBias b.up t h d shift
  let act ← swigluI8 gate up aivmSiluLUT b.act (u32 (t * h)) m.cfg.swigluShift.toInt
  let wdown ← sliceFrom m.w.wdown (u32 (l * d * h))
  let mlp ← gemmI8 act wdown m.zeroBias b.mlp t d h m.cfg.gemmShiftH.toInt
  let x ← residualAddI8 b.x mlp (u32 (t * d))
  some { b with x := x, h2 := h2, gate := gate, up := up, act := act, mlp := mlp }

/-- Layer `l`. -/
def layer (t l : ℕ) (b : Scratch) : Option Scratch := m.attentionBlock t l b >>= m.mlpBlock t l

/-- The buffers after the first `n` layers. -/
def layers (tokens : List Int32) (n : ℕ) : Option Scratch :=
  m.embedded tokens >>= loop n (m.layer (u32 tokens.length))

/-- The logits of the last position. -/
def logits (t : ℕ) (b : Scratch) : Option (List Int8) := do
  let d := m.cfg.dim.toNat
  let xr ← sliceFrom b.x (u32 (u32 (t + (2 ^ 32 - 1)) * d))
  let xf ← rmsnormI8 xr m.w.rmsf (zeros d) d m.cfg.rmsMult.toInt m.cfg.rmsEps.toInt
  gemmI8 xf m.w.wlm m.zeroBias (zeros m.cfg.vocab.toNat) 1 m.cfg.vocab.toNat d
    m.cfg.lmShift.toInt

/-- `step`: the next greedy token. -/
def step (tokens : List Int32) : Option Int32 := do
  let b ← m.layers tokens m.cfg.nLayers.toNat
  let logits ← m.logits (u32 tokens.length) b
  argmaxI8 logits m.cfg.vocab.toNat

def generate (prompt : List Int32) (nNew : ℕ) : Option (List Int32) :=
  loop nNew (fun _ out => do
    let token ← m.step out
    some (out ++ [token])) prompt

end Model

/-! ## The built-in reference model -/

/-- The state of the generator after one step. -/
def lcgNext (s : UInt64) : UInt64 := s * 6364136223846793005 + 1442695040888963407

/-- `i8`: the high word of the state, reduced to a byte around zero. -/
def lcgI8 (s : UInt64) : Int8 := Int8.ofInt (((s >>> 32).toUInt32 % 256).toNat - 128)

/-- `fill`, with the state it leaves. -/
def fill : ℕ → UInt64 → List Int8 × UInt64
  | 0, s => ([], s)
  | n + 1, s => (lcgI8 (lcgNext s) :: (fill n (lcgNext s)).1, (fill n (lcgNext s)).2)

@[simp]
theorem length_fill (n : ℕ) (s : UInt64) : (fill n s).1.length = n := by
  induction n generalizing s with
  | zero => rfl
  | succ n ih => rw [fill, List.length_cons, ih]

def fixtureConfig : ModelConfig where
  vocab := 48
  dim := 32
  hidden := 64
  nLayers := 2
  gemmShift := 9
  gemmShiftH := 9
  lmShift := 9
  rmsMult := 5
  rmsEps := 16
  qkShift := 9
  ovShift := 7
  swigluShift := 6

/-- The arrays are filled one after another from one generator. -/
def fixtureModel : Model :=
  let embed := fill (48 * 32) ((0x70E711A0BEEF1234 : UInt64) ||| 1)
  let rms1 := fill (2 * 32) embed.2
  let wq := fill (2 * 32 * 32) rms1.2
  let wk := fill (2 * 32 * 32) wq.2
  let wv := fill (2 * 32 * 32) wk.2
  let wo := fill (2 * 32 * 32) wv.2
  let rms2 := fill (2 * 32) wo.2
  let wgate := fill (2 * 64 * 32) rms2.2
  let wup := fill (2 * 64 * 32) wgate.2
  let wdown := fill (2 * 32 * 64) wup.2
  let rmsf := fill 32 wdown.2
  let wlm := fill (48 * 32) rmsf.2
  { cfg := fixtureConfig
    w := {
      embed := embed.1
      rms1 := rms1.1
      wq := wq.1
      wk := wk.1
      wv := wv.1
      wo := wo.1
      rms2 := rms2.1
      wgate := wgate.1
      wup := wup.1
      wdown := wdown.1
      rmsf := rmsf.1
      wlm := wlm.1 } }

end LuxPrecompile.Inference
