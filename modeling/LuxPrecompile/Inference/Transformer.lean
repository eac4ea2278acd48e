import LuxPrecompile.Support.Causal
import LuxPrecompile.Inference.Model
import LuxPrecompile.Inference.Rows

/-!
# The transformer as a map of rows

Without buffers and indices a layer maps the rows of activations to rows of
activations.  It is causal: a row of its result depends on the rows up to it.
-/

namespace LuxPrecompile.Inference

open LuxPrecompile.Support

section Congruence

variable {lut : List ℤ} {score score' : ℕ → ℤ} {v v' : ℕ → Row} {n : ℕ}

theorem topScore_congr (h : ∀ j < n, score j = score' j) :
    topScore score n = topScore score' n :=
  List.foldl_ext _ _ _ fun mx j hj => by rw [h j (List.mem_range.mp hj)]

theorem expSum_congr (h : ∀ j < n, score j = score' j) :
    expSum lut score n = expSum lut score' n := by
  have hfold : (List.range n).foldl
        (fun sum j => int64 (sum + expOf lut (topScore score n) (score j))) 0 =
      (List.range n).foldl
        (fun sum j => int64 (sum + expOf lut (topScore score' n) (score' j))) 0 :=
    List.foldl_ext _ _ _ fun sum j hj => by rw [topScore_congr h, h j (List.mem_range.mp hj)]
  rw [expSum, expSum, hfold]

theorem weigh_congr (h : ∀ j < n, score j = score' j) (hv : ∀ j < n, v j = v' j) (ki : ℕ) :
    weigh lut score v n ki = weigh lut score' v' n ki :=
  List.foldl_ext _ _ _ fun oacc j hj => by
    rw [topScore_congr h, expSum_congr h, h j (List.mem_range.mp hj),
      hv j (List.mem_range.mp hj)]

end Congruence

theorem causal_attendRow {α : Type*} {q k v : (ℕ → α) → ℕ → Row} (lut : List ℤ) (d : ℕ)
    (qkShift ovShift : ℤ) (hq : Causal q) (hk : Causal k) (hv : Causal v) :
    Causal fun x => attendRow lut d qkShift ovShift (q x) (k x) (v x) := by
  intro i x y hxy
  have hscore : ∀ j < i + 1, scoreAt d qkShift (q x i) (k x j) =
      scoreAt d qkShift (q y i) (k y j) := by
    intro j hj
    rw [hq i x y hxy, hk.agree hxy j (Nat.le_of_lt_succ hj)]
  have hvalue : ∀ j < i + 1, v x j = v y j :=
    fun j hj => hv.agree hxy j (Nat.le_of_lt_succ hj)
  funext ki
  exact congrArg (fun w => satI8 (w / 2 ^ ovShift.toNat)) (weigh_congr hscore hvalue ki)

namespace Model

variable (m : Model)

/-- A row normalised with the weights of layer `l`. -/
def normRow (w : List Int8) (l : ℕ) (x : Row) : Row :=
  rmsRow m.cfg.dim.toNat (w.drop (l * m.cfg.dim.toNat)) m.cfg.rmsMult.toInt m.cfg.rmsEps.toInt x

/-- A row times a square matrix of layer `l`. -/
def projectRow (w : List Int8) (l : ℕ) (x : Row) : Row :=
  gemmRow (w.drop (l * m.cfg.dim.toNat * m.cfg.dim.toNat)) m.cfg.dim.toNat
    m.cfg.gemmShift.toInt x

/-- The rows after the first half of layer `l`. -/
def attentionRows (l : ℕ) (x : ℕ → Row) : ℕ → Row :=
  let hh := fun r => m.normRow m.w.rms1 l (x r)
  let attn := attendRow aivmExpLUT m.cfg.dim.toNat m.cfg.qkShift.toInt m.cfg.ovShift.toInt
    (fun r => m.projectRow m.w.wq l (hh r)) (fun r => m.projectRow m.w.wk l (hh r))
    (fun r => m.projectRow m.w.wv l (hh r))
  fun r => addRow (x r) (m.projectRow m.w.wo l (attn r))

/-- The row after the second half of layer `l`. -/
def mlpRow (l : ℕ) (x : Row) : Row :=
  let d := m.cfg.dim.toNat
  let h := m.cfg.hidden.toNat
  let shift := m.cfg.gemmShift.toInt
  let h2 := m.normRow m.w.rms2 l x
  let gate := gemmRow (m.w.wgate.drop (l * h * d)) d shift h2
  let up := gemmRow (m.w.wup.drop (l * h * d)) d shift h2
  let act := swigluRow aivmSiluLUT m.cfg.swigluShift.toInt gate up
  addRow x (gemmRow (m.w.wdown.drop (l * d * h)) h m.cfg.gemmShiftH.toInt act)

/-- The rows after layer `l`. -/
def layerRows (l : ℕ) (x : ℕ → Row) : ℕ → Row := fun r => m.mlpRow l (m.attentionRows l x r)

/-- The rows after the first `n` layers. -/
def rowsAfter (n : ℕ) (tokens : ℕ → Int32) : ℕ → Row :=
  (List.range n).foldl (fun x l => m.layerRows l x) fun r =>
    embedRow m.w.embed m.cfg.dim.toNat (tokens r)

theorem rowsAfter_succ (n : ℕ) (tokens : ℕ → Int32) :
    m.rowsAfter (n + 1) tokens = m.layerRows n (m.rowsAfter n tokens) := by
  simp [rowsAfter, List.range_succ]

theorem causal_attentionRows (l : ℕ) : Causal (m.attentionRows l) := by
  have hproject : ∀ w : List Int8, Causal fun (x : ℕ → Row) r =>
      m.projectRow w l (m.normRow m.w.rms1 l (x r)) :=
    fun w => Causal.id.map fun x => m.projectRow w l (m.normRow m.w.rms1 l x)
  have hattend := causal_attendRow aivmExpLUT m.cfg.dim.toNat m.cfg.qkShift.toInt
    m.cfg.ovShift.toInt (hproject m.w.wq) (hproject m.w.wk) (hproject m.w.wv)
  exact Causal.id.map₂ addRow (hattend.map (m.projectRow m.w.wo l))

theorem causal_layerRows (l : ℕ) : Causal (m.layerRows l) :=
  (m.causal_attentionRows l).map (m.mlpRow l)

theorem causal_rowsAfter (n : ℕ) : Causal (m.rowsAfter n) :=
  (Causal.iterate m.causal_layerRows n).comp (Causal.id.map _)

end Model

end LuxPrecompile.Inference
