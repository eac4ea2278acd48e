import LuxPrecompile.Inference.Transformer

/-!
# Index safety and causality of the model

A step runs the layers of `Transformer` on buffers: no index leaves its buffer,
and the activations are the rows of that map, so they are causal.  The vector
of zeros that is the bias of every product is shorter than the model is wide
when the width exceeds both the vocabulary and the hidden size; then the first
product of the first layer panics.
-/

namespace LuxPrecompile.Inference

open LuxPrecompile.Support LuxPrecompile.Buffers

/-- A shift count that a 32-bit shift takes. -/
def ValidShift (shift : Int32) : Prop := 0 ≤ shift.toInt ∧ shift.toInt ≤ 31

instance (shift : Int32) : Decidable (ValidShift shift) :=
  inferInstanceAs (Decidable (0 ≤ shift.toInt ∧ shift.toInt ≤ 31))

namespace Model

/-- Positive sizes, shifts in range, products that fit and weights of the documented lengths. -/
structure WellFormed (m : Model) : Prop where
  vocab_pos : 0 < m.cfg.vocab.toNat
  dim_pos : 0 < m.cfg.dim.toNat
  hidden_pos : 0 < m.cfg.hidden.toNat
  gemmShift : ValidShift m.cfg.gemmShift
  gemmShiftH : ValidShift m.cfg.gemmShiftH
  lmShift : ValidShift m.cfg.lmShift
  qkShift : ValidShift m.cfg.qkShift
  ovShift : ValidShift m.cfg.ovShift
  swigluShift : ValidShift m.cfg.swigluShift
  vocab_dim_fits : m.cfg.vocab.toNat * m.cfg.dim.toNat < 2 ^ 32
  dim_dim_fits : m.cfg.nLayers.toNat * m.cfg.dim.toNat * m.cfg.dim.toNat < 2 ^ 32
  hidden_dim_fits : m.cfg.nLayers.toNat * m.cfg.hidden.toNat * m.cfg.dim.toNat < 2 ^ 32
  embed : m.w.embed.length = m.cfg.vocab.toNat * m.cfg.dim.toNat
  rms1 : m.w.rms1.length = m.cfg.nLayers.toNat * m.cfg.dim.toNat
  wq : m.w.wq.length = m.cfg.nLayers.toNat * m.cfg.dim.toNat * m.cfg.dim.toNat
  wk : m.w.wk.length = m.cfg.nLayers.toNat * m.cfg.dim.toNat * m.cfg.dim.toNat
  wv : m.w.wv.length = m.cfg.nLayers.toNat * m.cfg.dim.toNat * m.cfg.dim.toNat
  wo : m.w.wo.length = m.cfg.nLayers.toNat * m.cfg.dim.toNat * m.cfg.dim.toNat
  rms2 : m.w.rms2.length = m.cfg.nLayers.toNat * m.cfg.dim.toNat
  wgate : m.w.wgate.length = m.cfg.nLayers.toNat * m.cfg.hidden.toNat * m.cfg.dim.toNat
  wup : m.w.wup.length = m.cfg.nLayers.toNat * m.cfg.hidden.toNat * m.cfg.dim.toNat
  wdown : m.w.wdown.length = m.cfg.nLayers.toNat * m.cfg.dim.toNat * m.cfg.hidden.toNat
  rmsf : m.w.rmsf.length = m.cfg.dim.toNat
  wlm : m.w.wlm.length = m.cfg.vocab.toNat * m.cfg.dim.toNat

/-- A nonempty sequence of tokens below the vocabulary whose buffers fit. -/
structure Admits (m : Model) (tokens : List Int32) : Prop where
  nonempty : tokens ≠ []
  below : ∀ token ∈ tokens, tokenRow token < m.cfg.vocab.toNat
  dim_fits : tokens.length * m.cfg.dim.toNat < 2 ^ 32
  hidden_fits : tokens.length * m.cfg.hidden.toNat < 2 ^ 32

/-- No panic, tokens below the vocabulary, and activations that later tokens do not change. -/
structure CausalAndSafe (m : Model) : Prop where
  step_below : ∀ tokens, m.Admits tokens →
    ∃ token, m.step tokens = some token ∧ tokenRow token < m.cfg.vocab.toNat
  generate_admits : ∀ prompt nNew, m.Admits prompt →
    (prompt.length + nNew) * m.cfg.dim.toNat < 2 ^ 32 →
    (prompt.length + nNew) * m.cfg.hidden.toNat < 2 ^ 32 →
    ∃ out, m.generate prompt nNew = some out ∧ prompt <+: out ∧
      out.length = prompt.length + nNew ∧ m.Admits out
  causal : ∀ tokens tokens' i l, m.Admits tokens → m.Admits tokens' →
    i < tokens.length → i < tokens'.length → tokens.take (i + 1) = tokens'.take (i + 1) →
    l ≤ m.cfg.nLayers.toNat →
    ∃ b b', m.layers tokens l = some b ∧ m.layers tokens' l = some b' ∧
      b.x.take ((i + 1) * m.cfg.dim.toNat) = b'.x.take ((i + 1) * m.cfg.dim.toNat)

end Model

/-- The buffers of a step over `t` positions. -/
structure Scratch.Shaped (b : Scratch) (t d h : ℕ) : Prop where
  x : b.x.length = t * d
  hh : b.hh.length = t * d
  q : b.q.length = t * d
  k : b.k.length = t * d
  v : b.v.length = t * d
  attn : b.attn.length = t * d
  tmp : b.tmp.length = t * d
  h2 : b.h2.length = t * d
  gate : b.gate.length = t * h
  up : b.up.length = t * h
  act : b.act.length = t * h
  mlp : b.mlp.length = t * d

/-! ## Slices and rows -/

theorem sliceFrom_layer {w : List Int8} {n l k : ℕ} (hl : l < n) (hlen : w.length = n * k)
    (hfit : n * k < 2 ^ 32) :
    sliceFrom w (u32 (l * k)) = some (w.drop (l * k)) ∧ k ≤ (w.drop (l * k)).length := by
  have hle : (l + 1) * k ≤ n * k := Nat.mul_le_mul_right k hl
  rw [Nat.succ_mul] at hle
  refine ⟨?_, ?_⟩
  · rw [u32_row hl hfit, sliceFrom_of_le (by omega)]
  · rw [List.length_drop]
    omega

theorem rmsnormRows_eq {t d off : ℕ} {mult eps : ℤ} {x : ℕ → Row} {w wr out : List Int8}
    (hfit : t * d < 2 ^ 32) (hw : sliceFrom w off = some wr) (hwr : d ≤ wr.length)
    (hout : out.length = t * d) :
    rmsnormRows (matrix t d x) w out t d off mult eps =
      some (matrix t d fun r => rmsRow d wr mult eps (x r)) := by
  refine loop_matrix hout fun ti hti out hout => ?_
  have hle : ti * d + d ≤ t * d := by
    rw [← Nat.succ_mul]
    exact Nat.mul_le_mul_right d hti
  have hrow : ∀ c < d, ((matrix t d x).drop (ti * d))[c]? = some (x ti c) := by
    intro c hc
    rw [List.getElem?_drop, matrix_getElem? hti hc]
  have hspace : d ≤ (out.drop (ti * d)).length := by
    rw [List.length_drop]
    omega
  have hrun : rmsnormI8 ((matrix t d x).drop (ti * d)) wr (out.drop (ti * d)) d mult eps =
      some ((List.range d).map (rmsRow d wr mult eps (x ti)) ++ (out.drop (ti * d)).drop d) :=
    rmsnormI8_eq hrow hwr hspace
  rw [u32_row hti hfit, sliceFrom_of_le (by rw [length_matrix]; omega), hw,
    sliceFrom_of_le (by omega)]
  simp only [hrun, Option.bind_eq_bind, Option.bind_some, List.drop_drop, List.append_assoc]

theorem length_zeros (n : ℕ) : (zeros n).length = n := List.length_replicate

theorem maxu32_toNat (a b : UInt32) : (maxu32 a b).toNat = max a.toNat b.toNat := by
  unfold maxu32
  split_ifs with h
  · exact (max_eq_left (UInt32.lt_iff_toNat_lt.mp h).le).symm
  · exact (max_eq_right (not_lt.mp fun hlt => h (UInt32.lt_iff_toNat_lt.mpr hlt))).symm

namespace Model

variable {m : Model} {t l : ℕ} {b : Scratch} {x : ℕ → Row}

section Layers

variable (hm : m.WellFormed) (hl : l < m.cfg.nLayers.toNat)
  (hbias : m.cfg.dim.toNat ≤ (maxu32 m.cfg.vocab m.cfg.hidden).toNat)
  (htd : t * m.cfg.dim.toNat < 2 ^ 32) (hth : t * m.cfg.hidden.toNat < 2 ^ 32)

include hm hl

theorem layer_fits : m.cfg.nLayers.toNat * m.cfg.dim.toNat < 2 ^ 32 ∧
    m.cfg.dim.toNat * m.cfg.dim.toNat < 2 ^ 32 ∧
    m.cfg.hidden.toNat * m.cfg.dim.toNat < 2 ^ 32 := by
  have hn : 1 ≤ m.cfg.nLayers.toNat := by omega
  have hdd := hm.dim_dim_fits
  have hhd := hm.hidden_dim_fits
  refine ⟨(Nat.le_mul_of_pos_right _ hm.dim_pos).trans_lt hdd, ?_, ?_⟩
  · rw [Nat.mul_assoc] at hdd
    exact (Nat.le_mul_of_pos_left _ hn).trans_lt hdd
  · rw [Nat.mul_assoc] at hhd
    exact (Nat.le_mul_of_pos_left _ hn).trans_lt hhd

include htd

theorem norm_eq {w out : List Int8} (hw : w.length = m.cfg.nLayers.toNat * m.cfg.dim.toNat)
    (hout : out.length = t * m.cfg.dim.toNat) :
    rmsnormRows (matrix t m.cfg.dim.toNat x) w out t m.cfg.dim.toNat
        (u32 (l * m.cfg.dim.toNat)) m.cfg.rmsMult.toInt m.cfg.rmsEps.toInt =
      some (matrix t m.cfg.dim.toNat fun r => m.normRow w l (x r)) := by
  obtain ⟨hslice, hlen⟩ := sliceFrom_layer hl hw (layer_fits hm hl).1
  exact rmsnormRows_eq htd hslice hlen hout

include hbias

/-- A product with a square matrix of layer `l`. -/
theorem project_eq {w c : List Int8}
    (hw : w.length = m.cfg.nLayers.toNat * m.cfg.dim.toNat * m.cfg.dim.toNat)
    (hc : c.length = t * m.cfg.dim.toNat) :
    sliceFrom w (u32 (l * m.cfg.dim.toNat * m.cfg.dim.toNat)) =
        some (w.drop (l * m.cfg.dim.toNat * m.cfg.dim.toNat)) ∧
      ∀ x : ℕ → Row,
        gemmI8 (matrix t m.cfg.dim.toNat x) (w.drop (l * m.cfg.dim.toNat * m.cfg.dim.toNat))
            m.zeroBias c t m.cfg.dim.toNat m.cfg.dim.toNat m.cfg.gemmShift.toInt =
          some (matrix t m.cfg.dim.toNat fun r => m.projectRow w l (x r)) := by
  obtain ⟨-, hdd, -⟩ := layer_fits hm hl
  have hfit := hm.dim_dim_fits
  rw [Nat.mul_assoc] at hw hfit
  obtain ⟨hslice, hlen⟩ := sliceFrom_layer hl hw hfit
  rw [← Nat.mul_assoc] at hslice hlen
  exact ⟨hslice, fun x => gemmI8_eq htd hdd htd hm.gemmShift.1 hlen hbias hc⟩

/-- The first half of a layer computes its rows. -/
theorem attentionBlock_eq (hb : b.Shaped t m.cfg.dim.toNat m.cfg.hidden.toNat)
    (hx : b.x = matrix t m.cfg.dim.toNat x) :
    ∃ b', m.attentionBlock t l b = some b' ∧ b'.Shaped t m.cfg.dim.toNat m.cfg.hidden.toNat ∧
      b'.x = matrix t m.cfg.dim.toNat (m.attentionRows l x) := by
  have hnorm := norm_eq (x := x) hm hl htd hm.rms1 hb.hh
  obtain ⟨hwq, hq⟩ := project_eq hm hl hbias htd hm.wq hb.q
  obtain ⟨hwk, hk⟩ := project_eq hm hl hbias htd hm.wk hb.k
  obtain ⟨hwv, hv⟩ := project_eq hm hl hbias htd hm.wv hb.v
  obtain ⟨hwo, ho⟩ := project_eq hm hl hbias htd hm.wo hb.tmp
  have hattn := fun q k v => attentionI8_eq (q := q) (k := k) (v := v) length_aivmExpLUT htd
    hm.qkShift.1 hm.ovShift.1 hb.attn
  apply Exists.intro
  refine ⟨?_, ?_, ?_⟩
  · simp only [attentionBlock, hx, hnorm, hwq, hq, hwk, hk, hwv, hv, hattn, hwo, ho,
      u32_of_lt htd, residualAddI8_eq, Option.bind_eq_bind, Option.bind_some]
    rfl
  · exact { hb with
      x := length_matrix _ _ _
      hh := length_matrix _ _ _
      q := length_matrix _ _ _
      k := length_matrix _ _ _
      v := length_matrix _ _ _
      attn := length_matrix _ _ _
      tmp := length_matrix _ _ _ }
  · rfl

include hth

/-- The second half of a layer computes its rows. -/
theorem mlpBlock_eq (hb : b.Shaped t m.cfg.dim.toNat m.cfg.hidden.toNat)
    (hx : b.x = matrix t m.cfg.dim.toNat x) :
    ∃ b', m.mlpBlock t l b = some b' ∧ b'.Shaped t m.cfg.dim.toNat m.cfg.hidden.toNat ∧
      b'.x = matrix t m.cfg.dim.toNat fun r => m.mlpRow l (x r) := by
  obtain ⟨-, -, hhd⟩ := layer_fits hm hl
  have hdh : m.cfg.dim.toNat * m.cfg.hidden.toNat < 2 ^ 32 := by rwa [Nat.mul_comm]
  have hhidden : m.cfg.hidden.toNat ≤ (maxu32 m.cfg.vocab m.cfg.hidden).toNat := by
    rw [maxu32_toNat]
    exact le_max_right _ _
  have hfit := hm.hidden_dim_fits
  have hfit' : m.cfg.nLayers.toNat * (m.cfg.dim.toNat * m.cfg.hidden.toNat) < 2 ^ 32 := by
    rwa [Nat.mul_comm m.cfg.dim.toNat, ← Nat.mul_assoc]
  rw [Nat.mul_assoc] at hfit
  have hnorm := norm_eq (x := x) hm hl htd hm.rms2 hb.h2
  obtain ⟨hgate, hgateLen⟩ := sliceFrom_layer hl (by rw [hm.wgate, Nat.mul_assoc]) hfit
  obtain ⟨hup, hupLen⟩ := sliceFrom_layer hl (by rw [hm.wup, Nat.mul_assoc]) hfit
  obtain ⟨hdown, hdownLen⟩ := sliceFrom_layer hl (by rw [hm.wdown, Nat.mul_assoc]) hfit'
  rw [← Nat.mul_assoc] at hgate hgateLen hup hupLen hdown hdownLen
  have hgateRun := fun x => gemmI8_eq (x := x) htd hhd hth hm.gemmShift.1 hgateLen hhidden hb.gate
  have hupRun := fun x => gemmI8_eq (x := x) htd hhd hth hm.gemmShift.1 hupLen hhidden hb.up
  have hact := fun g u : ℕ → Row =>
    @swigluI8_eq _ _ _ _ g u _ length_aivmSiluLUT hm.swigluShift.1 hb.act
  have hshrink := fun x => gemmI8_eq (x := x) hth hdh htd hm.gemmShiftH.1 hdownLen hbias hb.mlp
  apply Exists.intro
  refine ⟨?_, ?_, ?_⟩
  · simp only [mlpBlock, zeroBias, hx, hnorm, hgate, hup, hdown,
      hgateRun, hupRun, hact, hshrink, u32_of_lt htd, u32_of_lt hth, residualAddI8_eq,
      Option.bind_eq_bind, Option.bind_some]
    rfl
  · exact { hb with
      x := length_matrix _ _ _
      h2 := length_matrix _ _ _
      gate := length_matrix _ _ _
      up := length_matrix _ _ _
      act := length_matrix _ _ _
      mlp := length_matrix _ _ _ }
  · rfl

theorem layer_eq (hb : b.Shaped t m.cfg.dim.toNat m.cfg.hidden.toNat)
    (hx : b.x = matrix t m.cfg.dim.toNat x) :
    ∃ b', m.layer t l b = some b' ∧ b'.Shaped t m.cfg.dim.toNat m.cfg.hidden.toNat ∧
      b'.x = matrix t m.cfg.dim.toNat (m.layerRows l x) := by
  obtain ⟨b', hb', hshape, hrows⟩ := attentionBlock_eq hm hl hbias htd hb hx
  obtain ⟨b'', hb'', hshape', hrows'⟩ := mlpBlock_eq hm hl hbias htd hth hshape hrows
  exact ⟨b'', by rw [layer, hb']; exact hb'', hshape', hrows'⟩

end Layers

section Runs

variable {tokens : List Int32} (hm : m.WellFormed) (ht : m.Admits tokens)

include ht

theorem length_pos : 0 < tokens.length := List.length_pos_iff.mpr ht.nonempty

include hm

theorem length_fits : u32 tokens.length = tokens.length :=
  u32_of_lt ((Nat.le_mul_of_pos_right _ hm.dim_pos).trans_lt ht.dim_fits)

theorem embedded_eq :
    ∃ b, m.embedded tokens = some b ∧
      b.Shaped tokens.length m.cfg.dim.toNat m.cfg.hidden.toNat ∧
      b.x = matrix tokens.length m.cfg.dim.toNat (m.rowsAfter 0 fun r => tokens.getD r 0) := by
  have hx := embedGather_eq rfl ht.below hm.embed.ge hm.vocab_dim_fits ht.dim_fits
    (length_zeros (tokens.length * m.cfg.dim.toNat))
  apply Exists.intro
  refine ⟨?_, ?_, ?_⟩
  · simp only [embedded, length_fits hm ht, u32_of_lt ht.dim_fits, u32_of_lt ht.hidden_fits, hx,
      Option.bind_eq_bind, Option.bind_some]
    rfl
  · constructor
    · exact length_matrix _ _ _
    all_goals exact length_zeros _
  · rfl

variable (hbias : m.cfg.nLayers.toNat = 0 ∨
  m.cfg.dim.toNat ≤ (maxu32 m.cfg.vocab m.cfg.hidden).toNat)

include hbias

/-- The layers run without a panic and compute the rows of the transformer. -/
theorem layers_eq {n : ℕ} (hn : n ≤ m.cfg.nLayers.toNat) :
    ∃ b, m.layers tokens n = some b ∧
      b.x = matrix tokens.length m.cfg.dim.toNat (m.rowsAfter n fun r => tokens.getD r 0) := by
  obtain ⟨b, hb, hshape, hx⟩ := embedded_eq hm ht
  have hrun : ∃ b', loop n (m.layer tokens.length) b = some b' ∧
      b'.Shaped tokens.length m.cfg.dim.toNat m.cfg.hidden.toNat ∧
      b'.x = matrix tokens.length m.cfg.dim.toNat
        (m.rowsAfter n fun r => tokens.getD r 0) := by
    refine loop_invariant
      (fun l (b : Scratch) => b.Shaped tokens.length m.cfg.dim.toNat m.cfg.hidden.toNat ∧
        b.x = matrix tokens.length m.cfg.dim.toNat (m.rowsAfter l fun r => tokens.getD r 0))
      ⟨hshape, hx⟩ ?_
    rintro l hl b ⟨hshape, hx⟩
    have hwide := hbias.resolve_left (by omega)
    rw [rowsAfter_succ]
    exact layer_eq hm (by omega) hwide ht.dim_fits ht.hidden_fits hshape hx
  obtain ⟨b', hb', -, hx'⟩ := hrun
  exact ⟨b', by rw [layers, hb, length_fits hm ht]; exact hb', hx'⟩

omit hbias in
/-- The logits of the last position are computed without a panic. -/
theorem logits_eq {b : Scratch} {x : ℕ → Row}
    (hx : b.x = matrix tokens.length m.cfg.dim.toNat x) :
    ∃ logits, m.logits tokens.length b = some logits ∧
      logits.length = m.cfg.vocab.toNat := by
  have hpos := length_pos ht
  have hlast : u32 (tokens.length + (2 ^ 32 - 1)) = tokens.length - 1 := by
    have hlen := length_fits hm ht
    rw [u32] at hlen ⊢
    omega
  have hlt : tokens.length - 1 < tokens.length := by omega
  have hoff : u32 ((tokens.length - 1) * m.cfg.dim.toNat) =
      (tokens.length - 1) * m.cfg.dim.toNat := u32_row hlt ht.dim_fits
  have hle : (tokens.length - 1) * m.cfg.dim.toNat ≤ b.x.length := by
    rw [hx, length_matrix]
    exact Nat.mul_le_mul_right _ (by omega)
  have hrow : ∀ c < m.cfg.dim.toNat,
      (b.x.drop ((tokens.length - 1) * m.cfg.dim.toNat))[c]? =
        some (x (tokens.length - 1) c) := by
    intro c hc
    rw [hx, List.getElem?_drop, matrix_getElem? hlt hc]
  let xf : Row := rmsRow m.cfg.dim.toNat m.w.rmsf m.cfg.rmsMult.toInt m.cfg.rmsEps.toInt
    (x (tokens.length - 1))
  have hnorm : rmsnormI8 (b.x.drop ((tokens.length - 1) * m.cfg.dim.toNat)) m.w.rmsf
      (zeros m.cfg.dim.toNat) m.cfg.dim.toNat m.cfg.rmsMult.toInt m.cfg.rmsEps.toInt =
        some (matrix 1 m.cfg.dim.toNat fun _ => xf) := by
    rw [rmsnormI8_eq hrow hm.rmsf.ge (length_zeros _).ge, matrix_one,
      List.drop_of_length_le (length_zeros _).le, List.append_nil]
  have hvocab : m.cfg.vocab.toNat ≤ (maxu32 m.cfg.vocab m.cfg.hidden).toNat := by
    rw [maxu32_toNat]
    exact le_max_left _ _
  have hproduct := gemmI8_eq (x := fun _ => xf)
    (by rw [Nat.one_mul]; exact m.cfg.dim.toNat_lt) hm.vocab_dim_fits
    (by rw [Nat.one_mul]; exact m.cfg.vocab.toNat_lt) hm.lmShift.1 hm.wlm.ge hvocab
    ((length_zeros m.cfg.vocab.toNat).trans (Nat.one_mul _).symm)
  refine ⟨matrix 1 m.cfg.vocab.toNat fun _ =>
    gemmRow m.w.wlm m.cfg.dim.toNat m.cfg.lmShift.toInt xf, ?_,
    (length_matrix _ _ _).trans (Nat.one_mul _)⟩
  rw [logits, hlast, hoff, sliceFrom_of_le hle, Option.bind_eq_bind, Option.bind_some, hnorm]
  exact hproduct

theorem step_eq :
    ∃ token, m.step tokens = some token ∧ tokenRow token < m.cfg.vocab.toNat := by
  obtain ⟨b, hb, hx⟩ := layers_eq hm ht hbias (le_refl _)
  obtain ⟨logits, hlogits, hlen⟩ := logits_eq hm ht hx
  obtain ⟨token, htoken, hlt⟩ := argmaxI8_lt hm.vocab_pos m.cfg.vocab.toNat_lt hlen.ge
  refine ⟨token, ?_, hlt⟩
  rw [step, hb, length_fits hm ht, Option.bind_eq_bind, Option.bind_some, hlogits]
  exact htoken

/-- Generated tokens keep a prompt admissible. -/
theorem generate_eq {nNew : ℕ} (hdim : (tokens.length + nNew) * m.cfg.dim.toNat < 2 ^ 32)
    (hhidden : (tokens.length + nNew) * m.cfg.hidden.toNat < 2 ^ 32) :
    ∃ out, m.generate tokens nNew = some out ∧ tokens <+: out ∧
      out.length = tokens.length + nNew ∧ m.Admits out := by
  refine loop_invariant (fun n out => tokens <+: out ∧ out.length = tokens.length + n ∧
    m.Admits out) ⟨List.prefix_refl _, rfl, ht⟩ ?_
  rintro n hn out ⟨hkept, hlen, hadmits⟩
  obtain ⟨token, htoken, hlt⟩ := step_eq hm hadmits hbias
  have hlen' : (out ++ [token]).length = tokens.length + (n + 1) := by
    rw [List.length_append, hlen]
    rfl
  have hmono : ∀ k, (tokens.length + nNew) * k < 2 ^ 32 → (out ++ [token]).length * k < 2 ^ 32 := by
    intro k hk
    rw [hlen']
    exact (Nat.mul_le_mul_right k (by omega)).trans_lt hk
  refine ⟨out ++ [token], by rw [htoken]; rfl, hkept.trans (List.prefix_append _ _), hlen',
    ?_, ?_, hmono _ hdim, hmono _ hhidden⟩
  · exact List.append_ne_nil_of_right_ne_nil _ (List.cons_ne_nil _ _)
  · intro tok htok
    rcases List.mem_append.mp htok with htok | htok
    · exact hadmits.below tok htok
    · rwa [List.mem_singleton.mp htok]

/-- Sequences with a common start have the same activations there, after any number of layers. -/
theorem layers_agree {tokens' : List Int32} (ht' : m.Admits tokens') {i n : ℕ}
    (hi : i < tokens.length) (hi' : i < tokens'.length)
    (hsame : tokens.take (i + 1) = tokens'.take (i + 1)) (hn : n ≤ m.cfg.nLayers.toNat) :
    ∃ b b', m.layers tokens n = some b ∧ m.layers tokens' n = some b' ∧
      b.x.take ((i + 1) * m.cfg.dim.toNat) = b'.x.take ((i + 1) * m.cfg.dim.toNat) := by
  obtain ⟨b, hb, hx⟩ := layers_eq hm ht hbias hn
  obtain ⟨b', hb', hx'⟩ := layers_eq hm ht' hbias hn
  have hagree : AgreeUpTo i (fun r => tokens.getD r 0) fun r => tokens'.getD r 0 := by
    intro j hj
    have hget : (tokens.take (i + 1))[j]? = (tokens'.take (i + 1))[j]? := by rw [hsame]
    rw [List.getElem?_take_of_lt (by omega), List.getElem?_take_of_lt (by omega)] at hget
    simp only [List.getD_eq_getElem?_getD, hget]
  refine ⟨b, b', hb, hb', ?_⟩
  rw [hx, hx', take_matrix hi, take_matrix hi']
  exact matrix_congr fun r hr c _ =>
    congrFun ((m.causal_rowsAfter n).agree hagree r (Nat.le_of_lt_succ hr)) c

end Runs

/-! ## The bias that is too short -/

theorem gemmI8_eq_none {a bt c : List Int8} {m n k z : ℕ} {shift : ℤ} (hm : 0 < m) (hz : z < n) :
    gemmI8 a bt (List.replicate z 0) c m n k shift = none := by
  refine loop_eq_none hm fun c => loop_eq_none hz fun c => ?_
  have hbias : (List.replicate z (0 : ℤ))[z]? = none :=
    List.getElem?_eq_none (by rw [List.length_replicate])
  rw [gemmCell, hbias]
  rfl

/-- A model wider than its bias panics in its first layer, whatever the tokens. -/
theorem step_eq_none {tokens : List Int32} (hm : m.WellFormed) (ht : m.Admits tokens)
    (hlayers : 0 < m.cfg.nLayers.toNat)
    (hwide : (maxu32 m.cfg.vocab m.cfg.hidden).toNat < m.cfg.dim.toNat) :
    m.step tokens = none := by
  have hblock : ∀ b, m.attentionBlock tokens.length 0 b = none := by
    intro b
    have hnone := fun a bt c shift => @gemmI8_eq_none a bt c tokens.length m.cfg.dim.toNat
      m.cfg.dim.toNat (maxu32 m.cfg.vocab m.cfg.hidden).toNat shift (length_pos ht) hwide
    simp only [attentionBlock, zeroBias, hnone, Option.bind_eq_bind, Option.bind_none,
      Option.bind_fun_none]
  have hlayer : ∀ b, m.layer tokens.length 0 b = none := by
    intro b
    rw [layer, hblock]
    rfl
  have hrun : m.layers tokens m.cfg.nLayers.toNat = none := by
    obtain ⟨b, hb, -⟩ := embedded_eq hm ht
    rw [layers, hb, length_fits hm ht]
    exact loop_eq_none hlayers hlayer
  rw [step, hrun]
  rfl

theorem causalAndSafe (hm : m.WellFormed)
    (hbias : m.cfg.nLayers.toNat = 0 ∨
      m.cfg.dim.toNat ≤ (maxu32 m.cfg.vocab m.cfg.hidden).toNat) : m.CausalAndSafe where
  step_below _ ht := step_eq hm ht hbias
  generate_admits _ _ ht hdim hhidden := generate_eq hm ht hbias hdim hhidden
  causal _ _ _ _ ht ht' hi hi' hsame hl := layers_agree hm ht hbias ht' hi hi' hsame hl

theorem admits_singleton (hm : m.WellFormed) : m.Admits [0] where
  nonempty := List.cons_ne_nil _ _
  below _ h := by
    rw [List.mem_singleton.mp h]
    exact hm.vocab_pos
  dim_fits := by
    rw [List.length_singleton, Nat.one_mul]
    exact m.cfg.dim.toNat_lt
  hidden_fits := by
    rw [List.length_singleton, Nat.one_mul]
    exact m.cfg.hidden.toNat_lt

/-- A model keeps what inference promises exactly when it has no layers or its bias is as long
as the model is wide. -/
theorem causalAndSafe_iff (m : Model) (hm : m.WellFormed) :
    m.CausalAndSafe ↔
      m.cfg.nLayers = 0 ∨ m.cfg.dim ≤ m.cfg.vocab ∨ m.cfg.dim ≤ m.cfg.hidden := by
  have hlayers : m.cfg.nLayers = 0 ↔ m.cfg.nLayers.toNat = 0 := UInt32.toNat_inj.symm
  rw [hlayers, UInt32.le_iff_toNat_le, UInt32.le_iff_toNat_le, ← le_max_iff, ← maxu32_toNat]
  constructor
  · intro hsafe
    by_contra hnot
    obtain ⟨hpos, hwide⟩ := not_or.mp hnot
    obtain ⟨token, htoken, -⟩ := hsafe.step_below [0] (admits_singleton hm)
    rw [step_eq_none hm (admits_singleton hm) (Nat.pos_of_ne_zero hpos) (not_le.mp hwide)]
      at htoken
    cases htoken
  · exact causalAndSafe hm

theorem fixtureModel_wellFormed : fixtureModel.WellFormed := by
  constructor
  all_goals first
    | exact length_fill _ _
    | decide

theorem causalAndSafe_iff_fixture : fixtureModel.CausalAndSafe :=
  (causalAndSafe_iff fixtureModel fixtureModel_wellFormed).mpr (.inr (.inl (by decide)))

/-- One layer of width two, over a vocabulary of one token and one hidden unit. -/
def wideModel : Model where
  cfg := { fixtureConfig with vocab := 1, dim := 2, hidden := 1, nLayers := 1 }
  w := {
    embed := zeros 2
    rms1 := zeros 2
    wq := zeros 4
    wk := zeros 4
    wv := zeros 4
    wo := zeros 4
    rms2 := zeros 2
    wgate := zeros 2
    wup := zeros 2
    wdown := zeros 2
    rmsf := zeros 2
    wlm := zeros 2 }

/-- The wide model is well formed and panics on its only token. -/
theorem wideModel_panics :
    wideModel.WellFormed ∧ wideModel.Admits [0] ∧ wideModel.step [0] = none ∧
      ¬ ∀ m : Model, m.WellFormed → m.CausalAndSafe := by
  have hm : wideModel.WellFormed := by
    constructor
    all_goals first
      | exact length_zeros _
      | decide
  have hnone := step_eq_none hm (admits_singleton hm) (by decide) (by decide)
  refine ⟨hm, admits_singleton hm, hnone, fun hclaim => ?_⟩
  obtain ⟨token, htoken, -⟩ := (hclaim wideModel hm).step_below [0] (admits_singleton hm)
  rw [hnone] at htoken
  cases htoken

end Model

end LuxPrecompile.Inference
