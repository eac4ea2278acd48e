import LuxPrecompile.Inference.Kernels

/-!
# What the kernels compute

A row of activations is a function from its columns.  Each kernel, run on
buffers of the right shapes, leaves the matrix of the rows defined here; what
its output buffer held before is overwritten.
-/

namespace LuxPrecompile.Inference

open LuxPrecompile.Evm LuxPrecompile.Buffers

/-- A row of activations. -/
abbrev Row := ℕ → Int8

/-! ## Rows -/

/-- The wrapped sum of products of two rows. -/
def dot (k : ℕ) (a b : Row) : ℤ :=
  (List.range k).foldl (fun acc ki => int32 (acc + (a ki).toInt * (b ki).toInt)) 0

/-- Row `j` of a flat matrix of rows of length `k`. -/
def rowOf (xs : List Int8) (k j : ℕ) : Row := fun ki => xs.getD (j * k + ki) 0

/-- A row times the transpose of a matrix. -/
def gemmRow (bt : List Int8) (k : ℕ) (shift : ℤ) (a : Row) : Row :=
  fun ni => satI8 (dot k a (rowOf bt k ni) / 2 ^ shift.toNat)

/-- The wrapped sum of squares of a row. -/
def squares (d : ℕ) (x : Row) : ℤ :=
  (List.range d).foldl (fun ss ki => int64 (ss + int64 ((x ki).toInt * (x ki).toInt))) 0

/-- A normalised row. -/
def rmsRow (d : ℕ) (w : List Int8) (mult eps : ℤ) (x : Row) : Row := fun i =>
  satI8FromI64 (int64 ((int64 (int64 ((x i).toInt * (w.getD i 0).toInt) * mult)).tdiv
    (rmsDenom (squares d x) eps)))

/-- The score of a query row against a key row. -/
def scoreAt (d : ℕ) (qkShift : ℤ) (q k : Row) : ℤ :=
  (satI8 (dot d q k / 2 ^ qkShift.toNat)).toInt

/-- The greatest of the first scores, as the loop finds it. -/
def topScore (score : ℕ → ℤ) (n : ℕ) : ℤ :=
  (List.range n).foldl (fun mx j => if score j > mx then score j else mx) (-128)

/-- The entry of the table for a score. -/
def expOf (lut : List ℤ) (mx score : ℤ) : ℤ :=
  lut.getD (if int32 (mx - score) > 255 then 255 else int32 (mx - score)).toNat 0

/-- The sum of the entries, or one. -/
def expSum (lut : List ℤ) (score : ℕ → ℤ) (n : ℕ) : ℤ :=
  let sum := (List.range n).foldl
    (fun sum j => int64 (sum + expOf lut (topScore score n) (score j))) 0
  if sum = 0 then 1 else sum

/-- The weighted sum of the first rows of values. -/
def weigh (lut : List ℤ) (score : ℕ → ℤ) (v : ℕ → Row) (n ki : ℕ) : ℤ :=
  (List.range n).foldl (fun oacc j =>
    let e := expOf lut (topScore score n) (score j)
    let sum := expSum lut score n
    let p := int64 ((int64 (int64 (e * 127) + sum.tdiv 2)).tdiv sum)
    int32 (oacc + int32 (int32 p * (v j ki).toInt))) 0

/-- The attention of row `ti` to the rows up to it. -/
def attendRow (lut : List ℤ) (d : ℕ) (qkShift ovShift : ℤ) (q k v : ℕ → Row) (ti : ℕ) : Row :=
  fun ki => satI8 (weigh lut (fun j => scoreAt d qkShift (q ti) (k j)) v (ti + 1) ki /
    2 ^ ovShift.toNat)

/-- The gated product of two rows. -/
def swigluRow (lut : List ℤ) (shift : ℤ) (gate up : Row) : Row := fun i =>
  satI8 (int32 (lut.getD (int32 ((gate i).toInt + 128)).toNat 0 * (up i).toInt) /
    2 ^ shift.toNat)

/-- The saturated sum of two rows. -/
def addRow (a b : Row) : Row := fun i => satI8 (int32 ((a i).toInt + (b i).toInt))

/-- The embedding of a token. -/
def embedRow (table : List Int8) (d : ℕ) (token : Int32) : Row := rowOf table d (tokenRow token)

/-! ## Index arithmetic and shifts -/

theorem u32_of_lt {x : ℕ} (h : x < 2 ^ 32) : u32 x = x := Nat.mod_eq_of_lt h

theorem u32_cell {m n r c : ℕ} (hr : r < m) (hc : c < n) (hfit : m * n < 2 ^ 32) :
    u32 (r * n + c) = r * n + c :=
  u32_of_lt ((cell_lt hr hc).trans hfit)

theorem u32_row {m n r : ℕ} (hr : r < m) (hfit : m * n < 2 ^ 32) : u32 (r * n) = r * n :=
  u32_of_lt ((Nat.mul_le_mul_right n hr.le).trans_lt hfit)

theorem shr_of_nonneg {v shift : ℤ} (h : 0 ≤ shift) : shr v shift = some (v / 2 ^ shift.toNat) :=
  if_neg (by omega)

theorem quo64_of_ne {a b : ℤ} (h : b ≠ 0) : quo64 a b = some (int64 (a.tdiv b)) := if_neg h

theorem int32_of_bounds {x : ℤ} (h : -2 ^ 31 ≤ x) (h' : x < 2 ^ 31) : int32 x = x :=
  Int.bmod_eq_of_le (by norm_num; omega) (by norm_num; omega)

theorem lutAt_of_lt {lut : List ℤ} {i : ℤ} (h : 0 ≤ i) (hlt : i.toNat < lut.length) :
    lutAt lut i = some (lut.getD i.toNat 0) := by
  rw [lutAt, if_neg (by omega), getElem?_eq_getD hlt]

theorem toInt_bounds (x : Int8) : -128 ≤ x.toInt ∧ x.toInt ≤ 127 :=
  ⟨Int8.le_toInt x, Int8.toInt_le x⟩

theorem rmsDenom_ne_zero (ss eps : ℤ) : rmsDenom ss eps ≠ 0 := by
  unfold rmsDenom
  dsimp only
  split_ifs with h
  · exact one_ne_zero
  · exact h

theorem rowOf_getElem? {xs : List Int8} {n k j ki : ℕ} (hj : j < n) (hki : ki < k)
    (hlen : n * k ≤ xs.length) : xs[j * k + ki]? = some (rowOf xs k j ki) :=
  getElem?_eq_getD ((cell_lt hj hki).trans_le hlen) 0

/-- A loop that stores the cells of row `r` leaves the rest of the buffer as it is. -/
theorem loop_cells {m n r : ℕ} {out : List Int8} {cell : ℕ → Option Int8} {v : Row}
    (hr : r < m) (hfit : m * n < 2 ^ 32) (hlen : out.length = m * n)
    (hcell : ∀ c < n, cell c = some (v c)) :
    loop n (fun c out => cell c >>= store out (u32 (r * n + c))) out =
      some (out.take (r * n) ++ (List.range n).map v ++ out.drop (r * n + n)) := by
  have hindex : loop n (fun c out => cell c >>= store out (u32 (r * n + c))) out =
      loop n (fun c out => cell c >>= store out (r * n + c)) out :=
    loop_congr fun c hc out => by rw [u32_cell hr hc hfit]
  have hspace : r * n + n ≤ out.length := by
    rw [hlen, ← Nat.succ_mul]
    exact Nat.mul_le_mul_right n hr
  rw [hindex]
  exact loop_store hspace fun c hc _ _ => hcell c hc

theorem loop_start {n : ℕ} {out : List Int8} {cell : ℕ → List Int8 → Option Int8} {v : Row}
    (hlen : n ≤ out.length)
    (hcell : ∀ c < n, ∀ out', out'.drop c = out.drop c → cell c out' = some (v c)) :
    loop n (fun c out => cell c out >>= store out c) out =
      some ((List.range n).map v ++ out.drop n) := by
  have hrun : loop n (fun c out => cell c out >>= store out (0 + c)) out =
      some (out.take 0 ++ (List.range n).map v ++ out.drop (0 + n)) :=
    loop_store (by rwa [Nat.zero_add]) (by simpa only [Nat.zero_add] using hcell)
  simpa only [Nat.zero_add, List.take_zero, List.nil_append] using hrun

theorem loop_flat {m n : ℕ} {out : List Int8} {cell : ℕ → List Int8 → Option Int8} {f : ℕ → Row}
    (hlen : out.length = m * n)
    (hcell : ∀ i < m * n, ∀ out', out'.drop i = out.drop i →
      cell i out' = some (f (i / n) (i % n))) :
    loop (m * n) (fun i out => cell i out >>= store out i) out = some (matrix m n f) := by
  rw [loop_start (v := fun i => f (i / n) (i % n)) hlen.ge hcell, map_range_eq_matrix,
    List.drop_of_length_le hlen.le, List.append_nil]

/-! ## The kernels -/

section Products

variable {a b : List Int8} {x y : Row} {k : ℕ} {p q : ℕ → ℕ}

theorem loop_dot (ha : ∀ ki < k, a[p ki]? = some (x ki)) (hb : ∀ ki < k, b[q ki]? = some (y ki)) :
    loop k (fun ki acc => do
      let x ← a[p ki]?
      let y ← b[q ki]?
      some (int32 (acc + x.toInt * y.toInt))) 0 = some (dot k x y) :=
  loop_eq_foldl fun ki hki acc => by
    rw [ha ki hki, hb ki hki]
    rfl

end Products

theorem matrix_row {m n r : ℕ} {f : ℕ → Row} (hr : r < m) (hfit : m * n < 2 ^ 32) :
    ∀ c < n, (matrix m n f)[u32 (r * n + c)]? = some (f r c) := by
  intro c hc
  rw [u32_cell hr hc hfit, matrix_getElem? hr hc]

theorem gemmI8_eq {m n k z : ℕ} {shift : ℤ} {x : ℕ → Row} {bt c : List Int8}
    (hmk : m * k < 2 ^ 32) (hnk : n * k < 2 ^ 32) (hmn : m * n < 2 ^ 32) (hshift : 0 ≤ shift)
    (hbt : n * k ≤ bt.length) (hbias : n ≤ z) (hc : c.length = m * n) :
    gemmI8 (matrix m k x) bt (List.replicate z 0) c m n k shift =
      some (matrix m n fun r => gemmRow bt k shift (x r)) := by
  refine loop_matrix hc fun mi hmi c hc => loop_cells hmi hmn hc fun ni hni => ?_
  have hzero : (List.replicate z (0 : ℤ))[ni]? = some 0 := by
    rw [List.getElem?_replicate, if_pos (hni.trans_le hbias)]
  have hrow : ∀ ki < k, bt[u32 (ni * k + ki)]? = some (rowOf bt k ni ki) := by
    intro ki hki
    rw [u32_cell hni hki hnk, rowOf_getElem? hni hki hbt]
  rw [gemmCell, hzero, Option.bind_eq_bind, Option.bind_some,
    loop_dot (matrix_row hmi hmk) hrow, Option.bind_some, shr_of_nonneg hshift]
  rfl

theorem rmsnormI8_eq {d : ℕ} {mult eps : ℤ} {x : Row} {xs w out : List Int8}
    (hx : ∀ c < d, xs[c]? = some (x c)) (hw : d ≤ w.length) (hout : d ≤ out.length) :
    rmsnormI8 xs w out d mult eps =
      some ((List.range d).map (rmsRow d w mult eps x) ++ out.drop d) := by
  have hsquares : loop d (fun ki ss => do
      let xv ← xs[ki]?
      some (int64 (ss + int64 (xv.toInt * xv.toInt)))) 0 = some (squares d x) :=
    loop_eq_foldl fun ki hki ss => by
      rw [hx ki hki]
      rfl
  rw [rmsnormI8, hsquares, Option.bind_eq_bind, Option.bind_some]
  refine loop_start hout fun c hc out' _ => ?_
  rw [hx c hc, getElem?_eq_getD (hc.trans_le hw) 0, Option.bind_eq_bind, Option.bind_some,
    Option.bind_some, quo64_of_ne (rmsDenom_ne_zero _ _)]
  rfl

theorem swigluI8_eq {m n : ℕ} {lut : List ℤ} {shift : ℤ} {gate up : ℕ → Row} {out : List Int8}
    (hlut : lut.length = 256) (hshift : 0 ≤ shift) (hout : out.length = m * n) :
    swigluI8 (matrix m n gate) (matrix m n up) lut out (m * n) shift =
      some (matrix m n fun r => swigluRow lut shift (gate r) (up r)) := by
  refine loop_flat hout fun i hi out' _ => ?_
  have hgate := toInt_bounds (gate (i / n) (i % n))
  have hindex : int32 ((gate (i / n) (i % n)).toInt + 128) =
      (gate (i / n) (i % n)).toInt + 128 :=
    int32_of_bounds (by omega) (by omega)
  have hentry : lutAt lut (int32 ((gate (i / n) (i % n)).toInt + 128)) =
      some (lut.getD (int32 ((gate (i / n) (i % n)).toInt + 128)).toNat 0) :=
    lutAt_of_lt (by omega) (by omega)
  simp only [matrix_getElem?_div hi, hentry, shr_of_nonneg hshift, Option.bind_eq_bind,
    Option.bind_some]
  rfl

theorem residualAddI8_eq {m n : ℕ} {a b : ℕ → Row} :
    residualAddI8 (matrix m n a) (matrix m n b) (m * n) =
      some (matrix m n fun r => addRow (a r) (b r)) := by
  refine loop_flat (length_matrix m n a) fun i hi out' hsame => ?_
  rw [getElem?_of_drop_eq hsame, matrix_getElem?_div hi, matrix_getElem?_div hi]
  rfl

theorem embedGather_eq {t d n : ℕ} {tokens : List Int32} {table out : List Int8}
    (hlen : tokens.length = t) (htokens : ∀ tok ∈ tokens, tokenRow tok < n)
    (htable : n * d ≤ table.length) (hnd : n * d < 2 ^ 32) (htd : t * d < 2 ^ 32)
    (hout : out.length = t * d) :
    embedGather tokens table out t d =
      some (matrix t d fun r => embedRow table d (tokens.getD r 0)) := by
  refine loop_matrix hout fun ti hti out hout => ?_
  have htok : tokens[ti]? = some (tokens.getD ti 0) := getElem?_eq_getD (by omega) 0
  have hrow := htokens _ (List.mem_of_getElem? htok)
  rw [htok, Option.bind_eq_bind, Option.bind_some]
  refine loop_cells hti htd hout fun ki hki => ?_
  rw [u32_cell hrow hki hnd, rowOf_getElem? hrow hki htable]
  rfl

theorem tokenRow_ofNat {i : ℕ} (h : i < 2 ^ 32) : tokenRow (Int32.ofNat i) = i := by
  rw [tokenRow, Int32.toUInt32_ofNat', UInt32.toNat_ofNat_of_lt' h]

/-- The index of the greatest logit is below the number of logits. -/
theorem argmaxI8_lt {logits : List Int8} {n : ℕ} (hpos : 0 < n) (hn : n < 2 ^ 32)
    (hlen : n ≤ logits.length) : ∃ tok, argmaxI8 logits n = some tok ∧ tokenRow tok < n := by
  have hfirst : logits[0]? = some (logits.getD 0 0) := getElem?_eq_getD (by omega) 0
  have hrun : ∃ s, loop (n - 1) (fun i s => do
      let v ← logits[i + 1]?
      some (if v.toInt > s.2 then (Int32.ofNat (i + 1), v.toInt) else s))
        ((0 : Int32), (logits.getD 0 0).toInt) = some s ∧ tokenRow s.1 < n := by
    refine loop_invariant (fun _ (s : Int32 × ℤ) => tokenRow s.1 < n) hpos fun i hi s hs => ?_
    refine ⟨_, by rw [getElem?_eq_getD (show i + 1 < logits.length by omega) 0]; rfl, ?_⟩
    split_ifs
    · rw [tokenRow_ofNat (by omega)]
      omega
    · exact hs
  obtain ⟨s, hs, hlt⟩ := hrun
  exact ⟨s.1, by rw [argmaxI8, hfirst, Option.bind_eq_bind, Option.bind_some, hs]; rfl, hlt⟩

/-! ## Attention -/

section Attention

variable {lut : List ℤ} {score : ℕ → ℤ} {scores : List ℤ} {n : ℕ}

theorem topScore_succ (score : ℕ → ℤ) (n : ℕ) :
    topScore score (n + 1) =
      if score n > topScore score n then score n else topScore score n := by
  rw [topScore, List.range_succ, List.foldl_append]
  rfl

/-- The greatest score is at least every score it ranges over, and a score or the start. -/
theorem topScore_spec (hscore : ∀ j, -128 ≤ score j ∧ score j ≤ 127) (n : ℕ) :
    (-128 ≤ topScore score n ∧ topScore score n ≤ 127) ∧ ∀ j < n, score j ≤ topScore score n := by
  induction n with
  | zero => exact ⟨⟨le_refl (-128), by norm_num [topScore]⟩, fun j hj => absurd hj j.not_lt_zero⟩
  | succ n ih =>
      obtain ⟨hbounds, hle⟩ := ih
      have hn := hscore n
      rw [topScore_succ]
      split_ifs with hgt
      · refine ⟨hn, fun j hj => ?_⟩
        rcases Nat.lt_succ_iff_lt_or_eq.mp hj with hlt | rfl
        · exact (hle j hlt).trans (le_of_lt hgt)
        · exact le_refl _
      · refine ⟨hbounds, fun j hj => ?_⟩
        rcases Nat.lt_succ_iff_lt_or_eq.mp hj with hlt | rfl
        · exact hle j hlt
        · exact not_lt.mp hgt

/-- The table is read inside its bounds: no score exceeds the greatest. -/
theorem expAt_eq (hlut : lut.length = 256) (hscore : ∀ j, -128 ≤ score j ∧ score j ≤ 127)
    (hscores : ∀ j < n, scores[j]? = some (score j)) {j : ℕ} (hj : j < n) :
    expAt lut scores (topScore score n) j = some (expOf lut (topScore score n) (score j)) := by
  obtain ⟨htop, hle⟩ := topScore_spec hscore n
  have hj' := hle j hj
  have hlow := hscore j
  have hgap : int32 (topScore score n - score j) = topScore score n - score j :=
    int32_of_bounds (by omega) (by omega)
  have hentry : ∀ i : ℤ, 0 ≤ i → i ≤ 255 → lutAt lut i = some (lut.getD i.toNat 0) :=
    fun i h0 h255 => lutAt_of_lt h0 (by omega)
  rw [expAt, hscores j hj, Option.bind_eq_bind, Option.bind_some, expOf]
  refine hentry _ ?_ ?_
  · split_ifs
    · decide
    · omega
  · split_ifs
    · exact le_refl _
    · omega

theorem expSum_ne_zero (lut : List ℤ) (score : ℕ → ℤ) (n : ℕ) : expSum lut score n ≠ 0 := by
  unfold expSum
  dsimp only
  split_ifs with h
  · exact one_ne_zero
  · exact h

variable {t d ti jmax : ℕ} {qkShift ovShift : ℤ} {q k v : ℕ → Row}

theorem scoreAt_bounds (d : ℕ) (qkShift : ℤ) (q k : Row) :
    -128 ≤ scoreAt d qkShift q k ∧ scoreAt d qkShift q k ≤ 127 :=
  toInt_bounds _

/-- The scores of a row, and the greatest of them, after its first loop. -/
theorem scoreRow_eq (hti : ti < t) (hjmax : jmax < t) (hfit : t * d < 2 ^ 32)
    (hshift : 0 ≤ qkShift) (hlen : scores.length = t) :
    let s := fun j => scoreAt d qkShift (q ti) (k j)
    ∃ scores', scoreRow (matrix t d q) (matrix t d k) scores ti jmax d qkShift =
        some (topScore s (jmax + 1), scores') ∧
      scores'.length = t ∧ ∀ j < jmax + 1, scores'[j]? = some (s j) := by
  intro s
  have hrun : ∃ st, scoreRow (matrix t d q) (matrix t d k) scores ti jmax d qkShift = some st ∧
      st.1 = topScore s (jmax + 1) ∧ st.2.length = t ∧
        ∀ j < jmax + 1, st.2[j]? = some (s j) := by
    refine loop_invariant
      (fun n (st : ℤ × List ℤ) =>
        st.1 = topScore s n ∧ st.2.length = t ∧ ∀ j < n, st.2[j]? = some (s j))
      ⟨rfl, hlen, fun j hj => absurd hj j.not_lt_zero⟩ ?_
    rintro j hj ⟨mx, scores'⟩ ⟨htop, hlen', hscores⟩
    have hscore : scoreOf (matrix t d q) (matrix t d k) ti j d qkShift = some (s j) := by
      rw [scoreOf, loop_dot (matrix_row hti hfit) (matrix_row (by omega) hfit),
        Option.bind_eq_bind, Option.bind_some, shr_of_nonneg hshift]
      rfl
    have hlt : j < scores'.length := by
      dsimp only at hlen'
      omega
    refine ⟨(topScore s (j + 1), scores'.set j (s j)), ?_, rfl, ?_, ?_⟩
    · rw [hscore, Option.bind_eq_bind, Option.bind_some, store, if_pos hlt,
        Option.bind_eq_bind, Option.bind_some, topScore_succ, ← htop]
    · rw [List.length_set]
      exact hlen'
    · intro i hi
      rw [List.getElem?_set]
      split_ifs with hji
      · rw [hji]
      · exact hscores i (by omega)
  obtain ⟨⟨mx, scores'⟩, hrow, htop, hlen', hscores⟩ := hrun
  exact ⟨scores', by rw [hrow, ← htop], hlen', hscores⟩

theorem attendCell_eq (hlut : lut.length = 256) (hscore : ∀ j, -128 ≤ score j ∧ score j ≤ 127)
    (hscores : ∀ j < jmax + 1, scores[j]? = some (score j)) (hjmax : jmax < t)
    (hfit : t * d < 2 ^ 32) (hshift : 0 ≤ ovShift) {ki : ℕ} (hki : ki < d) :
    attendCell (matrix t d v) lut scores (topScore score (jmax + 1))
        (expSum lut score (jmax + 1)) jmax d ki ovShift =
      some (satI8 (weigh lut score v (jmax + 1) ki / 2 ^ ovShift.toNat)) := by
  have hweigh : loop (jmax + 1) (fun j oacc => do
      let e ← expAt lut scores (topScore score (jmax + 1)) j
      let p ← quo64 (int64 (int64 (e * 127) + (expSum lut score (jmax + 1)).tdiv 2))
        (expSum lut score (jmax + 1))
      let x ← (matrix t d v)[u32 (j * d + ki)]?
      some (int32 (oacc + int32 (int32 p * x.toInt)))) 0 =
        some (weigh lut score v (jmax + 1) ki) :=
    loop_eq_foldl fun j hj oacc => by
      simp only [expAt_eq hlut hscore hscores hj, quo64_of_ne (expSum_ne_zero _ _ _),
        matrix_row (f := v) (show j < t by omega) hfit ki hki, Option.bind_eq_bind,
        Option.bind_some]
  rw [attendCell, hweigh, Option.bind_eq_bind, Option.bind_some, shr_of_nonneg hshift]
  rfl

theorem attentionI8_eq {out : List Int8} (hlut : lut.length = 256) (hfit : t * d < 2 ^ 32)
    (hqk : 0 ≤ qkShift) (hov : 0 ≤ ovShift) (hout : out.length = t * d) :
    attentionI8 (matrix t d q) (matrix t d k) (matrix t d v) lut out t d qkShift ovShift true =
      some (matrix t d (attendRow lut d qkShift ovShift q k v)) := by
  have hrow : ∀ ti < t, ∀ s : List ℤ × List Int8, s.1.length = t → s.2.length = t * d →
      ∃ s', attentionRow (matrix t d q) (matrix t d k) (matrix t d v) lut t d qkShift ovShift
          true ti s = some s' ∧ s'.1.length = t ∧
        s'.2 = s.2.take (ti * d) ++
          (List.range d).map (attendRow lut d qkShift ovShift q k v ti) ++
            s.2.drop (ti * d + d) := by
    intro ti hti s hlen hout
    obtain ⟨scores', hscores', hlen', hread⟩ := scoreRow_eq hti hti hfit hqk hlen
    have hscore := fun j => scoreAt_bounds d qkShift (q ti) (k j)
    have hsum : loop (ti + 1) (fun j sum => do
        let e ← expAt lut scores' (topScore (fun j => scoreAt d qkShift (q ti) (k j)) (ti + 1)) j
        some (int64 (sum + e))) 0 = some ((List.range (ti + 1)).foldl (fun sum j =>
          int64 (sum + expOf lut (topScore (fun j => scoreAt d qkShift (q ti) (k j)) (ti + 1))
            (scoreAt d qkShift (q ti) (k j)))) 0) :=
      loop_eq_foldl fun j hj sum => by
        rw [expAt_eq hlut hscore hread hj]
        rfl
    have hcells := loop_cells (v := attendRow lut d qkShift ovShift q k v ti) hti hfit hout
      fun ki hki => attendCell_eq (v := v) hlut hscore hread hti hfit hov hki
    refine ⟨(scores', _), ?_, hlen', rfl⟩
    rw [attentionRow, if_pos rfl, hscores', Option.bind_eq_bind, Option.bind_some, hsum,
      Option.bind_eq_bind, Option.bind_some]
    exact congrArg (fun o => o.bind fun out => some (scores', out)) hcells
  have hstart : (List.replicate t (0 : ℤ), out).1.length = t := List.length_replicate
  obtain ⟨s', hs', -, hmatrix⟩ := loop_rows (Prod.snd : List ℤ × List Int8 → List Int8)
    (fun s => s.1.length = t) hout hstart hrow
  rw [attentionI8, hs', Option.bind_eq_bind, Option.bind_some, hmatrix]

end Attention

end LuxPrecompile.Inference
