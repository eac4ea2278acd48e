import LuxPrecompile.Dead.Contract
import LuxPrecompile.Evm.Bank

/-!
# Effects of a call on the dead addresses

A call either splits what is new at its address or leaves every balance and every
burned amount as it is.  The setters keep the ratio a ratio.
-/

namespace LuxPrecompile.Dead

open Evm

/-- The selectors with a function of their own. -/
def selectors : List (List UInt8) :=
  [selectorSetAdmin, selectorSetTreasury, selectorSetBurnRatio, selectorSetEnabled,
    selectorGetAdmin, selectorGetTreasury, selectorGetBurnRatio, selectorGetSplit,
    selectorIsEnabled]

/-- Input that `Run` treats as a receipt. -/
def isReceive (input : List UInt8) : Bool :=
  input.length = 0 || (4 ≤ input.length && !selectors.contains (input.take 4))

/-- The value at a dead address that has not been through the split. -/
def fresh (w : World) (a : DeadAddress) : ℕ := w.balance a.address - getBurned w.storage a

/-- A call that reaches the split. -/
def Splits (w : World) (a : DeadAddress) (input : List UInt8) (gas : ℕ) (readOnly : Bool) : Prop :=
  isReceive input = true ∧ gasBase ≤ gas ∧ isEnabled w.storage = true ∧
    getBurned w.storage a < w.balance a.address ∧ readOnly = false

/-! ## Configuration words -/

theorem wordSlice_markedWord (v : UInt64) {i j : ℕ} (hj : j ≤ 32) :
    wordSlice (markedWord v) i j = slice ([1] ++ (List.replicate 23 0 ++ uint64Bytes v)) i j :=
  wordSlice_packWord (by simp) (by simpa using hj)

theorem isMarked_markedWord (v : UInt64) : isMarked (markedWord v) = true := by
  rw [isMarked, wordSlice_markedWord v (by norm_num), slice_append_left (by simp)]
  decide

theorem getBurnRatio_set (st : Storage) (v : UInt64) :
    getBurnRatio (st.set .burnBPS (markedWord v)) = v.toNat := by
  have hfield : wordSlice (markedWord v) 24 32 = uint64Bytes v := by
    rw [wordSlice_markedWord v (by norm_num), slice_append_right (by simp),
      slice_append_right (by simp)]
    simp [slice_all]
  rw [getBurnRatio, Store.set_self, isMarked_markedWord, hfield, bytesToUint64_uint64Bytes]
  rfl

theorem getBurnRatio_of_ne (st : Storage) {slot : Slot} (value : Word) (h : slot ≠ .burnBPS) :
    getBurnRatio (st.set slot value) = getBurnRatio st := by
  simp only [getBurnRatio, Store.set_of_ne st value (Ne.symm h)]

theorem getBurned_of_ne (st : Storage) {slot : Slot} (value : Word)
    (h : ∀ a, slot ≠ .burned a) : getBurned (st.set slot value) = getBurned st := by
  funext a
  simp only [getBurned, Store.set_of_ne st value (Ne.symm (h a))]

/-- The slots outside the burned amounts. -/
structure Configured (st st' : Storage) : Prop where
  burned : getBurned st' = getBurned st
  ratio : getBurnRatio st ≤ basisPoints → getBurnRatio st' ≤ basisPoints

theorem Configured.refl (st : Storage) : Configured st st := ⟨rfl, fun h => h⟩

theorem Configured.of_set (st : Storage) {slot : Slot} (value : Word)
    (hburned : ∀ a, slot ≠ .burned a) (hratio : slot ≠ .burnBPS) :
    Configured st (st.set slot value) :=
  ⟨getBurned_of_ne st value hburned, fun h => by rwa [getBurnRatio_of_ne st value hratio]⟩

theorem writeAddress_configured {st st' : Storage} {slot : Slot} {args : List UInt8}
    (hburned : ∀ a, slot ≠ .burned a) (hratio : slot ≠ .burnBPS)
    (h : writeAddress st slot args = .ok st') : Configured st st' := by
  unfold writeAddress at h
  split_ifs at h
  obtain rfl := Except.ok.inj h
  exact .of_set st _ hburned hratio

theorem writeBurnRatio_configured {st st' : Storage} {args : List UInt8}
    (h : writeBurnRatio st args = .ok st') : Configured st st' := by
  simp only [writeBurnRatio] at h
  split_ifs at h with hle
  obtain rfl := Except.ok.inj h
  refine ⟨getBurned_of_ne st _ (by simp), fun _ => ?_⟩
  rw [getBurnRatio_set]
  exact Nat.le_of_not_lt hle

/-! ## Calls -/

/-- A call that changes configuration words at most. -/
def Quiet (w : World) (out : Outcome) : Prop :=
  ∃ st r, out = ({ w with storage := st }, r) ∧ Configured w.storage st

theorem Quiet.same (w : World) (r : Except Failure Reply) : Quiet w (w, r) :=
  ⟨w.storage, r, rfl, .refl _⟩

theorem adminWrite_quiet {w : World} {caller : Address} {args : List UInt8} {gas : ℕ}
    {readOnly : Bool} {write : Except Error Storage}
    (h : ∀ st, write = .ok st → Configured w.storage st) :
    Quiet w (adminWrite w caller args gas readOnly write) := by
  unfold adminWrite
  split
  · exact .same w _
  · split
    · exact .same w _
    · split
      · exact .same w _
      · split
        · exact .same w _
        · cases write with
          | error e => exact .same w _
          | ok st => exact ⟨st, _, rfl, h st rfl⟩

theorem adminRead_quiet (w : World) (gas : ℕ) (ret : List UInt8) :
    Quiet w (adminRead w gas ret) := by
  unfold adminRead
  split
  · exact .same w _
  · exact .same w _

/-- A receipt splits what is new at its address, or changes nothing. -/
theorem handleReceive_cases (w : World) (a : DeadAddress) (gas : ℕ) (readOnly : Bool) :
    (gasBase ≤ gas ∧ isEnabled w.storage = true ∧
      getBurned w.storage a < w.balance a.address ∧ readOnly = false ∧
      handleReceive w a gas readOnly = done (split w a) (gas - gasBase)) ∨
    (¬ (gasBase ≤ gas ∧ isEnabled w.storage = true ∧
      getBurned w.storage a < w.balance a.address ∧ readOnly = false) ∧
      ∃ r, handleReceive w a gas readOnly = (w, r) ∧
        ∀ reply, r = .ok reply → readOnly = false →
          w.balance a.address ≤ getBurned w.storage a) := by
  unfold handleReceive
  by_cases hgas : gas < gasBase
  · exact .inr ⟨fun h => absurd h.1 (by omega), _, if_pos hgas, fun _ h => by cases h⟩
  by_cases henabled : isEnabled w.storage = true
  · by_cases hfresh : w.balance a.address ≤ getBurned w.storage a
    · refine .inr ⟨fun h => absurd h.2.2.1 (by omega), .ok ⟨[], gas - gasBase⟩, ?_,
        fun _ _ _ => hfresh⟩
      rw [if_neg hgas, if_neg (by simpa using henabled), if_pos hfresh]
      rfl
    · cases readOnly with
      | true =>
          refine .inr ⟨fun h => absurd h.2.2.2 (by simp), .ok ⟨[], gas - gasBase⟩, ?_,
            fun _ _ h => absurd h (by simp)⟩
          rw [if_neg hgas, if_neg (by simpa using henabled), if_neg hfresh, if_pos rfl]
          rfl
      | false =>
          refine .inl ⟨by omega, henabled, by omega, rfl, ?_⟩
          rw [if_neg hgas, if_neg (by simpa using henabled), if_neg hfresh, if_neg (by simp)]
  · refine .inr ⟨fun h => henabled h.2.1, .error ⟨.disabled, gas - gasBase⟩, ?_,
      fun _ h => by cases h⟩
    rw [if_neg hgas, if_pos (by simpa using henabled)]
    rfl

theorem run_of_isReceive {input : List UInt8} (h : isReceive input = true) (w : World)
    (caller : Address) (a : DeadAddress) (gas : ℕ) (readOnly : Bool) :
    run w caller a input gas readOnly = handleReceive w a gas readOnly := by
  unfold run
  by_cases hempty : input.length = 0
  · rw [if_pos hempty]
  · simp only [isReceive, hempty, decide_false, Bool.false_or, Bool.and_eq_true,
      decide_eq_true_eq, Bool.not_eq_true', selectors, List.contains_eq_mem, List.mem_cons,
      List.not_mem_nil, or_false, decide_eq_false_iff_not, not_or] at h
    obtain ⟨hlength, h1, h2, h3, h4, h5, h6, h7, h8, h9⟩ := h
    simp only [if_neg hempty, if_neg (Nat.not_lt.mpr hlength), h1, h2, h3, h4, h5, h6, h7, h8, h9,
      if_false]

/-- Input with a function of its own changes configuration words at most. -/
theorem run_of_not_isReceive {input : List UInt8} (h : isReceive input = false) (w : World)
    (caller : Address) (a : DeadAddress) (gas : ℕ) (readOnly : Bool) :
    Quiet w (run w caller a input gas readOnly) := by
  unfold run
  by_cases hempty : input.length = 0
  · simp [isReceive, hempty] at h
  by_cases hshort : input.length < 4
  · rw [if_neg hempty, if_pos hshort]
    split
    · exact .same w _
    · exact .same w _
  simp only [if_neg hempty, if_neg hshort]
  split
  · exact adminWrite_quiet fun st hst => writeAddress_configured (by simp) (by simp) hst
  split
  · exact adminWrite_quiet fun st hst => writeAddress_configured (by simp) (by simp) hst
  split
  · exact adminWrite_quiet fun st hst => writeBurnRatio_configured hst
  split
  · refine adminWrite_quiet fun st hst => ?_
    obtain rfl := Except.ok.inj hst
    exact .of_set _ _ (by simp) (by simp)
  split
  · exact adminRead_quiet w _ _
  split
  · exact adminRead_quiet w _ _
  split
  · exact adminRead_quiet w _ _
  split
  · unfold getSplit
    split
    · exact .same w _
    split
    · exact .same w _
    · exact .same w _
  split
  · exact adminRead_quiet w _ _
  · next h1 h2 h3 h4 h5 h6 h7 h8 h9 =>
      have hmem : input.take 4 ∈ selectors := by
        simpa [isReceive, hempty, Nat.not_lt.mp hshort] using h
      simp [selectors, h1, h2, h3, h4, h5, h6, h7, h8, h9] at hmem

/-- A call that does not split: a receipt changes nothing, and succeeds only where nothing
is new. -/
structure Idle (w : World) (a : DeadAddress) (input : List UInt8) (readOnly : Bool)
    (out : Outcome) : Prop where
  quiet : Quiet w out
  receipt : isReceive input = true → out.1 = w ∧
    ∀ reply, out.2 = .ok reply → readOnly = false → w.balance a.address ≤ getBurned w.storage a

/-- A call splits what is new at its address, or changes configuration words at most. -/
theorem run_cases (w : World) (caller : Address) (a : DeadAddress) (input : List UInt8)
    (gas : ℕ) (readOnly : Bool) :
    (Splits w a input gas readOnly ∧
      run w caller a input gas readOnly = done (split w a) (gas - gasBase)) ∨
    (¬ Splits w a input gas readOnly ∧
      Idle w a input readOnly (run w caller a input gas readOnly)) := by
  cases hreceive : isReceive input with
  | false =>
      refine .inr ⟨fun h => ?_, run_of_not_isReceive hreceive w caller a gas readOnly,
        fun h => by rw [hreceive] at h; cases h⟩
      have hinput := h.1
      rw [hreceive] at hinput
      cases hinput
  | true =>
      rw [run_of_isReceive hreceive]
      rcases handleReceive_cases w a gas readOnly with
        ⟨hgas, henabled, hfresh, hwrite, heq⟩ | ⟨hnot, r, heq, hidle⟩
      · exact .inl ⟨⟨hreceive, hgas, henabled, hfresh, hwrite⟩, heq⟩
      · refine .inr ⟨fun h => hnot h.2, ?_⟩
        rw [heq]
        exact ⟨.same w r, fun _ => ⟨rfl, hidle⟩⟩

/-! ## The split -/

/-- The burned share of a value. -/
def burnShare (value burnBPS : ℕ) : ℕ := value * burnBPS % 2 ^ 256 / basisPoints

theorem burnShare_le {value burnBPS : ℕ} (h : burnBPS ≤ basisPoints) :
    burnShare value burnBPS ≤ value := by
  have hmul : value * burnBPS ≤ value * basisPoints := Nat.mul_le_mul_left _ h
  have hmod := Nat.mod_le (value * burnBPS) (2 ^ 256)
  rw [burnShare]
  apply Nat.div_le_of_le_mul
  rw [Nat.mul_comm basisPoints]
  exact hmod.trans hmul

/-- The two shares of a 256-bit value are the whole value. -/
theorem calculateSplit_eq {value burnBPS : ℕ} (hvalue : value < 2 ^ 256)
    (h : burnBPS ≤ basisPoints) :
    calculateSplit value burnBPS =
      (burnShare value burnBPS, value - burnShare value burnBPS) := by
  have hle : burnShare value burnBPS ≤ value := burnShare_le h
  unfold calculateSplit
  split_ifs with hzero
  · subst hzero
    simp [burnShare]
  · simp only [burnShare, Prod.mk.injEq] at hle ⊢
    refine ⟨trivial, ?_⟩
    rw [Nat.sub_add_comm hle, Nat.add_mod_right,
      Nat.mod_eq_of_lt (lt_of_le_of_lt (Nat.sub_le _ _) hvalue)]

section SplitEffects

variable {w : World} {a : DeadAddress}

/-- The burned share of what is new at an address. -/
def newBurn (w : World) (a : DeadAddress) : ℕ := burnShare (fresh w a) (getBurnRatio w.storage)

theorem split_storage (hratio : getBurnRatio w.storage ≤ basisPoints)
    (hbacked : getBurned w.storage a ≤ w.balance a.address)
    (hbalance : w.balance a.address < 2 ^ 256) :
    (split w a).storage = setBurned w.storage a (getBurned w.storage a + newBurn w a) := by
  have hfresh : w.balance a.address - getBurned w.storage a < 2 ^ 256 := by omega
  have hle : newBurn w a ≤ fresh w a := burnShare_le hratio
  simp only [fresh] at hle
  simp only [split, calculateSplit_eq hfresh hratio]
  rw [show burnShare (w.balance a.address - getBurned w.storage a) (getBurnRatio w.storage) =
    newBurn w a from rfl, Nat.mod_eq_of_lt (by omega)]

theorem split_bank (hratio : getBurnRatio w.storage ≤ basisPoints)
    (hbalance : w.balance a.address < 2 ^ 256) :
    (split w a).bank =
      if fresh w a - newBurn w a = 0 then w.bank
      else w.bank.move native a.address (getTreasury w.storage) (fresh w a - newBurn w a) := by
  have hfresh : w.balance a.address - getBurned w.storage a < 2 ^ 256 := by omega
  simp only [split, calculateSplit_eq hfresh hratio]
  rfl

theorem getBurned_setBurned (st : Storage) (a b : DeadAddress) {v : ℕ} (hv : v < 2 ^ 256) :
    getBurned (setBurned st a v) b = if b = a then v else getBurned st b := by
  unfold getBurned setBurned
  split_ifs with h
  · subst h
    rw [Store.set_self, BitVec.toNat_ofNat, Nat.mod_eq_of_lt hv]
  · rw [Store.set_of_ne _ _ (by simpa using h)]

theorem getBurnRatio_setBurned (st : Storage) (a : DeadAddress) (v : ℕ) :
    getBurnRatio (setBurned st a v) = getBurnRatio st := getBurnRatio_of_ne st _ (by simp)

end SplitEffects

end LuxPrecompile.Dead
