import LuxPrecompile.Dead.Effects

/-!
# The two ways of splitting a value

`dead/contract.go` splits a value between the burned and the treasury share twice: in
wrapping 256-bit words for the precompile, and in unbounded integers.  The two agree as
long as the product of the value and the ratio fits a word.
-/

namespace LuxPrecompile.Dead

open Evm

/-- `CalculateSplitBig`: the ratio goes through `int64`. -/
def calculateSplitBig (value : ℤ) (burnBPS : ℕ) : ℤ × ℤ :=
  if value = 0 then (0, 0)
  else
    let burn := value * (burnBPS : ℤ).bmod (2 ^ 64) / basisPoints
    (burn, value - burn)

/-- The ratios `setBurnRatio` accepts: those a successful call leaves behind. -/
def AcceptedRatio (ratio : ℕ) : Prop :=
  ∃ (w w' : World) (caller : Address) (args : List UInt8) (gas : ℕ) (reply : Reply),
    setBurnRatio w caller args gas false = (w', .ok reply) ∧ getBurnRatio w'.storage = ratio

theorem writeBurnRatio_ok {st st' : Storage} {args : List UInt8}
    (h : writeBurnRatio st args = .ok st') : getBurnRatio st' ≤ basisPoints := by
  simp only [writeBurnRatio] at h
  split_ifs at h with hle
  obtain rfl := Except.ok.inj h
  rw [getBurnRatio_set]
  exact Nat.le_of_not_lt hle

theorem setBurnRatio_ok {w w' : World} {caller : Address} {args : List UInt8} {gas : ℕ}
    {reply : Reply} (h : setBurnRatio w caller args gas false = (w', .ok reply)) :
    getBurnRatio w'.storage ≤ basisPoints := by
  unfold setBurnRatio adminWrite at h
  simp only [Bool.false_eq_true, if_false] at h
  split_ifs at h
  · cases h
  · cases h
  · cases h
  · cases hwrite : writeBurnRatio w.storage args with
    | error e =>
        rw [hwrite] at h
        cases h
    | ok st =>
        rw [hwrite] at h
        cases h
        exact writeBurnRatio_ok hwrite

theorem AcceptedRatio.le {ratio : ℕ} (h : AcceptedRatio ratio) : ratio ≤ basisPoints := by
  obtain ⟨w, w', caller, args, gas, reply, hcall, hratio⟩ := h
  rw [← hratio]
  exact setBurnRatio_ok hcall

/-- What is expected of the split of one value at one ratio. -/
structure SplitSound (ratio value : ℕ) : Prop where
  agree : calculateSplitBig value ratio =
    (((calculateSplit value ratio).1 : ℤ), ((calculateSplit value ratio).2 : ℤ))
  exact : (calculateSplit value ratio).1 = value * ratio / basisPoints
  whole : (calculateSplit value ratio).1 + (calculateSplit value ratio).2 = value
  /-- The words of a reply to `getSplit` sum to its argument, and a smaller argument has no
  larger burned word. -/
  words : ∀ (w : World) (args : List UInt8) (gas : ℕ) (reply : Reply),
    getBurnRatio w.storage = ratio → bytesToNat (slice args 0 32) = value →
    (getSplit w args gas).2 = .ok reply →
    bytesToNat (slice reply.ret 0 32) + bytesToNat (slice reply.ret 32 64) = value ∧
    ∀ (args' : List UInt8) (gas' : ℕ) (reply' : Reply),
      bytesToNat (slice args' 0 32) ≤ value → (getSplit w args' gas').2 = .ok reply' →
      bytesToNat (slice reply'.ret 0 32) ≤ bytesToNat (slice reply.ret 0 32)

/-! ## When the product fits -/

section Fits

variable {ratio value : ℕ}

theorem burnShare_exact_iff : burnShare value ratio = value * ratio / basisPoints ↔
    value * ratio < 2 ^ 256 := by
  constructor
  · intro h
    by_contra hlarge
    have hmod : value * ratio % 2 ^ 256 ≤ value * ratio - 2 ^ 256 := by
      rw [Nat.mod_eq_sub_mod (Nat.le_of_not_lt hlarge)]
      exact Nat.mod_le _ _
    unfold burnShare basisPoints at h
    omega
  · intro h
    rw [burnShare, Nat.mod_eq_of_lt h]

theorem burnShare_mono {smaller : ℕ} (hfits : value * ratio < 2 ^ 256)
    (hle : smaller ≤ value) : burnShare smaller ratio ≤ burnShare value ratio := by
  have hproduct : smaller * ratio ≤ value * ratio := Nat.mul_le_mul_right _ hle
  rw [burnShare_exact_iff.mpr hfits, burnShare_exact_iff.mpr (lt_of_le_of_lt hproduct hfits)]
  exact Nat.div_le_div_right hproduct

/-- The unbounded split is the exact one. -/
theorem calculateSplitBig_eq (hratio : ratio ≤ basisPoints) :
    calculateSplitBig value ratio =
      (((value * ratio / basisPoints : ℕ) : ℤ),
        (value : ℤ) - (value * ratio / basisPoints : ℕ)) := by
  have hint64 : (ratio : ℤ).bmod (2 ^ 64) = ratio := by
    unfold basisPoints at hratio
    apply Int.bmod_eq_of_le
    · norm_num
    · norm_num
      omega
  unfold calculateSplitBig
  split_ifs with hzero
  · have hvalue : value = 0 := by exact_mod_cast hzero
    subst hvalue
    simp
  · rw [hint64]
    push_cast
    rfl

/-- What `getSplit` returns. -/
theorem getSplit_ok {w : World} {args : List UInt8} {gas : ℕ} {reply : Reply}
    (hratio : getBurnRatio w.storage ≤ basisPoints) (h : (getSplit w args gas).2 = .ok reply) :
    let value := bytesToNat (slice args 0 32)
    bytesToNat (slice reply.ret 0 32) = burnShare value (getBurnRatio w.storage) ∧
    bytesToNat (slice reply.ret 32 64) =
      value - burnShare value (getBurnRatio w.storage) := by
  have hvalue : bytesToNat (slice args 0 32) < 2 ^ 256 := by
    have hlt := bytesToNat_lt (slice args 0 32)
    have hlen : (slice args 0 32).length ≤ 32 := by
      rw [slice, List.length_take]
      exact Nat.min_le_left _ _
    have hpow : 256 ^ (slice args 0 32).length ≤ 256 ^ 32 :=
      Nat.pow_le_pow_right (by norm_num) hlen
    norm_num at hpow ⊢
    omega
  have hle : burnShare (bytesToNat (slice args 0 32)) (getBurnRatio w.storage) ≤
      bytesToNat (slice args 0 32) := burnShare_le hratio
  unfold getSplit at h
  split_ifs at h
  · cases h
  · cases h
  simp only [calculateSplit_eq hvalue hratio, Except.ok.injEq] at h
  subst h
  generalize bytesToNat (slice args 0 32) = value at hvalue hle ⊢
  have hfits : ∀ x, x ≤ value → x < 256 ^ 32 := by
    intro x hx
    norm_num at hvalue ⊢
    omega
  refine ⟨?_, ?_⟩
  · rw [slice_append_left (by simp), slice_all (by simp), bytesToNat_natToBytes (hfits _ hle)]
  · rw [slice_append_right (by simp), natToBytes_length, Nat.sub_self, slice_all (by simp),
      bytesToNat_natToBytes (hfits _ (Nat.sub_le _ _))]

end Fits

/-- The split of a word at an accepted ratio is what is expected exactly when the product
fits a word. -/
theorem split_sound_iff {ratio value : ℕ} (hratio : AcceptedRatio ratio)
    (hvalue : value < 2 ^ 256) : SplitSound ratio value ↔ value * ratio < 2 ^ 256 := by
  have hle := hratio.le
  have hsplit := calculateSplit_eq hvalue hle
  have hburn : burnShare value ratio ≤ value := burnShare_le hle
  constructor
  · intro h
    have hexact := h.exact
    rw [hsplit] at hexact
    exact burnShare_exact_iff.mp hexact
  · intro hfits
    have hexact := burnShare_exact_iff.mpr hfits
    refine ⟨?_, ?_, ?_, fun w args gas reply hset harg hreply => ?_⟩
    · rw [hsplit, calculateSplitBig_eq hle, ← hexact, Nat.cast_sub hburn]
    · rw [hsplit]
      exact hexact
    · rw [hsplit]
      exact Nat.add_sub_cancel' hburn
    · have hwords := getSplit_ok (by rwa [hset]) hreply
      simp only [hset, harg] at hwords
      refine ⟨by rw [hwords.1, hwords.2, Nat.add_sub_cancel' hburn],
        fun args' gas' reply' hsmaller hreply' => ?_⟩
      have hwords' := getSplit_ok (by rwa [hset]) hreply'
      simp only [hset] at hwords'
      rw [hwords.1, hwords'.1]
      exact burnShare_mono hfits hsmaller

theorem acceptedRatio_half : AcceptedRatio 5000 := by
  refine ⟨⟨fun _ _ => 0, Store.set (fun _ => 0) .admin (addressWord 5)⟩, _, 5,
    natToBytes 32 5000, gasAdminWrite, ⟨[], 0⟩, rfl, ?_⟩
  decide

theorem split_sound_hundred : SplitSound 5000 100 :=
  (split_sound_iff acceptedRatio_half (by norm_num)).mpr (by norm_num)

/-- Half of `2 ^ 255` is burned as nothing. -/
theorem split_wraps : ¬ ∀ ratio value, AcceptedRatio ratio → value < 2 ^ 256 →
    SplitSound ratio value := by
  intro h
  have hexact := (h 5000 (2 ^ 255) acceptedRatio_half (by norm_num)).exact
  revert hexact
  decide

end LuxPrecompile.Dead
