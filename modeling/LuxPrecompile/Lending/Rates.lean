import LuxPrecompile.Lending.Solvency

/-!
# How the interest rates move

The functions of `dex/interest_rate.go` over every amount.  The utilization is a capped
ratio, so it orders the rates of two markets before the kink is looked at: the annual rate
is nondecreasing in the utilization, on both sides of the kink and across it.
-/

namespace LuxPrecompile.Lending

/-! ## The other functions of a model -/

def stablecoinInterestRateModel : InterestRateModel where
  baseRate := 0
  slope1 := 2 * ray / 100
  slope2 := 60 * ray / 100
  optimalUtilization := 90 * ray / 100
  reserveFactor := 5 * ray / 100

def volatileInterestRateModel : InterestRateModel where
  baseRate := 2 * ray / 100
  slope1 := 7 * ray / 100
  slope2 := 100 * ray / 100
  optimalUtilization := 65 * ray / 100
  reserveFactor := 20 * ray / 100

namespace InterestRateModel

variable (m : InterestRateModel)

def getSupplyRate (totalCash totalBorrows reserves : ℤ) : ℤ :=
  let borrowRate := m.getBorrowRate totalCash totalBorrows reserves
  let utilization := getUtilizationRate totalCash totalBorrows reserves
  let oneMinusReserve := ray - m.reserveFactor
  borrowRate * utilization / ray * oneMinusReserve / ray

def calculateCompoundInterest (principal totalCash totalBorrows reserves : ℤ)
    (blocks : UInt64) : ℤ :=
  if blocks = 0 ∨ principal = 0 then 0
  else if blocks ≤ 100 then
    m.accrueInterest principal totalCash totalBorrows reserves blocks
  else
    let borrowRate := m.getBorrowRate totalCash totalBorrows reserves
    let rt := borrowRate * blocks.toInt64.toInt
    let rtSquared := rt * rt / ray / 2
    let multiplier := rt + rtSquared
    principal * multiplier / ray

/-- A model with nonnegative parameters whose fractions are at most one. -/
structure WellFormed : Prop where
  baseRate_nonneg : 0 ≤ m.baseRate
  slope1_nonneg : 0 ≤ m.slope1
  slope2_nonneg : 0 ≤ m.slope2
  optimalUtilization_nonneg : 0 ≤ m.optimalUtilization
  optimalUtilization_le : m.optimalUtilization ≤ ray
  reserveFactor_nonneg : 0 ≤ m.reserveFactor
  reserveFactor_le : m.reserveFactor ≤ ray

theorem wellFormed_of_mem {m : InterestRateModel}
    (h : m ∈ [defaultInterestRateModel, stablecoinInterestRateModel,
      volatileInterestRateModel]) : m.WellFormed := by
  simp only [List.mem_cons, List.not_mem_nil, or_false] at h
  rcases h with rfl | rfl | rfl <;> exact ⟨by decide, by decide, by decide, by decide, by decide,
    by decide, by decide⟩

/-! ## The utilization -/

theorem utilization_nonneg {cash borrows reserves : ℤ} (hborrows : 0 ≤ borrows) :
    0 ≤ getUtilizationRate cash borrows reserves := by
  simp only [getUtilizationRate]
  split_ifs with hzero havailable hcap
  · exact le_rfl
  · exact ray_pos.le
  · exact ray_pos.le
  · exact Int.ediv_nonneg (mul_nonneg hborrows ray_pos.le) (not_le.mp havailable).le

theorem utilization_le_ray (cash borrows reserves : ℤ) :
    getUtilizationRate cash borrows reserves ≤ ray := by
  simp only [getUtilizationRate]
  split_ifs with hzero havailable hcap
  · exact ray_pos.le
  · exact le_rfl
  · exact le_rfl
  · exact not_lt.mp hcap

/-- Where the reserves take all the cash, the utilization is at its cap. -/
theorem utilization_eq_ray {cash borrows reserves : ℤ} (hborrows : 0 < borrows)
    (h : cash ≤ reserves) : getUtilizationRate cash borrows reserves = ray := by
  unfold getUtilizationRate
  rw [if_neg hborrows.ne']
  by_cases havailable : cash + borrows - reserves ≤ 0
  · exact if_pos havailable
  · rw [if_neg havailable]
    have hle : borrows * ray / (cash + borrows - reserves) ≥ ray := by
      apply Int.le_ediv_of_mul_le (not_le.mp havailable)
      rw [mul_comm]
      exact mul_le_mul_of_nonneg_right (by linarith) ray_pos.le
    by_cases hcap : ray < borrows * ray / (cash + borrows - reserves)
    · exact if_pos hcap
    · exact (if_neg hcap).trans (le_antisymm (not_lt.mp hcap) hle)

/-- Where cash is left over the reserves, the utilization is the ratio itself. -/
theorem utilization_eq_ratio {cash borrows reserves : ℤ} (hborrows : 0 ≤ borrows)
    (h : reserves < cash) :
    getUtilizationRate cash borrows reserves =
      borrows * ray / (cash + borrows - reserves) := by
  unfold getUtilizationRate
  have havailable : 0 < cash + borrows - reserves := by linarith
  by_cases hzero : borrows = 0
  · simp [hzero]
  · have hratio : borrows * ray / (cash + borrows - reserves) ≤ ray := by
      apply Int.ediv_le_of_le_mul havailable
      rw [mul_comm]
      exact mul_le_mul_of_nonneg_left (by linarith) ray_pos.le
    rw [if_neg hzero, if_neg (not_le.mpr havailable), if_neg (not_lt.mpr hratio)]

theorem ediv_le_ediv_of_cross {a b c d : ℤ} (hb : 0 < b) (hd : 0 < d) (h : a * d ≤ c * b) :
    a / b ≤ c / d := by
  apply Int.le_ediv_of_mul_le hd
  have hfloor : a / b * b ≤ a := Int.ediv_mul_le a hb.ne'
  have hscaled : a / b * d * b ≤ c * b := by
    calc a / b * d * b = a / b * b * d := by ring
      _ ≤ a * d := mul_le_mul_of_nonneg_right hfloor hd.le
      _ ≤ c * b := h
  exact le_of_mul_le_mul_right hscaled hb

/-- The utilization of a market with more borrows, or with less cash, is no less. -/
theorem utilization_mono {cash cash' borrows borrows' reserves : ℤ} (hborrows : 0 ≤ borrows)
    (hmore : borrows ≤ borrows') (hless : cash' ≤ cash) :
    getUtilizationRate cash borrows reserves ≤ getUtilizationRate cash' borrows' reserves := by
  have hborrows' : 0 ≤ borrows' := hborrows.trans hmore
  by_cases hzero : borrows = 0
  · have hleft : getUtilizationRate cash borrows reserves = 0 := by
      rw [getUtilizationRate, if_pos hzero]
    rw [hleft]
    exact utilization_nonneg hborrows'
  have hpos : 0 < borrows' := lt_of_lt_of_le (lt_of_le_of_ne hborrows (Ne.symm hzero)) hmore
  by_cases hcash : cash' ≤ reserves
  · rw [utilization_eq_ray hpos hcash]
    exact utilization_le_ray _ _ _
  · have hcash' : reserves < cash' := not_le.mp hcash
    rw [utilization_eq_ratio hborrows (hcash'.trans_le hless),
      utilization_eq_ratio hborrows' hcash']
    apply ediv_le_ediv_of_cross (by linarith) (by linarith)
    have hmargin : borrows * (cash' - reserves) ≤ borrows' * (cash - reserves) :=
      mul_le_mul hmore (by linarith) (by linarith) hborrows'
    have hcross : borrows * (cash' + borrows' - reserves) ≤
        borrows' * (cash + borrows - reserves) := by linarith
    calc borrows * ray * (cash' + borrows' - reserves)
        = borrows * (cash' + borrows' - reserves) * ray := by ring
      _ ≤ borrows' * (cash + borrows - reserves) * ray :=
          mul_le_mul_of_nonneg_right hcross ray_pos.le
      _ = borrows' * ray * (cash + borrows - reserves) := by ring

theorem utilization_mul_available {cash borrows reserves : ℤ} (hborrows : 0 ≤ borrows)
    (havailable : 0 < cash + borrows - reserves) :
    getUtilizationRate cash borrows reserves * (cash + borrows - reserves) ≤ borrows * ray := by
  have hfloor := Int.ediv_mul_le (borrows * ray) havailable.ne'
  simp only [getUtilizationRate]
  split_ifs with hzero hnone hcap
  · rw [zero_mul]
    exact mul_nonneg hborrows ray_pos.le
  · exact absurd havailable (not_lt.mpr hnone)
  · exact (mul_le_mul_of_nonneg_right hcap.le havailable.le).trans hfloor
  · exact hfloor

/-! ## The borrow rate -/

/-- The annual rate at a utilization: the two slopes of `GetBorrowRate`. -/
def annualRate (utilization : ℤ) : ℤ :=
  if utilization ≤ m.optimalUtilization then utilization * m.slope1 / ray + m.baseRate
  else
    m.optimalUtilization * m.slope1 / ray + m.baseRate +
      (utilization - m.optimalUtilization) * m.slope2 / ray

theorem getBorrowRate_eq (cash borrows reserves : ℤ) :
    m.getBorrowRate cash borrows reserves =
      toBlockRate (m.annualRate (getUtilizationRate cash borrows reserves)) := by
  simp only [getBorrowRate, annualRate]
  split_ifs with h
  · rfl
  · rfl

variable {m}

theorem WellFormed.annualRate_mono (h : m.WellFormed) : Monotone m.annualRate := by
  intro u v huv
  have hslope1 : ∀ {x y : ℤ}, x ≤ y → x * m.slope1 / ray ≤ y * m.slope1 / ray := fun hxy =>
    Int.ediv_le_ediv ray_pos (mul_le_mul_of_nonneg_right hxy h.slope1_nonneg)
  unfold annualRate
  split_ifs with hu hv hv
  · linarith [hslope1 huv]
  · have hexcess : 0 ≤ (v - m.optimalUtilization) * m.slope2 / ray :=
      Int.ediv_nonneg (mul_nonneg (by linarith) h.slope2_nonneg) ray_pos.le
    linarith [hslope1 hu]
  · exact absurd (huv.trans hv) hu
  · have hslope2 : (u - m.optimalUtilization) * m.slope2 / ray ≤
        (v - m.optimalUtilization) * m.slope2 / ray :=
      Int.ediv_le_ediv ray_pos (mul_le_mul_of_nonneg_right (by linarith) h.slope2_nonneg)
    linarith

theorem WellFormed.annualRate_nonneg (h : m.WellFormed) {u : ℤ} (hu : 0 ≤ u) :
    0 ≤ m.annualRate u := by
  have hzero : m.annualRate 0 = m.baseRate := by
    rw [annualRate, if_pos h.optimalUtilization_nonneg, zero_mul, Int.zero_ediv, zero_add]
  calc (0 : ℤ) ≤ m.baseRate := h.baseRate_nonneg
    _ = m.annualRate 0 := hzero.symm
    _ ≤ m.annualRate u := h.annualRate_mono hu

theorem toBlockRate_mono : Monotone toBlockRate := fun _ _ hxy =>
  Int.ediv_le_ediv (by decide) hxy

theorem WellFormed.borrowRate_nonneg (h : m.WellFormed) {cash borrows reserves : ℤ}
    (hborrows : 0 ≤ borrows) : 0 ≤ m.getBorrowRate cash borrows reserves := by
  rw [getBorrowRate_eq]
  exact Int.ediv_nonneg (h.annualRate_nonneg (utilization_nonneg hborrows)) (by decide)

theorem WellFormed.borrowRate_mono (h : m.WellFormed) {cash cash' borrows borrows' reserves : ℤ}
    (hborrows : 0 ≤ borrows) (hmore : borrows ≤ borrows') (hless : cash' ≤ cash) :
    m.getBorrowRate cash borrows reserves ≤ m.getBorrowRate cash' borrows' reserves := by
  rw [getBorrowRate_eq, getBorrowRate_eq]
  exact toBlockRate_mono (h.annualRate_mono (utilization_mono hborrows hmore hless))

/-! ## The supply rate -/

/-- Suppliers are paid at most what borrowers pay. -/
theorem WellFormed.supplyRate_le (h : m.WellFormed) {cash borrows reserves : ℤ}
    (hborrows : 0 ≤ borrows) (havailable : 0 < cash + borrows - reserves) :
    m.getSupplyRate cash borrows reserves * (cash + borrows - reserves) ≤
      m.getBorrowRate cash borrows reserves * borrows := by
  have hrate : 0 ≤ m.getBorrowRate cash borrows reserves := h.borrowRate_nonneg hborrows
  have hutilized := utilization_mul_available hborrows havailable
  unfold getSupplyRate
  set rate := m.getBorrowRate cash borrows reserves
  set utilization := getUtilizationRate cash borrows reserves with hutilization
  set available := cash + borrows - reserves
  have hgross : 0 ≤ rate * utilization / ray :=
    Int.ediv_nonneg (mul_nonneg hrate (utilization_nonneg hborrows)) ray_pos.le
  have hnet : rate * utilization / ray * (ray - m.reserveFactor) / ray ≤
      rate * utilization / ray := by
    apply Int.ediv_le_of_le_mul ray_pos
    exact mul_le_mul_of_nonneg_left (by linarith [h.reserveFactor_nonneg]) hgross
  have hfloor : rate * utilization / ray * ray ≤ rate * utilization :=
    Int.ediv_mul_le _ ray_pos.ne'
  have hscaled : rate * utilization / ray * available * ray ≤ rate * borrows * ray := by
    calc rate * utilization / ray * available * ray
        = rate * utilization / ray * ray * available := by ring
      _ ≤ rate * utilization * available := mul_le_mul_of_nonneg_right hfloor havailable.le
      _ = rate * (utilization * available) := by ring
      _ ≤ rate * (borrows * ray) := mul_le_mul_of_nonneg_left hutilized hrate
      _ = rate * borrows * ray := by ring
  calc rate * utilization / ray * (ray - m.reserveFactor) / ray * available
      ≤ rate * utilization / ray * available := mul_le_mul_of_nonneg_right hnet havailable.le
    _ ≤ rate * borrows := le_of_mul_le_mul_right hscaled ray_pos

/-! ## Interest over blocks -/

theorem toInt64_of_lt {blocks : UInt64} (h : blocks.toNat < 2 ^ 63) :
    blocks.toInt64.toInt = blocks.toNat := by
  have hbits : blocks.toInt64.toInt = blocks.toBitVec.toInt := rfl
  rw [hbits, BitVec.toInt_eq_toNat_of_lt]
  · rfl
  · have hnat : blocks.toBitVec.toNat = blocks.toNat := rfl
    omega

/-- The growth of one unit of principal at a rate: the rate alone up to 100 blocks, and with
half its square from there on. -/
def growth (rate blocks : ℤ) : ℤ :=
  if blocks ≤ 100 then rate * blocks
  else rate * blocks + rate * blocks * (rate * blocks) / ray / 2

theorem accrueInterest_eq_growth (m : InterestRateModel)
    (principal cash borrows reserves : ℤ) {blocks : UInt64} (h : blocks.toNat < 2 ^ 63) :
    m.accrueInterest principal cash borrows reserves blocks =
      principal * (m.getBorrowRate cash borrows reserves * blocks.toNat) / ray := by
  unfold accrueInterest
  rw [toInt64_of_lt h]
  split_ifs with hzero
  · rcases hzero with rfl | rfl
    · simp
    · simp
  · rw [mul_assoc]

theorem compoundInterest_eq_growth (m : InterestRateModel)
    (principal cash borrows reserves : ℤ) {blocks : UInt64} (h : blocks.toNat < 2 ^ 63) :
    m.calculateCompoundInterest principal cash borrows reserves blocks =
      principal * growth (m.getBorrowRate cash borrows reserves) blocks.toNat / ray := by
  have hsmall : blocks ≤ 100 ↔ (blocks.toNat : ℤ) ≤ 100 := by
    rw [UInt64.le_iff_toNat_le]
    exact Nat.cast_le.symm
  unfold calculateCompoundInterest growth
  simp only [hsmall]
  split_ifs with hzero hblocks hblocks
  · rcases hzero with rfl | rfl
    · simp
    · simp
  · rcases hzero with rfl | rfl
    · simp at hblocks
    · simp
  · exact accrueInterest_eq_growth m principal cash borrows reserves h
  · rw [toInt64_of_lt h]

theorem le_growth (rate blocks : ℤ) : rate * blocks ≤ growth rate blocks := by
  unfold growth
  split_ifs with hsmall
  · exact le_rfl
  · have hsquare : 0 ≤ rate * blocks * (rate * blocks) / ray / 2 :=
      Int.ediv_nonneg (Int.ediv_nonneg (mul_self_nonneg _) ray_pos.le) (by decide)
    linarith

/-- The growth is nondecreasing, across the switch of formula too. -/
theorem growth_mono {rate blocks blocks' : ℤ} (hrate : 0 ≤ rate) (hblocks : 0 ≤ blocks)
    (h : blocks ≤ blocks') : growth rate blocks ≤ growth rate blocks' := by
  have hrt : rate * blocks ≤ rate * blocks' := mul_le_mul_of_nonneg_left h hrate
  by_cases hsmall : blocks ≤ 100
  · calc growth rate blocks = rate * blocks := if_pos hsmall
      _ ≤ rate * blocks' := hrt
      _ ≤ growth rate blocks' := le_growth rate blocks'
  · have hsmall' : ¬ blocks' ≤ 100 := fun hle => hsmall (h.trans hle)
    have hnonneg : 0 ≤ rate * blocks := mul_nonneg hrate hblocks
    have hsquare : rate * blocks * (rate * blocks) / ray / 2 ≤
        rate * blocks' * (rate * blocks') / ray / 2 :=
      Int.ediv_le_ediv (by decide)
        (Int.ediv_le_ediv ray_pos (mul_le_mul hrt hrt hnonneg (hnonneg.trans hrt)))
    rw [growth, growth, if_neg hsmall, if_neg hsmall']
    linarith

/-- The interest on a debt is ordered as the growth is, and on a negative principal the
other way. -/
theorem interest_mono (principal : ℤ) {g g' : ℤ} (h : g ≤ g') :
    (0 ≤ principal → principal * g / ray ≤ principal * g' / ray) ∧
      (principal ≤ 0 → principal * g' / ray ≤ principal * g / ray) :=
  ⟨fun hp => Int.ediv_le_ediv ray_pos (mul_le_mul_of_nonneg_left h hp),
    fun hp => Int.ediv_le_ediv ray_pos (mul_le_mul_of_nonpos_left h hp)⟩

/-! ## The model as a whole -/

/-- What a market with these amounts charges, pays and compounds, in the order its amounts
are in.  Cash and reserves of either sign are covered. -/
theorem interest_rates_ordered (m : InterestRateModel) (h : m.WellFormed)
    (cash borrows reserves : ℤ) (hborrows : 0 ≤ borrows) :
    (∀ borrows', borrows ≤ borrows' →
        m.getBorrowRate cash borrows reserves ≤ m.getBorrowRate cash borrows' reserves) ∧
      (∀ cash', cash ≤ cash' →
        m.getBorrowRate cash' borrows reserves ≤ m.getBorrowRate cash borrows reserves) ∧
      (0 < cash + borrows - reserves →
        m.getSupplyRate cash borrows reserves * (cash + borrows - reserves) ≤
          m.getBorrowRate cash borrows reserves * borrows) ∧
      ∀ (principal : ℤ) (blocks blocks' : UInt64),
        blocks ≤ blocks' → blocks'.toNat < 2 ^ 63 →
        (0 ≤ principal →
          m.accrueInterest principal cash borrows reserves blocks ≤
              m.calculateCompoundInterest principal cash borrows reserves blocks ∧
            m.calculateCompoundInterest principal cash borrows reserves blocks ≤
              m.calculateCompoundInterest principal cash borrows reserves blocks') ∧
        -- A negative principal earns what a positive one owes.
        (principal ≤ 0 →
          m.calculateCompoundInterest principal cash borrows reserves blocks ≤
              m.accrueInterest principal cash borrows reserves blocks ∧
            m.calculateCompoundInterest principal cash borrows reserves blocks' ≤
              m.calculateCompoundInterest principal cash borrows reserves blocks) := by
  refine ⟨?_, ?_, ?_, ?_⟩
  · intro borrows' hmore
    exact h.borrowRate_mono hborrows hmore le_rfl
  · intro cash' hless
    exact h.borrowRate_mono hborrows le_rfl hless
  · intro havailable
    exact h.supplyRate_le hborrows havailable
  · intro principal blocks blocks' hle hlt'
    have hnat : blocks.toNat ≤ blocks'.toNat := UInt64.le_iff_toNat_le.mp hle
    have hlt : blocks.toNat < 2 ^ 63 := lt_of_le_of_lt hnat hlt'
    have hrate : 0 ≤ m.getBorrowRate cash borrows reserves := h.borrowRate_nonneg hborrows
    have hswitch := interest_mono principal
      (le_growth (m.getBorrowRate cash borrows reserves) blocks.toNat)
    have hlonger := interest_mono principal
      (growth_mono hrate (Nat.cast_nonneg blocks.toNat) (Nat.cast_le.mpr hnat))
    rw [accrueInterest_eq_growth m principal cash borrows reserves hlt,
      compoundInterest_eq_growth m principal cash borrows reserves hlt,
      compoundInterest_eq_growth m principal cash borrows reserves hlt']
    exact ⟨fun hp => ⟨hswitch.1 hp, hlonger.1 hp⟩, fun hp => ⟨hswitch.2 hp, hlonger.2 hp⟩⟩

/-- A market at 81% utilization, past the kink of the default model, over the switch of
formula at 100 blocks. -/
theorem interest_rates_ordered_pastKink :
    defaultInterestRateModel.getSupplyRate 19 81 0 * 100 ≤
        defaultInterestRateModel.getBorrowRate 19 81 0 * 81 ∧
      defaultInterestRateModel.calculateCompoundInterest (10 ^ 30) 19 81 0 100 ≤
        defaultInterestRateModel.calculateCompoundInterest (10 ^ 30) 19 81 0 101 := by
  have h := interest_rates_ordered defaultInterestRateModel
    ⟨by decide, by decide, by decide, by decide, by decide, by decide, by decide⟩ 19 81 0
    (by decide)
  exact ⟨h.2.2.1 (by decide), ((h.2.2.2 (10 ^ 30) 100 101 (by decide) (by decide)).1
    (by decide)).2⟩

end InterestRateModel

end LuxPrecompile.Lending
