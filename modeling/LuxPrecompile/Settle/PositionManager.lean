import LuxPrecompile.Settle.Run
import LuxPrecompile.Settle.Records

/-!
# The position manager

The adapter of `dex/position_module.go`.  A lifecycle operation is decoded, its
liquidity delta is given the sign of the operation, and the result is encoded
again as the calldata of the settlement kernel's `modifyLiquidity`.

The adapter's encoder and the kernel's decoder agree on every field except one
word: a liquidity of `-2 ^ 255` has no magnitude that fits a signed word, so an
operation that adds it reaches the kernel as the removal of the same number.
-/

namespace LuxPrecompile.Settle

open Evm Support

/-! ## The adapter -/

/-- `deltaSign`. -/
inductive DeltaSign
  | positive
  | negative
  | any
deriving DecidableEq, Repr

/-- `pmLifecycleArgs`. -/
structure LifecycleArgs where
  key : PoolKey
  tickLower : ℤ
  tickUpper : ℤ
  delta : ℤ
  salt : Word
  side : MakerSide
deriving DecidableEq

/-- The errors of the adapter; those of the decoders and of the kernel pass through. -/
inductive PositionManagerError
  | badInput
  | zeroDelta
  | unknownSelector
  | dex (e : Error)
deriving DecidableEq, Repr

/-- The sign an operation requires, by selector: mint, openPosition,
increaseLiquidity and placeLimit add; decreaseLiquidity, burn, closePosition and
cancelLimit remove; modifyPosition does either. -/
def lifecycleSign (selector : ℕ) : Option DeltaSign :=
  if selector ∈ [0xa42a5024, 0xb3797246, 0xdc1bb91f, 0xe535a528] then some .positive
  else if selector ∈ [0x2d7d42a4, 0x14a31b3a, 0x930e53b7, 0xd22e509e] then some .negative
  else if selector = 0x63e33d33 then some .any
  else none

def decodePMLifecycle (data : List UInt8) : Except PositionManagerError LifecycleArgs :=
  if data.length < 320 then .error .badInput
  else do
    let key ← (decodePoolKey (slice data 0 160)).mapError .dex
    if !fitsInt24 (argSigned data 160) then .error (.dex .invalidTick)
    else if !fitsInt24 (argSigned data 192) then .error (.dex .invalidTick)
    else
      .ok { key := key
            tickLower := argSigned data 160
            tickUpper := argSigned data 192
            delta := argSigned data 224
            salt := argWord data 256
            side := if data.getD 319 0 = 1 then .ask else .bid }

/-- The delta of an operation, with the sign the operation requires. -/
def coerceDelta (sign : DeltaSign) (delta : ℤ) : ℤ :=
  match sign with
  | .positive => |delta|
  | .negative => -|delta|
  | .any => delta

def encodeInt24Word (tick : ℤ) : List UInt8 :=
  natToBytes 32 (if tick < 0 then 2 ^ 256 + tick else tick).natAbs

def encodeSigned256 (v : ℤ) : List UInt8 :=
  if v = 0 then List.replicate 32 0
  else if 0 < v then natToBytes 32 v.natAbs
  else natToBytes 32 (2 ^ 256 + v).natAbs

/-- The zeros that pad dynamic bytes to whole words. -/
def padWords (data : List UInt8) : List UInt8 :=
  data ++ List.replicate ((data.length + 31) / 32 * 32 - data.length) 0

def buildModifyLiquidityArgs (key : PoolKey) (tickLower tickUpper delta : ℤ) (salt : Word)
    (hookData : List UInt8) : List UInt8 :=
  encodePoolKeyABI key ++ (encodeInt24Word tickLower ++ (encodeInt24Word tickUpper ++
    (encodeSigned256 delta ++ (hashBytes salt ++ (natToBytes 32 320 ++
      (natToBytes 32 hookData.length ++ padWords hookData))))))

/-- The maker envelope of a side. -/
def makerEnvelope (side : MakerSide) : List UInt8 :=
  makerEnvelopeTag ++ natToBytes 1 side.toByte

/-- The calldata `routeLifecycle` hands to the kernel. -/
def lifecycleInput (sign : DeltaSign) (data : List UInt8) :
    Except PositionManagerError (List UInt8) := do
  let args ← decodePMLifecycle data
  if args.delta = 0 then .error .zeroDelta
  else
    .ok (buildModifyLiquidityArgs args.key args.tickLower args.tickUpper
      (coerceDelta sign args.delta) args.salt (makerEnvelope args.side))

/-- `routeLifecycle`: the kernel runs with the caller's frame and state. -/
def routeLifecycle (fr : Frame) (w : World) (data : List UInt8) (gas : ℕ) (readOnly : Bool)
    (sign : DeltaSign) : Except PositionManagerError (World × Reply) := do
  let input ← lifecycleInput sign data
  (runSettleModifyLiquidity fr w input gas readOnly).mapError .dex

/-- The lifecycle operations of `Run`, behind their selectors. -/
def runLifecycle (fr : Frame) (w : World) (selector : ℕ) (data : List UInt8) (gas : ℕ)
    (readOnly : Bool) : Except PositionManagerError (World × Reply) :=
  match lifecycleSign selector with
  | none => .error .unknownSelector
  | some sign => routeLifecycle fr w data gas readOnly sign

/-! ## Words -/

theorem bytesToHash_natToBytes (n : ℕ) :
    bytesToHash (natToBytes 32 n) = BitVec.ofNat 256 n := by
  apply BitVec.eq_of_toNat_eq
  rw [bytesToHash, bytesToNat_natToBytes_mod, BitVec.toNat_ofNat, BitVec.toNat_ofNat]
  norm_num

/-- The words of a string made of fields of 32 bytes. -/
theorem argWord_fields {fields : List (List UInt8)} (hlen : ∀ f ∈ fields, f.length = 32)
    (rest : List UInt8) {k : ℕ} {field : List UInt8} (hk : fields[k]? = some field) :
    argWord (fields.flatten ++ rest) (32 * k) = bytesToHash field := by
  induction fields generalizing k with
  | nil => cases hk
  | cons f fields ih =>
      have hf : f.length = 32 := hlen f (List.mem_cons_self ..)
      rw [List.flatten_cons, List.append_assoc, argWord]
      cases k with
      | zero =>
          have hfield : f = field := Option.some.inj hk
          rw [slice_append_left (by omega), slice_all (by omega), hfield]
      | succ k =>
          rw [slice_append_right (by omega), hf]
          exact ih (fun g hg => hlen g (List.mem_cons_of_mem _ hg)) hk

@[simp]
theorem encodeInt24Word_length (tick : ℤ) : (encodeInt24Word tick).length = 32 :=
  natToBytes_length _ _

@[simp]
theorem encodeSigned256_length (v : ℤ) : (encodeSigned256 v).length = 32 := by
  unfold encodeSigned256
  split_ifs
  · exact List.length_replicate
  · exact natToBytes_length _ _
  · exact natToBytes_length _ _

theorem encodeInt24Word_read {tick : ℤ} (hlo : -2 ^ 255 ≤ tick) (hhi : tick < 2 ^ 255) :
    wordToInt (bytesToHash (encodeInt24Word tick)) = tick := by
  have hword : bytesToHash (encodeInt24Word tick) = intWord tick := by
    rw [encodeInt24Word, bytesToHash_natToBytes, intWord, bigToHash, bigToHash]
    split_ifs
    · rw [Int.add_comm]
    · rfl
  rw [hword, wordToInt_intWord hlo hhi]

/-- A delta reaches the kernel unchanged, except that `2 ^ 255` turns negative. -/
theorem encodeSigned256_read {v : ℤ} (hlo : -2 ^ 255 ≤ v) (hhi : v ≤ 2 ^ 255) :
    wordToInt (bytesToHash (encodeSigned256 v)) = if v = 2 ^ 255 then -2 ^ 255 else v := by
  have hword : bytesToHash (encodeSigned256 v) = intWord v := by
    unfold encodeSigned256 intWord bigToHash
    rcases lt_trichotomy v 0 with hneg | hzero | hpos
    · rw [if_neg hneg.ne, if_neg hneg.not_gt, if_pos hneg, bytesToHash_natToBytes, Int.add_comm]
    · subst hzero
      decide
    · rw [if_neg hpos.ne', if_pos hpos, if_neg hpos.not_gt, bytesToHash_natToBytes]
  rw [hword]
  split_ifs with htop
  · subst htop
    decide
  · exact wordToInt_intWord hlo (by omega)

theorem wordToInt_eq_min {h : Word} : wordToInt h = -2 ^ 255 ↔ h = BitVec.ofNat 256 (2 ^ 255) := by
  have hlt : h.toNat < 2 ^ 256 := h.isLt
  rw [wordToInt_eq]
  constructor
  · intro heq
    apply BitVec.eq_of_toNat_eq
    rw [BitVec.toNat_ofNat]
    split_ifs at heq
    · omega
    · omega
  · rintro rfl
    decide

/-! ## Pool keys -/

/-- The keys whose fields fit the wire. -/
structure PoolKey.Fits (key : PoolKey) : Prop where
  fee : key.fee < 2 ^ 24
  spacing : -2 ^ 23 ≤ key.tickSpacing ∧ key.tickSpacing < 2 ^ 23

theorem decodePoolKey_fits {data : List UInt8} {key : PoolKey}
    (h : decodePoolKey data = .ok key) : key.Fits := by
  simp only [decodePoolKey, refuse_eq_ok, Except.ok.injEq] at h
  obtain ⟨-, hfee, hspacing, rfl⟩ := h
  exact ⟨not_le.mp hfee, by simpa [fitsInt24] using hspacing⟩

@[simp]
theorem encodePoolKeyABI_length (key : PoolKey) : (encodePoolKeyABI key).length = 160 := by
  simp [encodePoolKeyABI, putInt24]

/-- The five slots of an encoded key. -/
def poolKeyFields (key : PoolKey) : List (List UInt8) :=
  [hashBytes (addressWord key.currency0), hashBytes (addressWord key.currency1),
    List.replicate 29 0 ++ natToBytes 3 key.fee,
    List.replicate 29 (if key.tickSpacing < 0 then 0xff else 0) ++ putInt24 key.tickSpacing,
    hashBytes (addressWord key.hooks)]

theorem encodePoolKeyABI_eq (key : PoolKey) :
    encodePoolKeyABI key = (poolKeyFields key).flatten := by
  simp only [encodePoolKeyABI, poolKeyFields, List.flatten_cons, List.flatten_nil,
    List.append_assoc, List.append_nil]

theorem poolKeyFields_lengths (key : PoolKey) : ∀ f ∈ poolKeyFields key, f.length = 32 := by
  simp [poolKeyFields]

theorem feeSlot_read {fee : ℕ} (h : fee < 2 ^ 24) :
    (bytesToHash (List.replicate 29 0 ++ natToBytes 3 fee)).toNat = fee := by
  have hlt : fee < 256 ^ 3 := by norm_num; omega
  rw [bytesToHash, bytesToNat_append, bytesToNat_replicate_zero, bytesToNat_natToBytes hlt,
    BitVec.toNat_ofNat, Nat.zero_mul, Nat.zero_add, Nat.mod_eq_of_lt (by omega)]

/-- A tick spacing is read back from its sign-extended slot. -/
theorem spacingSlot_read {v : ℤ} (hlo : -2 ^ 23 ≤ v) (hhi : v < 2 ^ 23) :
    wordToInt (bytesToHash (List.replicate 29 (if v < 0 then 0xff else 0) ++ putInt24 v)) =
      v := by
  have hlt : (v % 2 ^ 24).toNat < 256 ^ 3 := by omega
  have hlow : bytesToNat (putInt24 v) = (v % 2 ^ 24).toNat := bytesToNat_natToBytes hlt
  have hlen : 256 ^ (putInt24 v).length = 2 ^ 24 := by rw [putInt24_length]; norm_num
  rw [wordToInt_eq, bytesToHash, bytesToNat_append, hlow, hlen, BitVec.toNat_ofNat]
  by_cases hneg : v < 0
  · have hff : bytesToNat (List.replicate 29 0xff) = 2 ^ 232 - 1 := by decide
    rw [if_pos hneg, hff, Nat.mod_eq_of_lt (by omega), if_pos (by omega)]
    omega
  · rw [if_neg hneg, bytesToNat_replicate_zero, Nat.mod_eq_of_lt (by omega), if_neg (by omega)]
    omega

/-- A key that fits the wire is read back from its encoding. -/
theorem decodePoolKey_encodePoolKeyABI {key : PoolKey} (h : key.Fits) :
    decodePoolKey (encodePoolKeyABI key) = .ok key := by
  have hword : ∀ (k : ℕ) (field : List UInt8), (poolKeyFields key)[k]? = some field →
      argWord (encodePoolKeyABI key) (32 * k) = bytesToHash field := by
    intro k field hk
    have hread := argWord_fields (poolKeyFields_lengths key) [] hk
    rwa [List.append_nil, ← encodePoolKeyABI_eq] at hread
  have hcurrency0 := hword 0 _ rfl
  have hcurrency1 := hword 1 _ rfl
  have hfeeWord := hword 2 _ rfl
  have hspacingWord := hword 3 _ rfl
  have hhooks := hword 4 _ rfl
  have hfee := h.fee
  rw [decodePoolKey, if_neg (by simp), hfeeWord, feeSlot_read hfee, if_neg (by omega), argSigned,
    hspacingWord, spacingSlot_read h.spacing.1 h.spacing.2,
    if_neg (by simpa [fitsInt24] using h.spacing)]
  simp only [argAddress, hcurrency0, hcurrency1, hhooks, bytesToHash_hashBytes,
    wordAddress_addressWord]

/-! ## The kernel's reading -/

/-- The words of the built calldata in front of the hook data. -/
def modifyLiquidityFields (key : PoolKey) (tickLower tickUpper delta : ℤ) (salt : Word)
    (hookData : List UInt8) : List (List UInt8) :=
  poolKeyFields key ++ [encodeInt24Word tickLower, encodeInt24Word tickUpper,
    encodeSigned256 delta, hashBytes salt, natToBytes 32 320, natToBytes 32 hookData.length]

section Reading

variable {key : PoolKey} {tickLower tickUpper delta : ℤ} {salt : Word} {hookData : List UInt8}

theorem buildModifyLiquidityArgs_eq :
    buildModifyLiquidityArgs key tickLower tickUpper delta salt hookData =
      (modifyLiquidityFields key tickLower tickUpper delta salt hookData).flatten ++
        padWords hookData := by
  simp only [buildModifyLiquidityArgs, modifyLiquidityFields, encodePoolKeyABI_eq,
    List.flatten_append, List.flatten_cons, List.flatten_nil, List.append_assoc, List.append_nil]

theorem modifyLiquidityFields_lengths :
    ∀ f ∈ modifyLiquidityFields key tickLower tickUpper delta salt hookData, f.length = 32 := by
  rw [modifyLiquidityFields, List.forall_mem_append]
  refine ⟨poolKeyFields_lengths key, ?_⟩
  simp only [List.forall_mem_cons, encodeInt24Word_length, encodeSigned256_length,
    hashBytes_length, natToBytes_length, List.not_mem_nil, false_implies, implies_true, and_self]

theorem buildModifyLiquidityArgs_word (k : ℕ) (field : List UInt8)
    (hk : (modifyLiquidityFields key tickLower tickUpper delta salt hookData)[k]? = some field) :
    argWord (buildModifyLiquidityArgs key tickLower tickUpper delta salt hookData) (32 * k) =
      bytesToHash field := by
  rw [buildModifyLiquidityArgs_eq]
  exact argWord_fields modifyLiquidityFields_lengths _ hk

@[simp]
theorem padWords_length_le (data : List UInt8) : data.length ≤ (padWords data).length := by
  simp [padWords]

theorem buildModifyLiquidityArgs_length :
    (buildModifyLiquidityArgs key tickLower tickUpper delta salt hookData).length =
      352 + (padWords hookData).length := by
  simp only [buildModifyLiquidityArgs, List.length_append, encodePoolKeyABI_length,
    encodeInt24Word_length, encodeSigned256_length, hashBytes_length, natToBytes_length]
  omega

theorem toNat_bytesToHash_natToBytes {n : ℕ} (h : n < 2 ^ 256) :
    (bytesToHash (natToBytes 32 n)).toNat = n := by
  rw [bytesToHash_natToBytes, BitVec.toNat_ofNat, Nat.mod_eq_of_lt h]

/-- The hook data is read back from behind its offset and its length. -/
theorem buildModifyLiquidityArgs_hookData (hlen : hookData.length < 2 ^ 63) :
    decodeABIBytes (buildModifyLiquidityArgs key tickLower tickUpper delta salt hookData) 288 =
      hookData := by
  set input := buildModifyLiquidityArgs key tickLower tickUpper delta salt hookData with hinput
  have htotal : input.length = 352 + (padWords hookData).length :=
    buildModifyLiquidityArgs_length
  have hpad : hookData.length ≤ (padWords hookData).length := padWords_length_le hookData
  have hoffset : argWord input 288 = bytesToHash (natToBytes 32 320) :=
    buildModifyLiquidityArgs_word 9 _ rfl
  have hlength : argWord input 320 = bytesToHash (natToBytes 32 hookData.length) :=
    buildModifyLiquidityArgs_word 10 _ rfl
  have hfront : (modifyLiquidityFields key tickLower tickUpper delta salt hookData).flatten.length
      = 352 := by
    simp only [modifyLiquidityFields, List.flatten_append, ← encodePoolKeyABI_eq,
      List.flatten_cons, List.flatten_nil, List.length_append, encodePoolKeyABI_length,
      encodeInt24Word_length, encodeSigned256_length, hashBytes_length, natToBytes_length,
      List.length_nil]
  have hdata : slice input 352 (352 + hookData.length) = hookData := by
    rw [hinput, buildModifyLiquidityArgs_eq, slice_append_right (by omega), hfront,
      Nat.sub_self, Nat.add_sub_cancel_left, padWords, slice_append_left le_rfl,
      slice_all le_rfl]
  unfold decodeABIBytes
  rw [if_neg (by omega), hoffset, toNat_bytesToHash_natToBytes (by norm_num)]
  dsimp only
  rw [if_neg (by norm_num), if_neg (by norm_num), if_neg (by omega), hlength,
    toNat_bytesToHash_natToBytes (by omega), if_neg (by omega), if_neg (by omega), hdata]

end Reading

theorem decodeMakerSide_makerEnvelope {side : MakerSide} (h : side = .bid ∨ side = .ask) :
    decodeMakerSide (makerEnvelope side) = side := by
  rcases h with rfl | rfl
  · decide
  · decide

/-- The kernel reads from the built calldata what was built in, the delta as a signed
word. -/
theorem decodeModifyLiquidityInput_build {key : PoolKey} {tickLower tickUpper delta : ℤ}
    {salt : Word} {hookData : List UInt8} (hkey : key.Fits)
    (hlower : fitsInt24 tickLower) (hupper : fitsInt24 tickUpper)
    (hdelta : -2 ^ 255 ≤ delta ∧ delta ≤ 2 ^ 255) (hlen : hookData.length < 2 ^ 63) :
    decodeModifyLiquidityInput
        (buildModifyLiquidityArgs key tickLower tickUpper delta salt hookData) =
      .ok (key, ⟨tickLower, tickUpper, if delta = 2 ^ 255 then -2 ^ 255 else delta, salt⟩,
        hookData) := by
  set input := buildModifyLiquidityArgs key tickLower tickUpper delta salt hookData with hinput
  have htotal : input.length = 352 + (padWords hookData).length :=
    buildModifyLiquidityArgs_length
  have hkeyRead : decodePoolKey (slice input 0 160) = .ok key := by
    rw [hinput, buildModifyLiquidityArgs, slice_append_left (by rw [encodePoolKeyABI_length]),
      slice_all (by rw [encodePoolKeyABI_length]), decodePoolKey_encodePoolKeyABI hkey]
  have hlowerBounds : -2 ^ 23 ≤ tickLower ∧ tickLower < 2 ^ 23 := by
    simpa [fitsInt24] using hlower
  have hupperBounds : -2 ^ 23 ≤ tickUpper ∧ tickUpper < 2 ^ 23 := by
    simpa [fitsInt24] using hupper
  have hlowerRead : argSigned input 160 = tickLower := by
    have hword : argWord input 160 = bytesToHash (encodeInt24Word tickLower) :=
      buildModifyLiquidityArgs_word 5 _ rfl
    rw [argSigned, hword, encodeInt24Word_read (by omega) (by omega)]
  have hupperRead : argSigned input 192 = tickUpper := by
    have hword : argWord input 192 = bytesToHash (encodeInt24Word tickUpper) :=
      buildModifyLiquidityArgs_word 6 _ rfl
    rw [argSigned, hword, encodeInt24Word_read (by omega) (by omega)]
  have hdeltaRead : argSigned input 224 = if delta = 2 ^ 255 then -2 ^ 255 else delta := by
    have hword : argWord input 224 = bytesToHash (encodeSigned256 delta) :=
      buildModifyLiquidityArgs_word 7 _ rfl
    rw [argSigned, hword, encodeSigned256_read hdelta.1 hdelta.2]
  have hsaltRead : argWord input 256 = salt := by
    have hword : argWord input 256 = bytesToHash (hashBytes salt) :=
      buildModifyLiquidityArgs_word 8 _ rfl
    rw [hword, bytesToHash_hashBytes]
  have hhook : decodeABIBytes input 288 = hookData := buildModifyLiquidityArgs_hookData hlen
  rw [decodeModifyLiquidityInput, if_neg (by omega), hkeyRead, hlowerRead, hupperRead,
    hdeltaRead, hsaltRead, if_pos (show 288 < input.length by omega), hhook]
  simp only [hlower, hupper, Bool.not_true, Bool.false_eq_true, if_false, bind, Except.bind]

/-! ## What the routing preserves -/

/-- What an operation requires of the delta it hands on for a requested one. -/
def DeltaSign.Admits : DeltaSign → ℤ → ℤ → Prop
  | .positive, _, handed => 0 < handed
  | .negative, _, handed => handed < 0
  | .any, requested, handed => handed.sign = requested.sign

/-- The kernel reads the request of a lifecycle calldata from the calldata built for it:
the same key, range, salt and side, and the requested liquidity with the sign of the
operation. -/
structure Preserved (sign : DeltaSign) (data : List UInt8) (key : PoolKey)
    (params : ModifyLiquidityParams) (hookData : List UInt8) : Prop where
  key : decodePoolKey (slice data 0 160) = .ok key
  tickLower : params.tickLower = argSigned data 160
  tickUpper : params.tickUpper = argSigned data 192
  salt : params.salt = argWord data 256
  side : decodeMakerSide hookData = if data.getD 319 0 = 1 then .ask else .bid
  magnitude : |params.liquidityDelta| = |argSigned data 224|
  sign : sign.Admits (argSigned data 224) params.liquidityDelta

theorem decodePMLifecycle_ok {data : List UInt8} {args : LifecycleArgs}
    (h : decodePMLifecycle data = .ok args) :
    ∃ key, decodePoolKey (slice data 0 160) = .ok key ∧ fitsInt24 (argSigned data 160) ∧
      fitsInt24 (argSigned data 192) ∧
      args = ⟨key, argSigned data 160, argSigned data 192, argSigned data 224,
        argWord data 256, if data.getD 319 0 = 1 then .ask else .bid⟩ := by
  simp only [decodePMLifecycle, refuse_eq_ok, bind_eq_ok, mapError_eq_ok, Except.ok.injEq,
    Bool.not_eq_true', Bool.not_eq_false] at h
  obtain ⟨-, key, hkey, hlower, hupper, rfl⟩ := h
  exact ⟨key, hkey, hlower, hupper, rfl⟩

theorem coerceDelta_range (sign : DeltaSign) {delta : ℤ} (hlo : -2 ^ 255 ≤ delta)
    (hhi : delta < 2 ^ 255) :
    -2 ^ 255 ≤ coerceDelta sign delta ∧ coerceDelta sign delta ≤ 2 ^ 255 := by
  cases sign with
  | positive => exact ⟨by have := abs_nonneg delta; simp only [coerceDelta]; omega,
      abs_le.mpr ⟨hlo, hhi.le⟩⟩
  | negative =>
      have hle : |delta| ≤ 2 ^ 255 := abs_le.mpr ⟨hlo, hhi.le⟩
      have h0 := abs_nonneg delta
      simp only [coerceDelta]
      omega
  | any => exact ⟨hlo, hhi.le⟩

theorem abs_coerceDelta (sign : DeltaSign) (delta : ℤ) : |coerceDelta sign delta| = |delta| := by
  cases sign with
  | positive => exact abs_abs delta
  | negative => rw [coerceDelta, abs_neg, abs_abs]
  | any => rfl

theorem coerceDelta_admits (sign : DeltaSign) {delta : ℤ} (h : delta ≠ 0) :
    sign.Admits delta (coerceDelta sign delta) := by
  cases sign with
  | positive => exact abs_pos.mpr h
  | negative => exact neg_neg_of_pos (abs_pos.mpr h)
  | any => rfl

/-- The coerced delta leaves the signed words in one case only. -/
theorem coerceDelta_eq_top {sign : DeltaSign} {delta : ℤ} (hhi : delta < 2 ^ 255) :
    coerceDelta sign delta = 2 ^ 255 ↔ sign = .positive ∧ delta = -2 ^ 255 := by
  cases sign with
  | positive =>
      simp only [coerceDelta, true_and]
      constructor
      · intro habs
        rcases abs_cases delta with ⟨heq, -⟩ | ⟨heq, -⟩ <;> omega
      · rintro rfl
        decide
  | negative =>
      simp only [coerceDelta, reduceCtorEq, false_and, iff_false]
      have h0 := abs_nonneg delta
      omega
  | any =>
      simp only [coerceDelta, reduceCtorEq, false_and, iff_false]
      omega

/-- What the kernel reads from a routed calldata. -/
theorem lifecycleInput_read {sign : DeltaSign} {data input : List UInt8}
    (h : lifecycleInput sign data = .ok input) :
    argSigned data 224 ≠ 0 ∧ ∃ key, decodePoolKey (slice data 0 160) = .ok key ∧
      decodeModifyLiquidityInput input = .ok (key,
        ⟨argSigned data 160, argSigned data 192,
          if coerceDelta sign (argSigned data 224) = 2 ^ 255 then -2 ^ 255
          else coerceDelta sign (argSigned data 224), argWord data 256⟩,
        makerEnvelope (if data.getD 319 0 = 1 then .ask else .bid)) := by
  simp only [lifecycleInput, bind_eq_ok, refuse_eq_ok, Except.ok.injEq] at h
  obtain ⟨args, hargs, hdelta, rfl⟩ := h
  obtain ⟨key, hkey, hlower, hupper, rfl⟩ := decodePMLifecycle_ok hargs
  obtain ⟨hlo, hhi⟩ := wordToInt_range (argWord data 224)
  refine ⟨hdelta, key, hkey, decodeModifyLiquidityInput_build (decodePoolKey_fits hkey) hlower
    hupper (coerceDelta_range sign hlo hhi) ?_⟩
  simp [makerEnvelope, makerEnvelopeTag, ascii]

/-- The routing preserves the meaning of an accepted calldata exactly when it does not
add the liquidity whose word is `2 ^ 255`. -/
theorem lifecycle_preserved_iff (sign : DeltaSign) (data input : List UInt8)
    (h : lifecycleInput sign data = .ok input) :
    (∃ key params hookData, decodeModifyLiquidityInput input = .ok (key, params, hookData) ∧
        Preserved sign data key params hookData) ↔
      ¬ (sign = .positive ∧ argWord data 224 = BitVec.ofNat 256 (2 ^ 255)) := by
  obtain ⟨hdelta, key, hkey, hread⟩ := lifecycleInput_read h
  obtain ⟨hlo, hhi⟩ := wordToInt_range (argWord data 224)
  have htop : coerceDelta sign (argSigned data 224) = 2 ^ 255 ↔
      sign = .positive ∧ argWord data 224 = BitVec.ofNat 256 (2 ^ 255) := by
    rw [argSigned, coerceDelta_eq_top hhi, wordToInt_eq_min]
  rw [← htop]
  constructor
  · rintro ⟨key', params, hookData, hparams, hpreserved⟩ hcoerce
    rw [hread, if_pos hcoerce] at hparams
    have hsign := hpreserved.sign
    rw [(htop.mp hcoerce).1] at hsign
    simp only [Except.ok.injEq, Prod.mk.injEq] at hparams
    obtain ⟨-, rfl, -⟩ := hparams
    exact absurd hsign (by simp [DeltaSign.Admits])
  · intro hcoerce
    rw [if_neg hcoerce] at hread
    refine ⟨key, _, _, hread, hkey, rfl, rfl, rfl, ?_, abs_coerceDelta _ _,
      coerceDelta_admits sign hdelta⟩
    apply decodeMakerSide_makerEnvelope
    split_ifs
    · exact .inr rfl
    · exact .inl rfl

theorem encodeSigned256_top :
    encodeSigned256 (coerceDelta .positive (-2 ^ 255)) =
      encodeSigned256 (coerceDelta .negative (-2 ^ 255)) := by
  decide

/-- At the liquidity word `2 ^ 255` the operations that add build the calldata of those
that remove. -/
theorem lifecycleInput_top {data : List UInt8}
    (h : argWord data 224 = BitVec.ofNat 256 (2 ^ 255)) :
    lifecycleInput .positive data = lifecycleInput .negative data := by
  have hbuild : ∀ args, decodePMLifecycle data = .ok args →
      buildModifyLiquidityArgs args.key args.tickLower args.tickUpper
          (coerceDelta .positive args.delta) args.salt (makerEnvelope args.side) =
        buildModifyLiquidityArgs args.key args.tickLower args.tickUpper
          (coerceDelta .negative args.delta) args.salt (makerEnvelope args.side) := by
    intro args hargs
    obtain ⟨key, -, -, -, hfields⟩ := decodePMLifecycle_ok hargs
    have hdelta : args.delta = -2 ^ 255 := by
      rw [hfields]
      exact wordToInt_eq_min.mpr h
    rw [buildModifyLiquidityArgs, buildModifyLiquidityArgs, hdelta, encodeSigned256_top]
  rw [lifecycleInput, lifecycleInput]
  cases hargs : decodePMLifecycle data with
  | error e => simp only [bind, Except.bind]
  | ok args => simp only [bind, Except.bind, hbuild args hargs]

/-! ## A sample position -/

/-- A lifecycle calldata for the sample position. -/
def sampleLifecycle (delta : ℤ) : List UInt8 :=
  wordBytes (sampleKeyArgs ++ [intWord (-60), intWord 60, intWord delta, 1, 0])

theorem lifecycle_preserved_sample :
    (∃ key params hookData,
        decodeModifyLiquidityInput (buildModifyLiquidityArgs sampleKey (-60) 60 100 1
          (makerEnvelope .bid)) = .ok (key, params, hookData) ∧
        Preserved .positive (sampleLifecycle (-100)) key params hookData) ↔
      ¬ (DeltaSign.positive = .positive ∧
        argWord (sampleLifecycle (-100)) 224 = BitVec.ofNat 256 (2 ^ 255)) :=
  lifecycle_preserved_iff .positive (sampleLifecycle (-100)) _ (by decide +kernel)

/-- Adding `-2 ^ 255` reaches the kernel as a removal. -/
theorem increase_reaches_kernel_negative :
    ¬ ∀ (sign : DeltaSign) (data input : List UInt8), lifecycleInput sign data = .ok input →
      ∃ key params hookData, decodeModifyLiquidityInput input = .ok (key, params, hookData) ∧
        Preserved sign data key params hookData := by
  intro hall
  obtain ⟨key, params, hookData, hread, hpreserved⟩ :=
    hall .positive (sampleLifecycle (-2 ^ 255)) (buildModifyLiquidityArgs sampleKey (-60) 60
      (2 ^ 255) 1 (makerEnvelope .bid)) (by decide +kernel)
  have hdelta : (decodeModifyLiquidityInput (buildModifyLiquidityArgs sampleKey (-60) 60
      (2 ^ 255) 1 (makerEnvelope .bid))).map (fun p => p.2.1.liquidityDelta) =
      .ok (-2 ^ 255) := by decide +kernel
  rw [hread] at hdelta
  have hnegative : params.liquidityDelta = -2 ^ 255 := Except.ok.inj hdelta
  have hpositive : 0 < params.liquidityDelta := hpreserved.sign
  omega

end LuxPrecompile.Settle
