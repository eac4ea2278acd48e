import LuxPrecompile.Evm.Bytes
import LuxPrecompile.Settle.State
import LuxPrecompile.Support.Chunks
import LuxPrecompile.Support.Faults
import LuxPrecompile.Support.Framing

/-!
# Paths of the router

`EncodePath` and `DecodePath` of `dex/router.go`.  A path is a currency and a list of hops of
46 bytes, each with an unsigned and a signed field of 24 bits.  A path with at least one hop
whose fields fit is read back from what it is written as, and every string that is read is what
is written for the path that it gives.
-/

namespace LuxPrecompile.Dex.Router

open Evm Support Support.Checked

/-! ## Path keys -/

/-- `PathKey`; `uint24` and `int24` are 32-bit integers. -/
structure PathKey where
  intermediateCurrency : Address
  fee : UInt32
  tickSpacing : Int32
  hooks : Address
deriving DecidableEq

def pathKeySize : ℕ := 46

/-- What `DecodePathKey` refuses. -/
inductive KeyError
  | tooShort (got : ℕ)
deriving DecidableEq, Repr

def int24ToBytes (v : Int32) : List UInt8 :=
  [UInt8.ofInt (v.toInt >>> (16 : ℕ)), UInt8.ofInt (v.toInt >>> (8 : ℕ)), UInt8.ofInt v.toInt]

def decodeInt24 (b : List UInt8) : Int32 :=
  if b.length < 3 then 0
  else
    let val := bytesToNat (b.take 3)
    Int32.ofInt (if 2 ^ 23 ≤ val then (val : ℤ) - 2 ^ 24 else val)

def encodePathKey (pk : PathKey) : List UInt8 :=
  addressBytes pk.intermediateCurrency ++ ((uint32Bytes pk.fee).drop 1 ++
    (int24ToBytes pk.tickSpacing ++ addressBytes pk.hooks))

/-- `DecodePathKey`.  A cut beyond the end of the data counts as a panic. -/
def decodePathKey (data : List UInt8) : Checked KeyError PathKey := do
  if data.length < pathKeySize then .error (.refused (.tooShort data.length))
  else do
    let intermediateCurrency ← cut data 0 20
    let fee ← cut data 20 23
    let tickSpacing ← cut data 23 26
    let hooks ← cut data 26 46
    .ok { intermediateCurrency := bytesToAddress intermediateCurrency
          fee := bytesToUint32 (0 :: fee)
          tickSpacing := decodeInt24 tickSpacing
          hooks := bytesToAddress hooks }

/-- The fields of 24 bits are in their ranges. -/
structure PathKey.Fits (pk : PathKey) : Prop where
  fee : pk.fee.toNat < 2 ^ 24
  spacing_ge : -2 ^ 23 ≤ pk.tickSpacing.toInt
  spacing_lt : pk.tickSpacing.toInt < 2 ^ 23

/-! ### Fields of 24 bits -/

theorem bytesToNat_cons (x : UInt8) (l : List UInt8) :
    bytesToNat (x :: l) = x.toNat * 256 ^ l.length + bytesToNat l := by
  rw [← List.singleton_append, bytesToNat_append]
  simp [bytesToNat]

theorem toNat_ofInt (x : ℤ) : (UInt8.ofInt x).toNat = (x % 256).toNat := by
  have hlt : (x % 2 ^ 8).toNat < 2 ^ 8 := by omega
  rw [UInt8.ofInt, UInt8.toNat_ofNat', Nat.mod_eq_of_lt hlt]
  rfl

theorem bytesToNat_int24ToBytes (v : Int32) :
    bytesToNat (int24ToBytes v) = (v.toInt % 2 ^ 24).toNat := by
  have hhigh : v.toInt >>> (16 : ℕ) = v.toInt / 65536 := by
    rw [Int.shiftRight_eq_div_pow]
    norm_num
  have hmiddle : v.toInt >>> (8 : ℕ) = v.toInt / 256 := by
    rw [Int.shiftRight_eq_div_pow]
    norm_num
  rw [int24ToBytes, bytesToNat_cons, bytesToNat_cons, bytesToNat_cons, toNat_ofInt, toNat_ofInt,
    toNat_ofInt, hhigh, hmiddle]
  simp [bytesToNat]
  omega

theorem bytesToNat_three {b : List UInt8} (h : b.length = 3) : bytesToNat b < 2 ^ 24 := by
  have hlt := bytesToNat_lt b
  rw [h] at hlt
  exact lt_of_lt_of_eq hlt (by norm_num)

theorem toInt_decodeInt24_eq {b : List UInt8} (h : b.length = 3) :
    (decodeInt24 b).toInt = Settle.decodeInt24 b := by
  have hlt := bytesToNat_three h
  rw [decodeInt24, Settle.decodeInt24, if_neg (by omega), List.take_of_length_le (le_of_eq h)]
  dsimp only
  by_cases hsign : 2 ^ 23 ≤ bytesToNat b
  · rw [if_pos hsign, Int32.toInt_ofInt_of_le (by omega) (by omega)]
  · rw [if_neg hsign, Int32.toInt_ofInt_of_le (by omega) (by omega)]

theorem toInt_decodeInt24 {b : List UInt8} (h : b.length = 3) :
    (-2 ^ 23 ≤ (decodeInt24 b).toInt ∧ (decodeInt24 b).toInt < 2 ^ 23) ∧
      (decodeInt24 b).toInt % 2 ^ 24 = bytesToNat b := by
  have hlt := bytesToNat_three h
  rw [toInt_decodeInt24_eq h, Settle.decodeInt24]
  by_cases hsign : 2 ^ 23 ≤ bytesToNat b
  · rw [if_pos hsign]
    omega
  · rw [if_neg hsign]
    omega

theorem int24ToBytes_length (v : Int32) : (int24ToBytes v).length = 3 := rfl

theorem decodeInt24_int24ToBytes {v : Int32} (hlo : -2 ^ 23 ≤ v.toInt) (hhi : v.toInt < 2 ^ 23) :
    decodeInt24 (int24ToBytes v) = v := by
  obtain ⟨hrange, hresidue⟩ := toInt_decodeInt24 (int24ToBytes_length v)
  rw [bytesToNat_int24ToBytes] at hresidue
  apply Int32.toInt_inj.mp
  omega

theorem int24ToBytes_decodeInt24 {b : List UInt8} (h : b.length = 3) :
    int24ToBytes (decodeInt24 b) = b := by
  obtain ⟨-, hresidue⟩ := toInt_decodeInt24 h
  apply eq_of_bytesToNat_eq ((int24ToBytes_length _).trans h.symm)
  rw [bytesToNat_int24ToBytes, hresidue, Int.toNat_natCast]

theorem feeBytes_eq (fee : UInt32) : (uint32Bytes fee).drop 1 = natToBytes 3 fee.toNat :=
  drop_natToBytes 1 3 fee.toNat

theorem toNat_feeWord {b : List UInt8} (h : b.length = 3) :
    (bytesToUint32 (0 :: b)).toNat = bytesToNat b := by
  have hlt := bytesToNat_three h
  have hvalue : bytesToNat (0 :: b) = bytesToNat b := by
    rw [bytesToNat_cons]
    simp
  rw [bytesToUint32, UInt32.toNat_ofNat', hvalue, Nat.mod_eq_of_lt (by omega)]

/-! ### One hop -/

@[simp]
theorem encodePathKey_length (pk : PathKey) : (encodePathKey pk).length = pathKeySize := by
  rw [encodePathKey, feeBytes_eq]
  simp [int24ToBytes_length, pathKeySize]

/-- A hop is read field by field. -/
theorem decodePathKey_fields {currency fee spacing hooks : List UInt8}
    (hcurrency : currency.length = 20) (hfee : fee.length = 3) (hspacing : spacing.length = 3)
    (hhooks : hooks.length = 20) :
    decodePathKey (currency ++ (fee ++ (spacing ++ hooks))) =
      .ok ⟨bytesToAddress currency, bytesToUint32 (0 :: fee), decodeInt24 spacing,
        bytesToAddress hooks⟩ := by
  set data := currency ++ (fee ++ (spacing ++ hooks)) with hdata
  have hlength : data.length = 46 := by
    rw [hdata, List.length_append, List.length_append, List.length_append, hcurrency, hfee,
      hspacing, hhooks]
  have h20 : data.drop 20 = fee ++ (spacing ++ hooks) := List.drop_left' hcurrency
  have h23 : data.drop 23 = spacing ++ hooks := by
    have hdrop : (fee ++ (spacing ++ hooks)).drop 3 = spacing ++ hooks := List.drop_left' hfee
    rw [← hdrop, ← h20, List.drop_drop]
  have h26 : data.drop 26 = hooks := by
    have hdrop : (spacing ++ hooks).drop 3 = hooks := List.drop_left' hspacing
    rw [← hdrop, ← h23, List.drop_drop]
  rw [decodePathKey, pathKeySize, if_neg (by omega), cut_of_le (by omega) (by omega), ok_bind,
    cut_of_le (by omega) (by omega), ok_bind, cut_of_le (by omega) (by omega), ok_bind,
    cut_of_le (by omega) (by omega), ok_bind, List.drop_zero, h20, h23, h26, hdata,
    List.take_left' hcurrency, List.take_left' hfee, List.take_left' hspacing,
    List.take_of_length_le (le_of_eq hhooks)]

theorem decodePathKey_encodePathKey {pk : PathKey} (h : pk.Fits) :
    decodePathKey (encodePathKey pk) = .ok pk := by
  have hlt : pk.fee.toNat < 256 ^ 3 := lt_of_lt_of_eq h.fee (by norm_num)
  have hfee : bytesToUint32 (0 :: natToBytes 3 pk.fee.toNat) = pk.fee := by
    apply UInt32.toNat_inj.mp
    rw [toNat_feeWord (natToBytes_length _ _), bytesToNat_natToBytes hlt]
  rw [encodePathKey, feeBytes_eq, decodePathKey_fields (addressBytes_length _)
    (natToBytes_length _ _) (int24ToBytes_length _) (addressBytes_length _),
    bytesToAddress_addressBytes, bytesToAddress_addressBytes, hfee,
    decodeInt24_int24ToBytes h.spacing_ge h.spacing_lt]

/-- Every 46 bytes are read, as the fields that are written as them. -/
theorem decodePathKey_spec {data : List UInt8} (h : data.length = pathKeySize) :
    ∃ pk, decodePathKey data = .ok pk ∧ pk.Fits ∧ encodePathKey pk = data := by
  obtain ⟨currency, rest, rfl, hcurrency⟩ : ∃ currency rest, data = currency ++ rest ∧
      currency.length = 20 := ⟨data.take 20, data.drop 20, by simp, by simp [h, pathKeySize]⟩
  obtain ⟨fee, rest, rfl, hfee⟩ : ∃ fee rest', rest = fee ++ rest' ∧ fee.length = 3 :=
    ⟨rest.take 3, rest.drop 3, by simp, by simp [pathKeySize] at h ⊢; omega⟩
  obtain ⟨spacing, hooks, rfl, hspacing⟩ : ∃ spacing hooks, rest = spacing ++ hooks ∧
      spacing.length = 3 := ⟨rest.take 3, rest.drop 3, by simp, by simp [pathKeySize] at h ⊢; omega⟩
  have hhooks : hooks.length = 20 := by
    simp only [List.length_append, pathKeySize] at h
    omega
  obtain ⟨⟨hlo, hhi⟩, -⟩ := toInt_decodeInt24 hspacing
  have hnumber := toNat_feeWord hfee
  have hfeeBytes : natToBytes 3 (bytesToNat fee) = fee := by
    have hround := natToBytes_bytesToNat fee
    rw [hfee] at hround
    exact hround
  refine ⟨_, decodePathKey_fields hcurrency hfee hspacing hhooks, ⟨?_, hlo, hhi⟩, ?_⟩
  · rw [hnumber]
    exact bytesToNat_three hfee
  · rw [encodePathKey, addressBytes_bytesToAddress hcurrency, addressBytes_bytesToAddress hhooks,
      int24ToBytes_decodeInt24 hspacing, feeBytes_eq, hnumber, hfeeBytes]

/-! ## Paths -/

/-- What `DecodePath` refuses. -/
inductive PathError
  | tooShort
  | notMultiple (length : ℕ)
  | noHop
  | key (i : ℕ) (why : KeyError)
deriving DecidableEq, Repr

/-- An error wrapped in another one. -/
def wrap {ε ε' α : Type} (f : ε → ε') : Checked ε α → Checked ε' α
  | .ok a => .ok a
  | .error (.refused why) => .error (.refused (f why))
  | .error .panic => .error .panic

def encodePath (currencyIn : Address) (keys : List PathKey) : List UInt8 :=
  addressBytes currencyIn ++ keys.flatMap encodePathKey

/-- The loop of `DecodePath`, with the number of hops that are left. -/
def decodeKeys (remaining : List UInt8) : ℕ → ℕ → Checked PathError (List PathKey)
  | 0, _ => .ok []
  | n + 1, i => do
      let data ← cut remaining (i * pathKeySize) ((i + 1) * pathKeySize)
      let pk ← wrap (.key i) (decodePathKey data)
      let keys ← decodeKeys remaining n (i + 1)
      .ok (pk :: keys)

def decodePath (data : List UInt8) : Checked PathError (Address × List PathKey) := do
  if data.length < 20 then .error (.refused .tooShort)
  else do
    let currencyIn ← cut data 0 20
    let remaining ← cut data 20 data.length
    if remaining.length % pathKeySize ≠ 0 then .error (.refused (.notMultiple remaining.length))
    else
      let numHops := remaining.length / pathKeySize
      if numHops = 0 then .error (.refused .noHop)
      else do
        let keys ← decodeKeys remaining numHops 0
        .ok (bytesToAddress currencyIn, keys)

theorem encodePathKey_selfDelimiting :
    Framing.SelfDelimiting encodePathKey {pk | pk.Fits} := by
  refine Framing.selfDelimiting_of_width ?_ encodePathKey_length
  intro pk hpk pk' hpk' h
  have hread := decodePathKey_encodePathKey hpk
  rw [h, decodePathKey_encodePathKey hpk'] at hread
  exact (Except.ok.inj hread).symm

theorem encodePathKey_ne_nil (pk : PathKey) : encodePathKey pk ≠ [] := by
  intro h
  have hlength := encodePathKey_length pk
  rw [h] at hlength
  cases hlength

/-- The loop reads hop by hop what is written as them. -/
theorem decodeKeys_spec {remaining : List UInt8} :
    ∀ {n i : ℕ}, (i + n) * pathKeySize ≤ remaining.length →
      ∃ keys, decodeKeys remaining n i = .ok keys ∧ keys.length = n ∧
        (∀ pk ∈ keys, pk.Fits) ∧
          keys.flatMap encodePathKey =
            (remaining.drop (i * pathKeySize)).take (n * pathKeySize) := by
  intro n
  induction n with
  | zero =>
      intro i _
      refine ⟨[], rfl, rfl, fun pk hpk => absurd hpk List.not_mem_nil, ?_⟩
      rw [Nat.zero_mul, List.take_zero, List.flatMap_nil]
  | succ n ih =>
      intro i h
      have hnext : (i + 1 + n) * pathKeySize ≤ remaining.length := by
        rw [show i + 1 + n = i + (n + 1) by omega]
        exact h
      have hinside : (i + 1) * pathKeySize ≤ remaining.length :=
        le_trans (Nat.mul_le_mul_right _ (Nat.le_add_right _ _)) hnext
      have hwidth : (i + 1) * pathKeySize - i * pathKeySize = pathKeySize := by
        rw [Nat.succ_mul, Nat.add_sub_cancel_left]
      have hlength : ((remaining.drop (i * pathKeySize)).take pathKeySize).length =
          pathKeySize := by
        rw [Nat.succ_mul] at hinside
        rw [List.length_take, List.length_drop]
        omega
      obtain ⟨pk, hread, hfits, hwritten⟩ := decodePathKey_spec hlength
      obtain ⟨keys, hkeys, hn, hall, hrest⟩ := ih hnext
      refine ⟨pk :: keys, ?_, by rw [List.length_cons, hn],
        List.forall_mem_cons.mpr ⟨hfits, hall⟩, ?_⟩
      · rw [decodeKeys, cut_of_le (Nat.mul_le_mul_right _ (Nat.le_succ i)) hinside, ok_bind,
          hwidth, hread]
        dsimp only [wrap]
        rw [ok_bind, hkeys, ok_bind]
      · have hsum : (n + 1) * pathKeySize = pathKeySize + n * pathKeySize := by ring
        rw [List.flatMap_cons, hwritten, hrest, hsum, List.take_add, List.drop_drop, Nat.succ_mul]

/-- Data is refused for its length alone; other data is what is written for the path that is
read. -/
theorem decodePath_cases (data : List UInt8) :
    ((data.length < 20 ∨ (data.length - 20) % pathKeySize ≠ 0 ∨ data.length = 20) ∧
      ∃ why, decodePath data = .error (.refused why)) ∨
      ∃ currencyIn keys, decodePath data = .ok (currencyIn, keys) ∧
        encodePath currencyIn keys = data ∧ keys ≠ [] ∧ ∀ pk ∈ keys, pk.Fits := by
  rw [decodePath]
  by_cases hshort : data.length < 20
  · rw [if_pos hshort]
    exact .inl ⟨.inl hshort, _, rfl⟩
  have hlength : ((data.drop 20).take (data.length - 20)).length = data.length - 20 := by
    rw [List.length_take, List.length_drop, Nat.min_self]
  rw [if_neg hshort, cut_of_le (by omega) (by omega), ok_bind, cut_of_le (by omega) le_rfl,
    ok_bind, hlength]
  by_cases hmultiple : (data.length - 20) % pathKeySize ≠ 0
  · rw [if_pos hmultiple]
    exact .inl ⟨.inr (.inl hmultiple), _, rfl⟩
  rw [if_neg hmultiple]
  dsimp only
  have hexact : (data.length - 20) / pathKeySize * pathKeySize = data.length - 20 :=
    Nat.div_mul_cancel (Nat.dvd_of_mod_eq_zero (not_not.mp hmultiple))
  by_cases hnone : (data.length - 20) / pathKeySize = 0
  · rw [if_pos hnone]
    rw [hnone, Nat.zero_mul] at hexact
    exact .inl ⟨.inr (.inr (by omega)), _, rfl⟩
  rw [if_neg hnone]
  obtain ⟨keys, hkeys, hn, hall, hwritten⟩ :=
    decodeKeys_spec (n := (data.length - 20) / pathKeySize) (i := 0)
      (le_of_eq (by rw [Nat.zero_add, hexact, hlength]))
  rw [hkeys, ok_bind]
  refine .inr ⟨_, keys, rfl, ?_, ?_, hall⟩
  · have hcurrency : ((data.drop 0).take (20 - 0)).length = 20 := by
      rw [List.length_take, List.length_drop]
      omega
    rw [hexact, Nat.zero_mul, List.drop_zero, List.take_of_length_le (le_of_eq hlength),
      List.take_of_length_le (by rw [List.length_drop])] at hwritten
    rw [encodePath, hwritten, addressBytes_bytesToAddress hcurrency, List.drop_zero]
    exact List.take_append_drop 20 data
  · rintro rfl
    exact hnone hn.symm

theorem encodePath_inj {currencyIn currencyIn' : Address} {keys keys' : List PathKey}
    (hfits : ∀ pk ∈ keys, pk.Fits) (hfits' : ∀ pk ∈ keys', pk.Fits)
    (h : encodePath currencyIn keys = encodePath currencyIn' keys') :
    currencyIn = currencyIn' ∧ keys = keys' := by
  obtain ⟨hcurrency, hkeys⟩ := List.append_inj h
    ((addressBytes_length _).trans (addressBytes_length _).symm)
  refine ⟨?_, encodePathKey_selfDelimiting.flatMap_inj encodePathKey_ne_nil hfits hfits' hkeys⟩
  rw [← bytesToAddress_addressBytes currencyIn, hcurrency, bytesToAddress_addressBytes]

theorem encodePath_length (currencyIn : Address) (keys : List PathKey) :
    (encodePath currencyIn keys).length = 20 + pathKeySize * keys.length := by
  rw [encodePath, List.length_append, addressBytes_length,
    length_flatMap_of_length encodePathKey_length]

/-- A path is read from exactly what is written for it. -/
theorem decodePath_eq_ok {data : List UInt8} {currencyIn : Address} {keys : List PathKey} :
    decodePath data = .ok (currencyIn, keys) ↔
      data = encodePath currencyIn keys ∧ keys ≠ [] ∧ ∀ pk ∈ keys, pk.Fits := by
  constructor
  · intro h
    rcases decodePath_cases data with ⟨-, why, hrefused⟩ | ⟨currency, hops, hread, hdata, hne, hall⟩
    · rw [h] at hrefused
      cases hrefused
    · obtain ⟨rfl, rfl⟩ := Prod.mk.inj (Except.ok.inj (h.symm.trans hread))
      exact ⟨hdata.symm, hne, hall⟩
  · rintro ⟨hwritten, hne, hall⟩
    have hpos : 0 < keys.length := List.length_pos_of_ne_nil hne
    rcases decodePath_cases data with
      ⟨hlength, -⟩ | ⟨currency, hops, hread, hdata, -, hall'⟩
    · rw [hwritten, encodePath_length, Nat.add_sub_cancel_left, Nat.mul_mod_right,
        pathKeySize] at hlength
      omega
    · obtain ⟨rfl, rfl⟩ := encodePath_inj hall' hall (hdata.trans hwritten)
      exact hread

theorem decodePath_ne_panic (data : List UInt8) : decodePath data ≠ .error .panic := by
  rcases decodePath_cases data with ⟨-, why, h⟩ | ⟨currency, hops, h, -⟩
  · rw [h]
    simp
  · rw [h]
    simp

end LuxPrecompile.Dex.Router
