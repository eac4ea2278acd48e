import LuxPrecompile.Dex.RouterPath

/-!
# Parameters of multi-hop swaps

`DecodeExactInputParams` and `DecodeExactOutputParams` of `dex/router.go`.  The two decoders
differ in the names of their fields and in the texts of two errors.  An input whose first byte
is `0xff` has a path behind its length, two amounts and maybe a deadline; any other has a list
of addresses in place of the path.
-/

namespace LuxPrecompile.Dex.Router

open Evm Support Support.Checked

/-- What the decoders refuse; the last two have an error for each decoder. -/
inductive ParamsError
  | tooShort
  | shortHeader
  | path (why : PathError)
  | fewTokens
  | shortV4Input
  | shortV4Output
  | shortInput
  | shortOutput
deriving DecidableEq, Repr

/-- `SwapExactInputParams`. -/
structure SwapExactInputParams where
  path : List Address
  currencyIn : Address
  pathKeys : List PathKey
  amountIn : ℕ
  amountOutMinimum : ℕ
  deadline : UInt64
deriving DecidableEq

/-- `SwapExactOutputParams`. -/
structure SwapExactOutputParams where
  path : List Address
  currencyOut : Address
  pathKeys : List PathKey
  amountOut : ℕ
  amountInMaximum : ℕ
  deadline : UInt64
deriving DecidableEq

/-- The deadline, if there is one at `offset`. -/
def decodeDeadline (input : List UInt8) (offset : ℕ) : Checked ParamsError UInt64 := do
  if offset + 8 ≤ input.length then do
    let deadline ← cut input offset (offset + 8)
    .ok (bytesToUint64 deadline)
  else .ok 0

/-- The loop over the addresses, with the number of those that are left. -/
def decodeTokens (input : List UInt8) : ℕ → ℕ → Checked ParamsError (List Address)
  | 0, _ => .ok []
  | n + 1, offset => do
      let token ← cut input offset (offset + 20)
      let tokens ← decodeTokens input n (offset + 20)
      .ok (bytesToAddress token :: tokens)

section Decoder

variable {P : Type} (shortV4 short : ParamsError)
  (params : List Address → Address → List PathKey → ℕ → ℕ → UInt64 → P)

/-- The two decoders, with the errors of one and the fields that it fills. -/
def decodeExactParams (input : List UInt8) : Checked ParamsError P := do
  if input.length < 1 then .error (.refused .tooShort)
  else do
    let tag ← item input 0
    if tag = 0xff then
      if input.length < 3 then .error (.refused .shortHeader)
      else do
        let lengthBytes ← cut input 1 3
        let pathLen := bytesToNat lengthBytes
        if input.length < 3 + pathLen + 64 then .error (.refused shortV4)
        else do
          let pathBytes ← cut input 3 (3 + pathLen)
          let (currency, pathKeys) ← wrap .path (decodePath pathBytes)
          let offset := 3 + pathLen
          let amount ← cut input offset (offset + 32)
          let limit ← cut input (offset + 32) (offset + 64)
          let deadline ← decodeDeadline input (offset + 64)
          .ok (params [] currency pathKeys (bytesToNat amount) (bytesToNat limit) deadline)
    else
      let numTokens := tag.toNat
      if numTokens < 2 then .error (.refused .fewTokens)
      else if input.length < 1 + numTokens * 20 + 32 + 32 then .error (.refused short)
      else do
        let path ← decodeTokens input numTokens 1
        let offset := 1 + numTokens * 20
        let amount ← cut input offset (offset + 32)
        let limit ← cut input (offset + 32) (offset + 32 + 32)
        let deadline ← decodeDeadline input (offset + 32 + 32)
        .ok (params path 0 [] (bytesToNat amount) (bytesToNat limit) deadline)

end Decoder

def decodeExactInputParams : List UInt8 → Checked ParamsError SwapExactInputParams :=
  decodeExactParams .shortV4Input .shortInput SwapExactInputParams.mk

def decodeExactOutputParams : List UInt8 → Checked ParamsError SwapExactOutputParams :=
  decodeExactParams .shortV4Output .shortOutput SwapExactOutputParams.mk

/-! ## Bounds -/

theorem decodeDeadline_eq (input : List UInt8) (offset : ℕ) :
    decodeDeadline input offset = .ok (if offset + 8 ≤ input.length then
      bytesToUint64 ((input.drop offset).take 8) else 0) := by
  rw [decodeDeadline]
  by_cases hlong : offset + 8 ≤ input.length
  · rw [if_pos hlong, if_pos hlong, cut_of_le (Nat.le_add_right _ _) hlong, ok_bind,
      Nat.add_sub_cancel_left]
  · rw [if_neg hlong, if_neg hlong]

theorem decodeTokens_ok {input : List UInt8} :
    ∀ {n offset : ℕ}, offset + n * 20 ≤ input.length →
      ∃ tokens, decodeTokens input n offset = .ok tokens := by
  intro n
  induction n with
  | zero => exact fun {offset} _ => ⟨[], rfl⟩
  | succ n ih =>
      intro offset h
      rw [Nat.succ_mul] at h
      obtain ⟨tokens, htokens⟩ := ih (show offset + 20 + n * 20 ≤ input.length by omega)
      refine ⟨bytesToAddress ((input.drop offset).take (offset + 20 - offset)) :: tokens, ?_⟩
      rw [decodeTokens, cut_of_le (Nat.le_add_right _ _) (by omega), ok_bind, htokens, ok_bind]

section Safety

variable {P : Type} {shortV4 short : ParamsError}
  {params : List Address → Address → List PathKey → ℕ → ℕ → UInt64 → P} {input : List UInt8}

/-- The decoder cuts inside the input. -/
theorem decodeExactParams_ne_panic (input : List UInt8) :
    decodeExactParams shortV4 short params input ≠ .error .panic := by
  rw [decodeExactParams]
  by_cases hempty : input.length < 1
  · rw [if_pos hempty]
    simp
  rw [if_neg hempty, item_of_getElem (List.getElem?_eq_getElem (not_lt.mp hempty)), ok_bind]
  by_cases htag : input[0] = 0xff
  · rw [if_pos htag]
    by_cases hheader : input.length < 3
    · rw [if_pos hheader]
      simp
    rw [if_neg hheader, cut_of_le (by omega) (by omega), ok_bind]
    dsimp only
    set pathLen := bytesToNat ((input.drop 1).take (3 - 1))
    by_cases hshort : input.length < 3 + pathLen + 64
    · rw [if_pos hshort]
      simp
    rw [if_neg hshort, cut_of_le (by omega) (by omega), ok_bind]
    rcases hpath : decodePath ((input.drop 3).take (3 + pathLen - 3)) with
      (why | _) | ⟨currency, pathKeys⟩
    · simp [wrap]
    · exact absurd hpath (decodePath_ne_panic _)
    · dsimp only [wrap]
      rw [ok_bind, cut_of_le (by omega) (by omega), ok_bind, cut_of_le (by omega) (by omega),
        ok_bind, decodeDeadline_eq, ok_bind]
      simp
  · rw [if_neg htag]
    dsimp only
    by_cases hfew : input[0].toNat < 2
    · rw [if_pos hfew]
      simp
    rw [if_neg hfew]
    by_cases hshort : input.length < 1 + input[0].toNat * 20 + 32 + 32
    · rw [if_pos hshort]
      simp
    obtain ⟨tokens, htokens⟩ :=
      decodeTokens_ok (show 1 + input[0].toNat * 20 ≤ input.length by omega)
    rw [if_neg hshort, htokens, ok_bind, cut_of_le (by omega) (by omega), ok_bind,
      cut_of_le (by omega) (by omega), ok_bind, decodeDeadline_eq, ok_bind]
    simp

end Safety

/-! ## Inputs with a path -/

/-- An input with a path: its length, the path, two amounts and what follows. -/
def v4Input (path : List UInt8) (amount limit : ℕ) (trailer : List UInt8) : List UInt8 :=
  0xff :: (natToBytes 2 path.length ++ (path ++ (natToBytes 32 amount ++
    (natToBytes 32 limit ++ trailer))))

/-- The deadline in what follows. -/
def trailerDeadline (trailer : List UInt8) : UInt64 :=
  if 8 ≤ trailer.length then bytesToUint64 (trailer.take 8) else 0

section V4

variable (path : List UInt8) (amount limit : ℕ) (trailer : List UInt8)

theorem v4Input_length : (v4Input path amount limit trailer).length =
    3 + path.length + 64 + trailer.length := by
  simp only [v4Input, List.length_cons, List.length_append, natToBytes_length]
  omega

/-- The input behind its header, its path and its amounts. -/
theorem v4Input_drop :
    (v4Input path amount limit trailer).drop 1 =
        natToBytes 2 path.length ++ (path ++ (natToBytes 32 amount ++
          (natToBytes 32 limit ++ trailer))) ∧
      (v4Input path amount limit trailer).drop 3 =
        path ++ (natToBytes 32 amount ++ (natToBytes 32 limit ++ trailer)) ∧
      (v4Input path amount limit trailer).drop (3 + path.length) =
        natToBytes 32 amount ++ (natToBytes 32 limit ++ trailer) ∧
      (v4Input path amount limit trailer).drop (3 + path.length + 32) =
        natToBytes 32 limit ++ trailer ∧
      (v4Input path amount limit trailer).drop (3 + path.length + 64) = trailer := by
  have h1 : (v4Input path amount limit trailer).drop 1 =
      natToBytes 2 path.length ++ (path ++ (natToBytes 32 amount ++
        (natToBytes 32 limit ++ trailer))) := rfl
  have h3 : (v4Input path amount limit trailer).drop 3 =
      path ++ (natToBytes 32 amount ++ (natToBytes 32 limit ++ trailer)) := by
    rw [show 3 = 1 + 2 from rfl, ← List.drop_drop, h1]
    exact List.drop_left' (natToBytes_length _ _)
  have hpath : (v4Input path amount limit trailer).drop (3 + path.length) =
      natToBytes 32 amount ++ (natToBytes 32 limit ++ trailer) := by
    rw [← List.drop_drop, h3]
    exact List.drop_left' rfl
  have hamount : (v4Input path amount limit trailer).drop (3 + path.length + 32) =
      natToBytes 32 limit ++ trailer := by
    rw [← List.drop_drop, hpath]
    exact List.drop_left' (natToBytes_length _ _)
  refine ⟨h1, h3, hpath, hamount, ?_⟩
  rw [show 3 + path.length + 64 = 3 + path.length + 32 + 32 from rfl, ← List.drop_drop, hamount]
  exact List.drop_left' (natToBytes_length _ _)

/-- The path and the amounts of such an input are read back. -/
theorem decodeExactParams_v4 {P : Type} {shortV4 short : ParamsError}
    {params : List Address → Address → List PathKey → ℕ → ℕ → UInt64 → P} {currency : Address}
    {keys : List PathKey} {amount limit : ℕ} (hne : keys ≠ []) (hfits : ∀ pk ∈ keys, pk.Fits)
    (hpath : (encodePath currency keys).length < 2 ^ 16) (hamount : amount < 2 ^ 256)
    (hlimit : limit < 2 ^ 256) :
    decodeExactParams shortV4 short params
        (v4Input (encodePath currency keys) amount limit trailer) =
      .ok (params [] currency keys amount limit (trailerDeadline trailer)) := by
  set path := encodePath currency keys with hencode
  have hread : decodePath path = .ok (currency, keys) :=
    decodePath_eq_ok.mpr ⟨hencode, hne, hfits⟩
  have hlength := v4Input_length path amount limit trailer
  obtain ⟨h1, h3, hbehind, hsecond, hrest⟩ := v4Input_drop path amount limit trailer
  set input := v4Input path amount limit trailer with hinput
  have htag : input[0]? = some 0xff := rfl
  have hheader : bytesToNat ((input.drop 1).take (3 - 1)) = path.length := by
    rw [h1, List.take_left' (natToBytes_length _ _),
      bytesToNat_natToBytes (lt_of_lt_of_eq hpath (by norm_num))]
  have hword {x : ℕ} (hx : x < 2 ^ 256) : bytesToNat (natToBytes 32 x) = x :=
    bytesToNat_natToBytes (lt_of_lt_of_eq hx (by norm_num))
  have hwidth : 3 + path.length + 64 - (3 + path.length + 32) = 32 := by omega
  have hdeadline : (if 3 + path.length + 64 + 8 ≤ input.length then
      bytesToUint64 (trailer.take 8) else 0) = trailerDeadline trailer := by
    have hlong : 3 + path.length + 64 + 8 ≤ input.length ↔ 8 ≤ trailer.length := by omega
    rw [trailerDeadline, if_congr hlong rfl rfl]
  rw [decodeExactParams, if_neg (by omega), item_of_getElem htag, ok_bind, if_pos rfl,
    if_neg (by omega), cut_of_le (by omega) (by omega), ok_bind]
  dsimp only
  rw [hheader, if_neg (by omega), cut_of_le (by omega) (by omega), ok_bind, h3,
    Nat.add_sub_cancel_left, List.take_left' rfl, hread]
  dsimp only [wrap]
  rw [ok_bind]
  dsimp only
  rw [cut_of_le (by omega) (by omega), ok_bind, cut_of_le (by omega) (by omega), ok_bind,
    decodeDeadline_eq, ok_bind, hbehind, hsecond, hrest, Nat.add_sub_cancel_left, hwidth,
    List.take_left' (natToBytes_length _ _), List.take_left' (natToBytes_length _ _),
    hword hamount, hword hlimit, hdeadline]

end V4

/-- Paths of at least one hop whose fields fit are read back from what is written for them, and
every string that is read is what is written for its path.  Both decoders of parameters read the
path, the amounts and the deadline back from an input with such a path.  No decoder reads beyond
the end of its input. -/
theorem path_codec :
    (∀ (currency : Address) (keys : List PathKey), keys ≠ [] → (∀ pk ∈ keys, pk.Fits) →
      decodePath (encodePath currency keys) = .ok (currency, keys)) ∧
    (∀ (data : List UInt8) (currency : Address) (keys : List PathKey),
      decodePath data = .ok (currency, keys) → encodePath currency keys = data) ∧
    (∀ (currency : Address) (keys : List PathKey), keys ≠ [] → (∀ pk ∈ keys, pk.Fits) →
      (encodePath currency keys).length < 2 ^ 16 →
        ∀ (amount limit : ℕ) (trailer : List UInt8), amount < 2 ^ 256 → limit < 2 ^ 256 →
          decodeExactInputParams (v4Input (encodePath currency keys) amount limit trailer) =
              .ok ⟨[], currency, keys, amount, limit, trailerDeadline trailer⟩ ∧
            decodeExactOutputParams (v4Input (encodePath currency keys) amount limit trailer) =
              .ok ⟨[], currency, keys, amount, limit, trailerDeadline trailer⟩) ∧
    ∀ input : List UInt8, decodePath input ≠ .error .panic ∧
      decodeExactInputParams input ≠ .error .panic ∧
        decodeExactOutputParams input ≠ .error .panic := by
  refine ⟨?_, ?_, ?_, ?_⟩
  · intro currency keys hne hfits
    exact decodePath_eq_ok.mpr ⟨rfl, hne, hfits⟩
  · intro data currency keys hread
    exact (decodePath_eq_ok.mp hread).1.symm
  · intro currency keys hne hfits hpath amount limit trailer hamount hlimit
    exact ⟨decodeExactParams_v4 trailer hne hfits hpath hamount hlimit,
      decodeExactParams_v4 trailer hne hfits hpath hamount hlimit⟩
  · intro input
    exact ⟨decodePath_ne_panic input, decodeExactParams_ne_panic input,
      decodeExactParams_ne_panic input⟩

/-- A path with the largest fee and a negative spacing, and a deadline. -/
theorem path_codec_negative :
    decodeExactInputParams (v4Input (encodePath 5 [⟨7, 0xffffff, -60, 9⟩]) 1000 2
        (uint64Bytes 77)) = .ok ⟨[], 5, [⟨7, 0xffffff, -60, 9⟩], 1000, 2, 77⟩ := by
  have hfits : ∀ pk ∈ [(⟨7, 0xffffff, -60, 9⟩ : PathKey)], pk.Fits :=
    List.forall_mem_singleton.mpr ⟨by decide, by decide, by decide⟩
  exact (path_codec.2.2.1 5 [⟨7, 0xffffff, -60, 9⟩] (by simp) hfits
    (by rw [encodePath_length]; decide) 1000 2 (uint64Bytes 77) (by norm_num) (by norm_num)).1

end LuxPrecompile.Dex.Router
