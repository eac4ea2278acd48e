import LuxPrecompile.Evm.Calldata

/-!
# The rollup-commit verifier

`p3q/contract.go`.  One verifier behind two entry points: a frame of length-prefixed fields
with trailing bytes allowed, and typed arguments.  A frame passes exactly when it starts with
the encoding of arguments that pass; so the two agree on a hash of at most 32 bytes, and on a
longer one as long as its first 32 bytes do not pass.
-/

namespace LuxPrecompile.P3q

open Evm Support

/-! ## Parameters -/

/-- The errors of the two entry points. -/
inductive Error
  | outOfGas
  | short
  | kindReserved
  | unknownKind
  | unsupportedMode
  | sigSize
  | pubKeySize
  /-- The error of `mldsa.PublicKeyFromBytes`. -/
  | publicKey
  | groupPubKeyMismatch
  | pulsarSigMismatch
  | messageHashSize
  | rejected
deriving DecidableEq, Repr

def kindPulsar : UInt8 := 0x01
def kindCorona : UInt8 := 0x02
def kindMagnetar : UInt8 := 0x03

def modeMLDSA44 : UInt8 := 0x44
def modeMLDSA65 : UInt8 := 0x65
def modeMLDSA87 : UInt8 := 0x87

def messageHashSize : ℕ := 32

def baseVerifyGas : UInt64 := 50000
def perByteGas : UInt64 := 10

def precompileCtx : List UInt8 := ascii "lux-evm-precompile-p3q-v1".toList

/-- The parameter sets of `mldsa`. -/
inductive Mode
  | mldsa44
  | mldsa65
  | mldsa87
deriving DecidableEq, Repr

/-- The ML-DSA verifier. -/
structure Mldsa where
  PublicKey : Type
  /-- `PublicKeyFromBytes`; `none` is its error. -/
  publicKeyFromBytes : List UInt8 → Mode → Option PublicKey
  /-- `VerifySignatureCtx` of a message, a signature and a context. -/
  verifySignatureCtx : PublicKey → List UInt8 → List UInt8 → List UInt8 → Bool

/-- What `modeParams` returns. -/
structure ModeParams where
  mode : Mode
  pkSize : ℕ
  sigSize : ℕ
deriving DecidableEq, Repr

def modeParams (mode : UInt8) : Except Error ModeParams :=
  if mode = modeMLDSA44 then .ok ⟨.mldsa44, 1312, 2420⟩
  else if mode = modeMLDSA65 then .ok ⟨.mldsa65, 1952, 3309⟩
  else if mode = modeMLDSA87 then .ok ⟨.mldsa87, 2592, 4627⟩
  else .error .unsupportedMode

theorem modeParams_sizes {mode : UInt8} {p : ModeParams} (h : modeParams mode = .ok p) :
    p.sigSize < 2 ^ 32 ∧ p.pkSize < 2 ^ 32 := by
  unfold modeParams at h
  split_ifs at h
  all_goals
    obtain rfl := Except.ok.inj h
    exact ⟨by norm_num, by norm_num⟩

/-! ## The precompile -/

section Precompile

variable (mldsa : Mldsa)

def requiredGas (input : List UInt8) : UInt64 :=
  baseVerifyGas + UInt64.ofNat input.length * perByteGas

/-- The kinds that go on to the verifier. -/
def checkKind (kind : UInt8) : Except Error Unit :=
  if kind = kindPulsar then .ok ()
  else if kind = kindCorona ∨ kind = kindMagnetar then .error .kindReserved
  else .error .unknownKind

/-- A length field must hold the size of the mode. -/
def checkSize (declared : UInt32) (size : ℕ) (e : Error) : Except Error Unit :=
  if declared.toNat ≠ size then .error e else .ok ()

/-- What `verify` checks, or why it refuses. -/
def check (input : List UInt8) : Except Error Bool := do
  let (kind, rest) ← Cursor.byte .short input
  checkKind kind
  let (mode, rest) ← Cursor.byte .short rest
  let params ← modeParams mode
  let (sigLen, rest) ← Cursor.uint32 .short rest
  checkSize sigLen params.sigSize .sigSize
  let (pulsarSig, rest) ← Cursor.bytes .short sigLen.toNat rest
  let (pkLen, rest) ← Cursor.uint32 .short rest
  checkSize pkLen params.pkSize .pubKeySize
  let (groupPubKey, rest) ← Cursor.bytes .short pkLen.toNat rest
  let (messageHash, _) ← Cursor.bytes .short messageHashSize rest
  match mldsa.publicKeyFromBytes groupPubKey params.mode with
  | none => .error .publicKey
  | some pk => .ok (mldsa.verifySignatureCtx pk messageHash pulsarSig precompileCtx)

def verify (input : List UInt8) : Verdict Error := .ofCheck (check mldsa input)

/-- `Run`: the output and the remaining gas. -/
def run (input : List UInt8) (suppliedGas : UInt64) : Except Error (List UInt8 × UInt64) :=
  match deductGas suppliedGas (requiredGas input) with
  | none => .error .outOfGas
  | some remaining => .ok ((verify mldsa input).word, remaining)

/-! ## The in-process entry point -/

/-- `Verify`. -/
def verifyArgs (mode : UInt8) (groupPubKey pulsarSig messageHash : List UInt8) :
    Except Error Unit := do
  let params ← modeParams mode
  if groupPubKey.length ≠ params.pkSize then .error .groupPubKeyMismatch
  else if pulsarSig.length ≠ params.sigSize then .error .pulsarSigMismatch
  else if messageHash.length ≠ messageHashSize then .error .messageHashSize
  else
    match mldsa.publicKeyFromBytes groupPubKey params.mode with
    | none => .error .publicKey
    | some pk =>
        if mldsa.verifySignatureCtx pk messageHash pulsarSig precompileCtx = true then .ok ()
        else .error .rejected

end Precompile

def encodeInputKind (kind mode : UInt8) (pulsarSig groupPubKey messageHash : List UInt8) :
    List UInt8 :=
  kind :: mode :: (uint32Bytes (UInt32.ofNat pulsarSig.length) ++ (pulsarSig ++
    (uint32Bytes (UInt32.ofNat groupPubKey.length) ++ (groupPubKey ++ messageHash))))

def encodeInput (mode : UInt8) (pulsarSig groupPubKey messageHash : List UInt8) : List UInt8 :=
  encodeInputKind kindPulsar mode pulsarSig groupPubKey messageHash

/-! ## What passes -/

section Passing

variable {mldsa : Mldsa}

/-- The fields of a frame pass: their sizes are those of the mode, the key decodes and the
signature verifies. -/
def Passes (mldsa : Mldsa) (mode : UInt8) (groupPubKey pulsarSig messageHash : List UInt8) :
    Prop :=
  ∃ params pk, modeParams mode = .ok params ∧ groupPubKey.length = params.pkSize ∧
    pulsarSig.length = params.sigSize ∧ messageHash.length = messageHashSize ∧
    mldsa.publicKeyFromBytes groupPubKey params.mode = some pk ∧
    mldsa.verifySignatureCtx pk messageHash pulsarSig precompileCtx = true

theorem verifyArgs_eq_ok_iff {mode : UInt8} {groupPubKey pulsarSig messageHash : List UInt8} :
    verifyArgs mldsa mode groupPubKey pulsarSig messageHash = .ok () ↔
      Passes mldsa mode groupPubKey pulsarSig messageHash := by
  unfold verifyArgs Passes
  rw [bind_eq_ok]
  constructor
  · rintro ⟨params, hmode, h⟩
    rw [refuse_eq_ok, refuse_eq_ok, refuse_eq_ok] at h
    obtain ⟨hpk, hsig, hhash, h⟩ := h
    rcases hkey : mldsa.publicKeyFromBytes groupPubKey params.mode with _ | pk
    · rw [hkey] at h
      simp at h
    · rw [hkey] at h
      dsimp only at h
      split_ifs at h with hverify
      exact ⟨params, pk, hmode, not_not.mp hpk, not_not.mp hsig, not_not.mp hhash, hkey, hverify⟩
  · rintro ⟨params, pk, hmode, hpk, hsig, hhash, hkey, hverify⟩
    refine ⟨params, hmode, ?_⟩
    rw [refuse_eq_ok, refuse_eq_ok, refuse_eq_ok]
    refine ⟨not_not.mpr hpk, not_not.mpr hsig, not_not.mpr hhash, ?_⟩
    rw [hkey]
    exact if_pos hverify

theorem checkKind_eq_ok_iff {kind : UInt8} : checkKind kind = .ok () ↔ kind = kindPulsar := by
  unfold checkKind
  split_ifs with hpulsar hreserved
  · simp [hpulsar]
  · simp [hpulsar]
  · simp [hpulsar]

theorem checkSize_eq_ok_iff {declared : UInt32} {size : ℕ} {e : Error} :
    checkSize declared size e = .ok () ↔ declared.toNat = size := by
  unfold checkSize
  rw [refuse_eq_ok]
  simp

/-- A frame passes exactly when it starts with the encoding of fields that pass. -/
theorem check_eq_true_iff {input : List UInt8} :
    check mldsa input = .ok true ↔
      ∃ mode pulsarSig groupPubKey messageHash trailing,
        input = encodeInput mode pulsarSig groupPubKey messageHash ++ trailing ∧
          Passes mldsa mode groupPubKey pulsarSig messageHash := by
  simp only [check, bind_eq_ok]
  constructor
  · rintro ⟨⟨kind, rest1⟩, hkind, ⟨⟩, hpulsar, ⟨mode, rest2⟩, hmode, params, hparams,
      ⟨sigLen, rest3⟩, hsigLen, ⟨⟩, hsigSize, ⟨sig, rest4⟩, hsig, ⟨pkLen, rest5⟩, hpkLen, ⟨⟩,
      hpkSize, ⟨pk, rest6⟩, hpk, ⟨hash, trailing⟩, hhash, h⟩
    dsimp only at hpulsar hmode hparams hsigLen hsigSize hsig hpkLen hpkSize hpk hhash h
    obtain rfl := Cursor.byte_eq_ok_iff.mp hkind
    obtain rfl := checkKind_eq_ok_iff.mp hpulsar
    obtain rfl := Cursor.byte_eq_ok_iff.mp hmode
    obtain rfl := Cursor.uint32_eq_ok_iff.mp hsigLen
    obtain ⟨rfl, hsigLength⟩ := Cursor.bytes_eq_ok_iff.mp hsig
    obtain rfl := Cursor.uint32_eq_ok_iff.mp hpkLen
    obtain ⟨rfl, hpkLength⟩ := Cursor.bytes_eq_ok_iff.mp hpk
    obtain ⟨rfl, hhashLength⟩ := Cursor.bytes_eq_ok_iff.mp hhash
    refine ⟨mode, sig, pk, hash, trailing, ?_, ?_⟩
    · rw [encodeInput, encodeInputKind, hsigLength, hpkLength, UInt32.ofNat_toNat,
        UInt32.ofNat_toNat]
      simp
    · rcases hkey : mldsa.publicKeyFromBytes pk params.mode with _ | key
      · rw [hkey] at h
        simp at h
      · rw [hkey] at h
        exact ⟨params, key, hparams, hpkLength.trans (checkSize_eq_ok_iff.mp hpkSize),
          hsigLength.trans (checkSize_eq_ok_iff.mp hsigSize), hhashLength, hkey,
          Except.ok.inj h⟩
  · rintro ⟨mode, sig, pk, hash, trailing, rfl, params, key, hparams, hpk, hsig, hhash, hkey,
      hverify⟩
    obtain ⟨hsigLt, hpkLt⟩ := modeParams_sizes hparams
    have hsigLen : (UInt32.ofNat sig.length).toNat = sig.length := by
      rw [UInt32.toNat_ofNat', Nat.mod_eq_of_lt (hsig ▸ hsigLt)]
    have hpkLen : (UInt32.ofNat pk.length).toNat = pk.length := by
      rw [UInt32.toNat_ofNat', Nat.mod_eq_of_lt (hpk ▸ hpkLt)]
    refine ⟨(kindPulsar, _), Cursor.byte_eq_ok_iff.mpr rfl, (), checkKind_eq_ok_iff.mpr rfl,
      (mode, _), Cursor.byte_eq_ok_iff.mpr rfl, params, hparams, (UInt32.ofNat sig.length, _),
      Cursor.uint32_eq_ok_iff.mpr (List.append_assoc ..), (),
      checkSize_eq_ok_iff.mpr (hsigLen.trans hsig), (sig, _),
      Cursor.bytes_eq_ok_iff.mpr ⟨List.append_assoc .., hsigLen.symm⟩,
      (UInt32.ofNat pk.length, _), Cursor.uint32_eq_ok_iff.mpr (List.append_assoc ..), (),
      checkSize_eq_ok_iff.mpr (hpkLen.trans hpk), (pk, _),
      Cursor.bytes_eq_ok_iff.mpr ⟨List.append_assoc .., hpkLen.symm⟩, (hash, trailing),
      Cursor.bytes_eq_ok_iff.mpr ⟨rfl, hhash⟩, ?_⟩
    dsimp only
    rw [hkey]
    exact congrArg Except.ok hverify

/-- An encoding passes exactly when the hash has 32 bytes to read and these pass. -/
theorem check_encodeInput_iff {mode : UInt8} {sig pk hash : List UInt8}
    (hsig : sig.length < 2 ^ 32) (hpk : pk.length < 2 ^ 32) :
    check mldsa (encodeInput mode sig pk hash) = .ok true ↔
      messageHashSize ≤ hash.length ∧ Passes mldsa mode pk sig (hash.take messageHashSize) := by
  have hlength : ∀ {n m : ℕ}, n < 2 ^ 32 → m < 2 ^ 32 →
      uint32Bytes (UInt32.ofNat n) = uint32Bytes (UInt32.ofNat m) → n = m := by
    intro n m hn hm h
    have hword : UInt32.ofNat n = UInt32.ofNat m := by
      rw [← bytesToUint32_uint32Bytes (UInt32.ofNat n), h, bytesToUint32_uint32Bytes]
    rw [← Nat.mod_eq_of_lt hn, ← UInt32.toNat_ofNat', hword, UInt32.toNat_ofNat',
      Nat.mod_eq_of_lt hm]
  rw [check_eq_true_iff]
  constructor
  · rintro ⟨mode', sig', pk', hash', trailing, hframe, hpasses⟩
    obtain ⟨params, key, hparams, hpk', hsig', hhash', -⟩ := id hpasses
    obtain ⟨hsigLt, hpkLt⟩ := modeParams_sizes hparams
    simp only [encodeInput, encodeInputKind, List.cons_append, List.append_assoc,
      List.cons.injEq, true_and] at hframe
    obtain ⟨rfl, hfields⟩ := hframe
    obtain ⟨hsigLen, hfields⟩ := List.append_inj hfields (by simp)
    obtain ⟨rfl, hkeyFields⟩ := List.append_inj hfields (hlength hsig (hsig' ▸ hsigLt) hsigLen)
    obtain ⟨hpkLen, hlast⟩ := List.append_inj hkeyFields (by simp)
    obtain ⟨rfl, rfl⟩ := List.append_inj hlast (hlength hpk (hpk' ▸ hpkLt) hpkLen)
    rw [List.take_left' hhash', List.length_append, hhash']
    exact ⟨Nat.le_add_right _ _, hpasses⟩
  · rintro ⟨-, hpasses⟩
    refine ⟨mode, sig, pk, hash.take messageHashSize, hash.drop messageHashSize, ?_, hpasses⟩
    simp [encodeInput, encodeInputKind]

theorem run_eq_trueWord_iff {input : List UInt8} {suppliedGas : UInt64}
    (hgas : requiredGas input ≤ suppliedGas) :
    (∃ remaining, run mldsa input suppliedGas = .ok (trueWord, remaining)) ↔
      check mldsa input = .ok true := by
  have hdeduct : deductGas suppliedGas (requiredGas input) =
      some (suppliedGas - requiredGas input) := if_neg (UInt64.not_lt.mpr hgas)
  unfold run
  rw [hdeduct]
  simp only [Except.ok.injEq, Prod.mk.injEq, exists_and_left, exists_eq', and_true,
    Verdict.word_eq_trueWord]
  exact Verdict.ok_ofCheck

theorem requiredGas_le_of_run {input output : List UInt8} {suppliedGas remaining : UInt64}
    (h : run mldsa input suppliedGas = .ok (output, remaining)) :
    requiredGas input ≤ suppliedGas := by
  unfold run deductGas at h
  split_ifs at h with hlow
  exact UInt64.not_lt.mp hlow

end Passing

/-! ## The two entry points -/

/-- The two entry points agree on a tuple of fields exactly when the hash is no longer than 32
bytes or its first 32 bytes do not pass; and a frame is accepted only if its fields pass. -/
theorem entry_points_agree_iff (mldsa : Mldsa) (mode : UInt8) (sig pk hash : List UInt8)
    (hsig : sig.length < 2 ^ 32) (hpk : pk.length < 2 ^ 32) (suppliedGas : UInt64)
    (hgas : requiredGas (encodeInput mode sig pk hash) ≤ suppliedGas) :
    (((∃ remaining, run mldsa (encodeInput mode sig pk hash) suppliedGas =
          .ok (trueWord, remaining)) ↔ verifyArgs mldsa mode pk sig hash = .ok ()) ↔
        hash.length ≤ messageHashSize ∨
          ¬ Passes mldsa mode pk sig (hash.take messageHashSize)) ∧
      ∀ input supplied remaining, run mldsa input supplied = .ok (trueWord, remaining) →
        ∃ mode' sig' pk' hash' trailing,
          input = encodeInputKind kindPulsar mode' sig' pk' hash' ++ trailing ∧
            verifyArgs mldsa mode' pk' sig' hash' = .ok () := by
  constructor
  · rw [run_eq_trueWord_iff hgas, check_encodeInput_iff hsig hpk, verifyArgs_eq_ok_iff]
    have hsize : Passes mldsa mode pk sig hash → hash.length = messageHashSize := by
      rintro ⟨params, key, -, -, -, hhash, -⟩
      exact hhash
    rcases lt_trichotomy hash.length messageHashSize with hshort | hexact | hlong
    · have hno : ¬ Passes mldsa mode pk sig hash := fun h => hshort.ne (hsize h)
      simp [hno, hshort.le, not_le.mpr hshort]
    · simp [← hexact]
    · have hno : ¬ Passes mldsa mode pk sig hash := fun h => hlong.ne' (hsize h)
      simp [hno, hlong.le, not_le.mpr hlong]
  · intro input supplied remaining hrun
    have hpassed := (run_eq_trueWord_iff (requiredGas_le_of_run hrun)).mp ⟨remaining, hrun⟩
    obtain ⟨mode', sig', pk', hash', trailing, hframe, hpasses⟩ := check_eq_true_iff.mp hpassed
    exact ⟨mode', sig', pk', hash', trailing, hframe, verifyArgs_eq_ok_iff.mpr hpasses⟩

/-! ## One signature -/

def signedKey : List UInt8 := List.replicate 1312 2
def signedHash : List UInt8 := List.replicate 32 1
def signature : List UInt8 := List.replicate 2420 3

theorem signedKey_length : signedKey.length = 1312 := List.length_replicate
theorem signedHash_length : signedHash.length = 32 := List.length_replicate
theorem signature_length : signature.length = 2420 := List.length_replicate

/-- A verifier that knows one signature. -/
def oneSignature : Mldsa where
  PublicKey := List UInt8
  publicKeyFromBytes pk _ := some pk
  verifySignatureCtx pk messageHash sig ctx :=
    decide (pk = signedKey ∧ messageHash = signedHash ∧ sig = signature ∧ ctx = precompileCtx)

theorem oneSignature_passes :
    Passes oneSignature modeMLDSA44 signedKey signature signedHash := by
  refine ⟨⟨.mldsa44, 1312, 2420⟩, signedKey, rfl, signedKey_length, signature_length,
    signedHash_length, rfl, ?_⟩
  simp only [oneSignature, and_self, decide_true]

/-- All the gas there is. -/
def allGas : UInt64 := 18446744073709551615

theorem le_allGas (gas : UInt64) : gas ≤ allGas :=
  UInt64.le_iff_toNat_le.mpr (Nat.le_of_lt_succ (UInt64.toNat_lt gas))

/-- The signed hash and a byte after it: the precompile accepts what `Verify` refuses. -/
theorem padded_hash_disagrees :
    ¬ ∀ (mldsa : Mldsa) (mode : UInt8) (sig pk hash : List UInt8) (suppliedGas : UInt64),
      sig.length < 2 ^ 32 → pk.length < 2 ^ 32 → hash.length < 2 ^ 32 →
        requiredGas (encodeInput mode sig pk hash) ≤ suppliedGas →
          ((∃ remaining, run mldsa (encodeInput mode sig pk hash) suppliedGas =
            .ok (trueWord, remaining)) ↔ verifyArgs mldsa mode pk sig hash = .ok ()) := by
  intro h
  have hsig : signature.length < 2 ^ 32 := by rw [signature_length]; norm_num
  have hpk : signedKey.length < 2 ^ 32 := by rw [signedKey_length]; norm_num
  have hlength : (signedHash ++ [0]).length = 33 := by
    rw [List.length_append, signedHash_length]
    rfl
  have hagree := h oneSignature modeMLDSA44 signature signedKey (signedHash ++ [0]) allGas
    hsig hpk (by rw [hlength]; norm_num) (le_allGas _)
  rw [run_eq_trueWord_iff (le_allGas _), check_encodeInput_iff hsig hpk, verifyArgs_eq_ok_iff]
    at hagree
  have hfirst : (signedHash ++ [0]).take messageHashSize = signedHash :=
    List.take_left' signedHash_length
  obtain ⟨params, key, -, -, -, hhash, -⟩ := hagree.mp
    ⟨by rw [hlength]; decide, by rw [hfirst]; exact oneSignature_passes⟩
  rw [hlength] at hhash
  exact absurd hhash (by decide)

/-- The signed hash itself. -/
theorem entry_points_agree_signed :
    (∃ remaining, run oneSignature (encodeInput modeMLDSA44 signature signedKey signedHash)
        allGas = .ok (trueWord, remaining)) ↔
      verifyArgs oneSignature modeMLDSA44 signedKey signature signedHash = .ok () := by
  have hsig : signature.length < 2 ^ 32 := by rw [signature_length]; norm_num
  have hpk : signedKey.length < 2 ^ 32 := by rw [signedKey_length]; norm_num
  exact (entry_points_agree_iff oneSignature modeMLDSA44 signature signedKey signedHash hsig hpk
    allGas (le_allGas _)).1.mpr (.inl signedHash_length.le)

end LuxPrecompile.P3q
