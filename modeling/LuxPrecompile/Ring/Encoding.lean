import LuxPrecompile.Ring.Chain

/-!
# The encoding of a signature

What follows the header is the ring, the signature and the message, each at its own place.
A signature whose scalars are in range is read back from what it is written as, and is the
only one that is.
-/

namespace LuxPrecompile.Ring

open Evm Support Support.Checked

/-! ## Scalars -/

/-- The field of a scalar. -/
def scalarField (x : ℕ) : List UInt8 := padTo32 (bigBytes x)

theorem scalarField_eq {x : ℕ} (h : x < 256 ^ 32) : scalarField x = natToBytes 32 x := by
  have hlen := bigBytes_length_le_iff.mpr h
  rw [scalarField, padTo32, ← leftPadBytes_bigBytes h]
  by_cases hfull : 32 ≤ (bigBytes x).length
  · rw [if_pos hfull, leftPadBytes, le_antisymm hlen hfull, Nat.sub_self]
    rfl
  · rw [if_neg hfull, leftPadBytes]

theorem scalarField_length {x : ℕ} (h : x < 256 ^ 32) : (scalarField x).length = 32 := by
  rw [scalarField_eq h, natToBytes_length]

theorem scalarField_inj {x y : ℕ} (hx : x < 256 ^ 32) (hy : y < 256 ^ 32)
    (h : scalarField x = scalarField y) : x = y := by
  rw [scalarField_eq hx, scalarField_eq hy] at h
  exact natToBytes_inj hx hy h

variable (lib : Library)

/-- A scalar of the group. -/
def InRange (x : ℕ) : Prop := 0 < x ∧ x < lib.order

instance (x : ℕ) : Decidable (InRange lib x) :=
  inferInstanceAs (Decidable (0 < x ∧ x < lib.order))

/-- A signature for a ring of `n` members, with its scalars in range. -/
structure LSAGSignature.Admissible (n : ℕ) (sig : LSAGSignature) : Prop where
  keyImage : sig.keyImage.length = compressedPubKeySize
  c_length : sig.c.length = n
  s_length : sig.s.length = n
  c_range : ∀ x ∈ sig.c, InRange lib x
  s_range : ∀ x ∈ sig.s, InRange lib x

variable {lib}

theorem scalar_eq_some {b : List UInt8} {x : ℕ} :
    scalar lib b = some x ↔ bytesToNat b = x ∧ InRange lib x := by
  rw [scalar]
  by_cases hrange : 0 < bytesToNat b ∧ bytesToNat b < lib.order
  · simp only [if_pos hrange, Option.some.injEq]
    constructor
    · rintro rfl
      exact ⟨rfl, hrange⟩
    · exact And.left
  · simp only [if_neg hrange, reduceCtorEq, false_iff]
    rintro ⟨rfl, hx⟩
    exact hrange hx

/-- Scalars are read from exactly their fields. -/
theorem scalars_eq_ok {n : ℕ} :
    ∀ {data rest : List UInt8} {xs : List ℕ},
      scalars lib n data = .ok (xs, rest) ↔
        data = (xs.map scalarField).flatten ++ rest ∧ xs.length = n ∧
          ∀ x ∈ xs, InRange lib x ∧ x < 256 ^ 32 := by
  induction n with
  | zero =>
      intro data rest xs
      rw [scalars, Except.ok.injEq, Prod.mk.injEq]
      constructor
      · rintro ⟨rfl, rfl⟩
        simp
      · rintro ⟨rfl, hlength, -⟩
        obtain rfl := List.length_eq_zero_iff.mp hlength
        exact ⟨rfl, rfl⟩
  | succ n ih =>
      intro data rest xs
      rw [scalars, bind_eq_ok]
      constructor
      · rintro ⟨⟨b, after⟩, hread, h⟩
        obtain ⟨rfl, hlength⟩ := Cursor.bytes_eq_ok_iff.mp hread
        dsimp only at h
        rcases hscalar : scalar lib b with _ | x
        · rw [hscalar] at h
          cases h
        rw [hscalar] at h
        obtain ⟨⟨ys, after'⟩, hothers, hlist⟩ := bind_eq_ok.mp h
        obtain ⟨rfl, hn, hall⟩ := ih.mp hothers
        obtain ⟨rfl, rfl⟩ := Prod.mk.inj (Except.ok.inj hlist)
        obtain ⟨rfl, hx⟩ := scalar_eq_some.mp hscalar
        have hlt : bytesToNat b < 256 ^ 32 := by
          have hbytes := bytesToNat_lt b
          rw [hlength] at hbytes
          exact hbytes
        have hfield : scalarField (bytesToNat b) = b := by
          rw [scalarField_eq hlt]
          have hround := natToBytes_bytesToNat b
          rw [hlength] at hround
          exact hround
        refine ⟨?_, by rw [List.length_cons, hn], List.forall_mem_cons.mpr ⟨⟨hx, hlt⟩, hall⟩⟩
        rw [List.map_cons, List.flatten_cons, hfield, List.append_assoc]
      · rintro ⟨rfl, hn, hall⟩
        rcases xs with _ | ⟨x, ys⟩
        · cases hn
        obtain ⟨⟨hx, hlt⟩, hys⟩ := List.forall_mem_cons.mp hall
        have hothers : scalars lib n ((ys.map scalarField).flatten ++ rest) = .ok (ys, rest) :=
          ih.mpr ⟨rfl, Nat.succ_injective hn, hys⟩
        refine ⟨(scalarField x, (ys.map scalarField).flatten ++ rest), ?_, ?_⟩
        · rw [Cursor.bytes_eq_ok_iff, List.map_cons, List.flatten_cons, List.append_assoc]
          exact ⟨rfl, scalarField_length hlt⟩
        · have hscalar : scalar lib (scalarField x) = some x := by
            rw [scalar_eq_some, scalarField_eq hlt, bytesToNat_natToBytes hlt]
            exact ⟨rfl, hx⟩
          dsimp only
          rw [hscalar]
          exact bind_eq_ok.mpr ⟨_, hothers, rfl⟩

/-! ## Signatures -/

theorem serialize_eq (sig : LSAGSignature) :
    sig.serialize = sig.keyImage ++ (sig.c.map scalarField).flatten ++
      (sig.s.map scalarField).flatten := rfl

theorem flatten_fields_length {xs : List ℕ} (h : ∀ x ∈ xs, x < 256 ^ 32) :
    ((xs.map scalarField).flatten).length = xs.length * scalarSize := by
  induction xs with
  | nil => rfl
  | cons x xs ih =>
      obtain ⟨hx, hxs⟩ := List.forall_mem_cons.mp h
      rw [List.map_cons, List.flatten_cons, List.length_append, scalarField_length hx, ih hxs,
        List.length_cons, scalarSize]
      ring

/-- A signature is read from exactly what it is written as, and what follows. -/
theorem parseLSAGSignature_eq_ok {n : ℕ} {data : List UInt8} {sig : LSAGSignature} :
    parseLSAGSignature lib data n = .ok sig ↔
      sig.Admissible lib n ∧ (∀ x ∈ sig.c ++ sig.s, x < 256 ^ 32) ∧
        ∃ rest, data = sig.serialize ++ rest := by
  simp only [parseLSAGSignature, bind_eq_ok]
  constructor
  · rintro ⟨⟨keyImage, after⟩, hkey, ⟨c, after'⟩, hc, ⟨s, rest⟩, hs, hsig⟩
    obtain ⟨rfl, hlength⟩ := Cursor.bytes_eq_ok_iff.mp hkey
    obtain ⟨rfl, hcn, hcall⟩ := scalars_eq_ok.mp hc
    obtain ⟨rfl, hsn, hsall⟩ := scalars_eq_ok.mp hs
    obtain rfl := Except.ok.inj hsig
    refine ⟨⟨hlength, hcn, hsn, fun x hx => (hcall x hx).1, fun x hx => (hsall x hx).1⟩, ?_,
      rest, ?_⟩
    · intro x hx
      rcases List.mem_append.mp hx with hx | hx
      · exact (hcall x hx).2
      · exact (hsall x hx).2
    · simp only [serialize_eq, List.append_assoc]
  · rintro ⟨hadm, hlt, rest, rfl⟩
    have hs : scalars lib n ((sig.s.map scalarField).flatten ++ rest) = .ok (sig.s, rest) :=
      scalars_eq_ok.mpr ⟨rfl, hadm.s_length, fun x hx =>
        ⟨hadm.s_range x hx, hlt x (List.mem_append_right _ hx)⟩⟩
    have hc : scalars lib n ((sig.c.map scalarField).flatten ++
        ((sig.s.map scalarField).flatten ++ rest)) =
          .ok (sig.c, (sig.s.map scalarField).flatten ++ rest) :=
      scalars_eq_ok.mpr ⟨rfl, hadm.c_length, fun x hx =>
        ⟨hadm.c_range x hx, hlt x (List.mem_append_left _ hx)⟩⟩
    refine ⟨_, Cursor.bytes_eq_ok_iff.mpr ⟨?_, hadm.keyImage⟩, _, hc, _, hs, rfl⟩
    simp only [serialize_eq, List.append_assoc]

theorem serialize_length {n : ℕ} {sig : LSAGSignature} (hadm : sig.Admissible lib n)
    (hlt : ∀ x ∈ sig.c ++ sig.s, x < 256 ^ 32) :
    sig.serialize.length = compressedPubKeySize + n * scalarSize + n * scalarSize := by
  rw [serialize_eq, List.length_append, List.length_append, hadm.keyImage,
    flatten_fields_length fun x hx => hlt x (List.mem_append_left _ hx),
    flatten_fields_length fun x hx => hlt x (List.mem_append_right _ hx), hadm.c_length,
    hadm.s_length]

/-! ## Verification -/

/-- What follows the header: the members of the ring, the signature and the message. -/
def encode (ring : List (List UInt8)) (sig : LSAGSignature) (message : List UInt8) :
    List UInt8 :=
  ring.flatten ++ (sig.serialize ++ message)

variable (lib) in
/-- An input is a ring of `n` members, a signature with its scalars in range and a message. -/
structure Spells (n : ℕ) (input : List UInt8) (ring : List (List UInt8)) (sig : LSAGSignature)
    (message : List UInt8) : Prop where
  input_eq : input = encode ring sig message
  ring_length : ring.length = n
  members : ∀ member ∈ ring, member.length = compressedPubKeySize
  admissible : sig.Admissible lib n
  fits : ∀ x ∈ sig.c ++ sig.s, x < 256 ^ 32

theorem ring_read {n : ℕ} {input rest : List UInt8} {ring : List (List UInt8)} :
    (ofExcept (Cursor.fields Error.invalidInput compressedPubKeySize n input) :
      Checked Error _) = .ok (ring, rest) ↔
        input = ring.flatten ++ rest ∧ ring.length = n ∧
          ∀ member ∈ ring, member.length = compressedPubKeySize := by
  rw [← Cursor.fields_eq_ok_iff]
  rcases Cursor.fields Error.invalidInput compressedPubKeySize n input with why | result
  · simp [ofExcept_error]
  · simp [ofExcept_ok]

open Classical in
/-- The verification of an input that spells a signature. -/
theorem verify_spelled {n : ℕ} {input : List UInt8} {ring : List (List UInt8)}
    {sig : LSAGSignature} {message : List UInt8} (hn : 2 ≤ n)
    (h : Spells lib n input ring sig message) :
    verify lib schemeLSAGSecp256k1 n input =
      .ok (if Closes lib ring sig message then [0x01] else [0x00]) := by
  have hread := ring_read.mpr ⟨h.input_eq, h.ring_length, h.members⟩
  have hsig : Cursor.bytes Error.invalidInput
      (compressedPubKeySize + n * scalarSize + n * scalarSize) (sig.serialize ++ message) =
        .ok (sig.serialize, message) :=
    Cursor.bytes_eq_ok_iff.mpr ⟨rfl, serialize_length h.admissible h.fits⟩
  have hparse : parseLSAGSignature lib sig.serialize n = .ok sig :=
    parseLSAGSignature_eq_ok.mpr ⟨h.admissible, h.fits, [], (List.append_nil _).symm⟩
  have hring : ring ≠ [] := by
    rintro rfl
    have hlength := h.ring_length
    simp only [List.length_nil] at hlength
    omega
  rw [verify, if_neg (by simp), if_neg (by omega), hread, ok_bind]
  dsimp only
  rw [hsig, ofExcept_ok, ok_bind]
  dsimp only
  rw [hparse]
  dsimp only
  rw [lsagVerify_eq message hring (h.admissible.c_length.trans h.ring_length.symm)
    (h.admissible.s_length.trans h.ring_length.symm), ok_bind]
  simp only [decide_eq_true_eq]

theorem verify_spelled_iff {n : ℕ} {input : List UInt8} {ring : List (List UInt8)}
    {sig : LSAGSignature} {message : List UInt8} (hn : 2 ≤ n)
    (h : Spells lib n input ring sig message) :
    verify lib schemeLSAGSecp256k1 n input = .ok [0x01] ↔ Closes lib ring sig message := by
  rw [verify_spelled hn h]
  by_cases hcloses : Closes lib ring sig message
  · simp [hcloses]
  · simp [hcloses]

/-- An input either spells a signature or is answered without a verification. -/
theorem verify_cases (lib : Library) (scheme : UInt8) (n : ℕ) (input : List UInt8) :
    (∃ why, verify lib scheme n input = .error (.refused why)) ∨
      verify lib scheme n input = .ok [0x00] ∨
      scheme = schemeLSAGSecp256k1 ∧ 2 ≤ n ∧
        ∃ ring sig message, Spells lib n input ring sig message := by
  by_cases hscheme : scheme ≠ schemeLSAGSecp256k1
  · exact .inl ⟨_, if_pos hscheme⟩
  by_cases hn : n < 2
  · refine .inl ⟨.invalidRingSize, ?_⟩
    rw [verify, if_neg hscheme, if_pos hn]
  rcases hring : Cursor.fields Error.invalidInput compressedPubKeySize n input with
    why | ⟨ring, rest⟩
  · refine .inl ⟨why, ?_⟩
    rw [verify, if_neg hscheme, if_neg hn, hring]
    rfl
  rcases hsig : Cursor.bytes Error.invalidInput
      (compressedPubKeySize + n * scalarSize + n * scalarSize) rest with
    why | ⟨signature, message⟩
  · refine .inl ⟨why, ?_⟩
    rw [verify, if_neg hscheme, if_neg hn, hring, ofExcept_ok, ok_bind]
    dsimp only
    rw [hsig]
    rfl
  rcases hparse : parseLSAGSignature lib signature n with why | sig
  · refine .inr (.inl ?_)
    rw [verify, if_neg hscheme, if_neg hn, hring, ofExcept_ok, ok_bind]
    dsimp only
    rw [hsig, ofExcept_ok, ok_bind]
    dsimp only
    rw [hparse]
  · obtain ⟨rfl, hlength, hmembers⟩ := Cursor.fields_eq_ok_iff.mp hring
    obtain ⟨rfl, hwidth⟩ := Cursor.bytes_eq_ok_iff.mp hsig
    obtain ⟨hadm, hlt, trailing, htrailing⟩ := parseLSAGSignature_eq_ok.mp hparse
    have hnil : trailing = [] := by
      have hsum := congrArg List.length htrailing
      rw [List.length_append, serialize_length hadm hlt, hwidth] at hsum
      exact List.length_eq_zero_iff.mp (by omega)
    refine .inr (.inr ⟨not_not.mp hscheme, not_lt.mp hn, ring, sig, message, ?_⟩)
    exact ⟨by rw [htrailing, hnil, List.append_nil, encode], hlength, hmembers, hadm, hlt⟩

theorem verify_ne_panic (lib : Library) (scheme : UInt8) (n : ℕ) (input : List UInt8) :
    verify lib scheme n input ≠ .error .panic := by
  rcases verify_cases lib scheme n input with
    ⟨why, h⟩ | h | ⟨rfl, hn, ring, sig, message, hspells⟩
  · rw [h]
    simp
  · rw [h]
    simp
  · rw [verify_spelled hn hspells]
    simp

theorem verify_accepts {scheme : UInt8} {n : ℕ} {input : List UInt8}
    (h : verify lib scheme n input = .ok [0x01]) :
    scheme = schemeLSAGSecp256k1 ∧ 2 ≤ n ∧ ∃ ring sig message,
      Spells lib n input ring sig message ∧ Closes lib ring sig message := by
  rcases verify_cases lib scheme n input with
    ⟨why, h'⟩ | h' | ⟨rfl, hn, ring, sig, message, hspells⟩
  · rw [h'] at h
    cases h
  · rw [h'] at h
    simp at h
  · exact ⟨rfl, hn, ring, sig, message, hspells, (verify_spelled_iff hn hspells).mp h⟩

/-- The contract never panics. -/
theorem run_ne_panic (lib : Library) (input : List UInt8) (suppliedGas : UInt64) :
    run lib input suppliedGas ≠ .error .panic := by
  rw [run]
  rcases deductGas suppliedGas (requiredGas input) with _ | remainingGas
  · simp
  rcases header input with why | ⟨op, scheme, ringSize, rest⟩
  · simp
  dsimp only
  by_cases hop : op ≠ opVerify
  · rw [if_pos hop]
    simp
  rw [if_neg hop]
  rcases hverify : verify lib scheme ringSize.toNat rest with (why | _) | result
  · simp
  · exact absurd hverify (verify_ne_panic lib scheme ringSize.toNat rest)
  · simp

end LuxPrecompile.Ring
