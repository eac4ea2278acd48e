import LuxPrecompile.Ring.Encoding
import LuxPrecompile.Support.Primality
import Mathlib.Data.ZMod.Basic
import Mathlib.GroupTheory.OrderOfElement

/-!
# What an accepted signature binds

In a group of prime order a challenge or a response can be read off the point that it makes
at a member of the ring, so it can be read off the string that is hashed there.  A ring that
is accepted with one response changed would hash two strings to one challenge.  The challenges
after the first are carried along and not read.
-/

namespace LuxPrecompile.Ring

open Evm Support Support.Checked Support.HashChains

/-! ## The group -/

/-- The multiple of a point by a scalar in bytes: there is none by zero and none by a number
that is not below the order. -/
def multiple {G : Type} [AddCommGroup G] (order : ℕ) (point : G → Point) (k : List UInt8)
    (P : G) : Option Point :=
  if 0 < bytesToNat k ∧ bytesToNat k < order then some (point (bytesToNat k • P)) else none

/-- The curve operations are those of a group of prime order, whose points have different
coordinates of at most 32 bytes.  A public key is not the neutral element. -/
structure IsGroup {G : Type} [AddCommGroup G] (lib : Library) (point : G → Point) (g : G) :
    Prop where
  prime : lib.order.Prime
  card : Nat.card G = lib.order
  generator : g ≠ 0
  injective : Function.Injective point
  fits : ∀ P, (point P).x < 256 ^ 32 ∧ (point P).y < 256 ^ 32
  order_fits : lib.order ≤ 256 ^ 32
  scalarBaseMult : ∀ k, lib.scalarBaseMult k = multiple lib.order point k g
  scalarMult : ∀ P k, lib.scalarMult (point P) k = multiple lib.order point k P
  add : ∀ P Q, lib.add (point P) (point Q) = point (P + Q)
  decompressPubkey : ∀ b p, lib.decompressPubkey b = some p → ∃ P, P ≠ 0 ∧ p = point P
  hashToG1 : ∀ b, ∃ P, lib.hashToG1 b = point P

section Group

variable {G : Type} [AddCommGroup G] {lib : Library} {point : G → Point} {g : G}

theorem multiple_eq_some {k : ℕ} {P : G} {p : Point} :
    multiple lib.order point (bigBytes k) P = some p ↔ InRange lib k ∧ p = point (k • P) := by
  rw [multiple, bytesToNat_bigBytes]
  by_cases hk : 0 < k ∧ k < lib.order
  · rw [if_pos hk, Option.some.injEq]
    exact ⟨fun h => ⟨hk, h.symm⟩, fun h => h.2.symm⟩
  · rw [if_neg hk]
    simp only [reduceCtorEq, false_iff]
    exact fun h => hk h.1

theorem IsGroup.nsmul_inj (h : IsGroup lib point g) {P : G} (hP : P ≠ 0) {k k' : ℕ}
    (hk : InRange lib k) (hk' : InRange lib k') (heq : k • P = k' • P) : k = k' := by
  have hfact : Fact lib.order.Prime := ⟨h.prime⟩
  have horder : addOrderOf P = lib.order := by
    refine addOrderOf_eq_prime ?_ hP
    rw [← h.card]
    exact card_nsmul_eq_zero'
  refine nsmul_injOn_Iio_addOrderOf (x := P) ?_ ?_ heq
  · rw [Set.mem_Iio, horder]
    exact hk.2
  · rw [Set.mem_Iio, horder]
    exact hk'.2

/-- What is hashed at a member of the ring. -/
theorem IsGroup.query_eq_some (h : IsGroup lib point g) {message : List UInt8} {img : G}
    {member q : List UInt8} {s c : ℕ} :
    query lib message (point img) (member, s) c = some q ↔
      ∃ P H, P ≠ 0 ∧ lib.decompressPubkey member = some (point P) ∧
        hashToPoint lib member = point H ∧ InRange lib s ∧ InRange lib c ∧
          q = ringInput message (point (s • g + c • P)) (point (s • H + c • img)) := by
  obtain ⟨H, hH⟩ := h.hashToG1 member
  simp only [query, Option.bind_eq_bind, Option.bind_eq_some_iff, h.scalarBaseMult,
    multiple_eq_some, Option.some.injEq, hashToPoint]
  constructor
  · rintro ⟨pk, hpk, _, ⟨hs, rfl⟩, cP, hcP, sH, hsH, cI, hcI, rfl⟩
    obtain ⟨P, hP, rfl⟩ := h.decompressPubkey member pk hpk
    rw [h.scalarMult, multiple_eq_some] at hcP hcI
    rw [hH, h.scalarMult, multiple_eq_some] at hsH
    obtain ⟨hc, rfl⟩ := hcP
    obtain ⟨-, rfl⟩ := hsH
    obtain ⟨-, rfl⟩ := hcI
    refine ⟨P, H, hP, hpk, hH, hs, hc, ?_⟩
    rw [h.add, h.add]
  · rintro ⟨P, H', hP, hpk, hH', hs, hc, rfl⟩
    refine ⟨point P, hpk, _, ⟨hs, rfl⟩, point (c • P), ?_, point (s • H'), ?_, point (c • img),
      ?_, ?_⟩
    · rw [h.scalarMult, multiple_eq_some]
      exact ⟨hc, rfl⟩
    · rw [hH', h.scalarMult, multiple_eq_some]
      exact ⟨hs, rfl⟩
    · rw [h.scalarMult, multiple_eq_some]
      exact ⟨hc, rfl⟩
    · rw [h.add, h.add]

/-- The left point can be read off the string that is hashed. -/
theorem ringInput_inj {message : List UInt8} {l r l' r' : Point}
    (hl : l.x < 256 ^ 32 ∧ l.y < 256 ^ 32) (hl' : l'.x < 256 ^ 32 ∧ l'.y < 256 ^ 32)
    (h : ringInput message l r = ringInput message l' r') : l = l' := by
  have hfields : scalarField l.x ++ (scalarField l.y ++ (scalarField r.x ++ scalarField r.y)) =
      scalarField l'.x ++ (scalarField l'.y ++ (scalarField r'.x ++ scalarField r'.y)) := by
    simp only [ringInput, List.append_assoc] at h
    exact List.append_cancel_left h
  obtain ⟨hx, hrest⟩ := List.append_inj hfields
    ((scalarField_length hl.1).trans (scalarField_length hl'.1).symm)
  obtain ⟨hy, -⟩ := List.append_inj hrest
    ((scalarField_length hl.2).trans (scalarField_length hl'.2).symm)
  rw [Point.mk.injEq]
  exact ⟨scalarField_inj hl.1 hl'.1 hx, scalarField_inj hl.2 hl'.2 hy⟩

theorem IsGroup.differ_challenge (h : IsGroup lib point g) (message : List UInt8) (img : G)
    (a : List UInt8 × ℕ) {c c' : ℕ} (hne : c ≠ c') :
    Differ (query lib message (point img)) a a c c' := by
  obtain ⟨member, s⟩ := a
  intro q q' hq hq' heq
  obtain ⟨P, H, hP, hpk, -, -, hc, rfl⟩ := h.query_eq_some.mp hq
  obtain ⟨P', H', -, hpk', -, -, hc', rfl⟩ := h.query_eq_some.mp hq'
  obtain rfl := h.injective (Option.some.inj (hpk.symm.trans hpk'))
  have hleft : s • g + c • P = s • g + c' • P :=
    h.injective (ringInput_inj (h.fits _) (h.fits _) heq)
  exact hne (h.nsmul_inj hP hc hc' (add_left_cancel hleft))

theorem IsGroup.differ_response (h : IsGroup lib point g) (message : List UInt8) (img : G)
    (member : List UInt8) {s s' : ℕ} (hne : s ≠ s') (c : ℕ) :
    Differ (query lib message (point img)) (member, s) (member, s') c c := by
  intro q q' hq hq' heq
  obtain ⟨P, H, -, hpk, -, hs, -, rfl⟩ := h.query_eq_some.mp hq
  obtain ⟨P', H', -, hpk', -, hs', -, rfl⟩ := h.query_eq_some.mp hq'
  obtain rfl := h.injective (Option.some.inj (hpk.symm.trans hpk'))
  have hleft : s • g + c • P = s' • g + c • P :=
    h.injective (ringInput_inj (h.fits _) (h.fits _) heq)
  exact hne (h.nsmul_inj h.generator hs hs' (add_right_cancel hleft))

end Group

/-! ## Signatures with one field changed -/

/-- A signature with one challenge replaced. -/
def LSAGSignature.withChallenge (sig : LSAGSignature) (i c : ℕ) : LSAGSignature :=
  { sig with c := sig.c.set i c }

/-- A signature with one response replaced. -/
def LSAGSignature.withResponse (sig : LSAGSignature) (i s : ℕ) : LSAGSignature :=
  { sig with s := sig.s.set i s }

section Changed

variable {lib : Library} {n : ℕ} {input : List UInt8} {ring : List (List UInt8)}
  {sig : LSAGSignature} {message : List UInt8}

theorem forall_mem_set {p : ℕ → Prop} {xs : List ℕ} {i x : ℕ} (hxs : ∀ y ∈ xs, p y) (hx : p x) :
    ∀ y ∈ xs.set i x, p y := by
  intro y hy
  rcases List.mem_or_eq_of_mem_set hy with hmem | rfl
  · exact hxs y hmem
  · exact hx

/-- A changed challenge is spelled as the signature is. -/
theorem Spells.withChallenge (h : Spells lib n input ring sig message)
    (hfits : lib.order ≤ 256 ^ 32) (i : ℕ) {c : ℕ} (hc : InRange lib c) :
    Spells lib n (encode ring (sig.withChallenge i c) message) ring (sig.withChallenge i c)
      message where
  input_eq := rfl
  ring_length := h.ring_length
  members := h.members
  admissible :=
    { h.admissible with
      c_length := by
        rw [LSAGSignature.withChallenge, List.length_set, h.admissible.c_length]
      c_range := forall_mem_set h.admissible.c_range hc }
  fits := by
    intro x hx
    rcases List.mem_append.mp hx with hx | hx
    · exact lt_of_lt_of_le (forall_mem_set h.admissible.c_range hc x hx).2 hfits
    · exact h.fits x (List.mem_append_right _ hx)

/-- So is a changed response. -/
theorem Spells.withResponse (h : Spells lib n input ring sig message)
    (hfits : lib.order ≤ 256 ^ 32) (i : ℕ) {s : ℕ} (hs : InRange lib s) :
    Spells lib n (encode ring (sig.withResponse i s) message) ring (sig.withResponse i s)
      message where
  input_eq := rfl
  ring_length := h.ring_length
  members := h.members
  admissible :=
    { h.admissible with
      s_length := by
        rw [LSAGSignature.withResponse, List.length_set, h.admissible.s_length]
      s_range := forall_mem_set h.admissible.s_range hs }
  fits := by
    intro x hx
    rcases List.mem_append.mp hx with hx | hx
    · exact h.fits x (List.mem_append_left _ hx)
    · exact lt_of_lt_of_le (forall_mem_set h.admissible.s_range hs x hx).2 hfits

theorem zip_set {i s : ℕ} {member : List UInt8} {ss : List ℕ} (hmember : ring[i]? = some member) :
    ring.zip (ss.set i s) = (ring.zip ss).set i (member, s) := by
  refine List.ext_getElem? fun j => ?_
  by_cases hij : i = j
  · subst hij
    by_cases hlt : i < ss.length
    · have hring : i < ring.length := (List.getElem?_eq_some_iff.mp hmember).1
      rw [List.getElem?_set_self (by simp; omega)]
      exact List.getElem?_zip_eq_some.mpr ⟨hmember, List.getElem?_set_self hlt⟩
    · rw [List.set_eq_of_length_le (not_lt.mp hlt), List.set_eq_of_length_le (by simp; omega)]
  · rw [List.getElem?_set_ne hij]
    simp only [List.zip, List.getElem?_zipWith, List.getElem?_set_ne hij]

end Changed

/-! ## Accepted signatures -/

/-- The challenges recomputed along the ring from the first one that the signature carries,
which the last of them is again. -/
structure Recomputes {G : Type} [AddCommGroup G] (lib : Library) (point : G → Point) (g : G)
    (ring : List (List UInt8)) (sig : LSAGSignature) (message : List UInt8) (img : G)
    (cs : ℕ → ℕ) : Prop where
  first : sig.c[0]? = some (cs 0)
  next : ∀ i member s, ring[i]? = some member → sig.s[i]? = some s →
    ∃ P H, lib.decompressPubkey member = some (point P) ∧ hashToPoint lib member = point H ∧
      cs (i + 1) =
        hashRing lib message (point (s • g + cs i • P)) (point (s • H + cs i • img))
  last : cs ring.length = cs 0

section Accepted

variable (lib : Library) (n : ℕ) (ring : List (List UInt8)) (sig : LSAGSignature)
  (message : List UInt8) (img : Point)

/-- No two of the strings have the same digest. -/
def CollisionFree (inputs : List (List UInt8)) : Prop :=
  Set.InjOn (digest lib) {input | input ∈ inputs}

instance (inputs : List (List UInt8)) : Decidable (CollisionFree lib inputs) :=
  decidable_of_iff (∀ a ∈ inputs, ∀ b ∈ inputs, digest lib a = digest lib b → a = b)
    ⟨fun h _ ha _ hb => h _ ha _ hb, fun h _ ha _ hb => h ha hb⟩

/-- A signature with another response at one place is rejected. -/
def ResponsesBound (c : ℕ) : Prop :=
  ∀ i s', i < n → InRange lib s' → sig.s[i]? ≠ some s' →
    CollisionFree lib (hashed lib message img ring sig.s c ++
      hashed lib message img ring (sig.withResponse i s').s c) →
        verify lib schemeLSAGSecp256k1 n (encode ring (sig.withResponse i s') message) =
          .ok [0x00]

/-- A signature with another first challenge has other challenges all along the ring, and is
accepted only where these close too. -/
def FirstChallengeBound (cs : ℕ → ℕ) : Prop :=
  ∀ c', InRange lib c' → c' ≠ cs 0 →
    (CollisionFree lib (hashed lib message img ring sig.s (cs 0) ++
      hashed lib message img ring sig.s c') →
        ∀ i ≤ n, ∀ d, challenge lib message img ring sig.s c' i = some d → d ≠ cs i) ∧
    (verify lib schemeLSAGSecp256k1 n (encode ring (sig.withChallenge 0 c') message) =
      .ok [0x01] ↔ challenge lib message img ring sig.s c' n = some c')

/-- A signature with another challenge after the first is accepted as well. -/
def OtherChallengesUnread : Prop :=
  ∀ i c', 0 < i → InRange lib c' →
    verify lib schemeLSAGSecp256k1 n (encode ring (sig.withChallenge i c') message) =
      .ok [0x01]

end Accepted

section Main

variable {G : Type} [AddCommGroup G] {lib : Library} {point : G → Point} {g : G} {n : ℕ}
  {input : List UInt8} {ring : List (List UInt8)} {sig : LSAGSignature} {message : List UInt8}
  {img : G} {c₀ : ℕ}

/-- Where the chain closes, the states along it are the recomputed challenges. -/
theorem IsGroup.recomputes (h : IsGroup lib point g) (hfirst : sig.c[0]? = some c₀)
    (hwalk : walk (query lib message (point img)) (digest lib) c₀ (ring.zip sig.s) = some c₀) :
    Recomputes lib point g ring sig message img fun i =>
      (challenge lib message (point img) ring sig.s c₀ i).getD 0 where
  first := hfirst
  next := by
    intro i member s hmember hs
    obtain ⟨c, hc⟩ := walk_take hwalk i
    obtain ⟨c', hc'⟩ := walk_take hwalk (i + 1)
    have hi : (ring.zip sig.s)[i]? = some (member, s) :=
      List.getElem?_zip_eq_some.mpr ⟨hmember, hs⟩
    obtain ⟨q, hq, rfl⟩ := walk_take_succ hi hc hc'
    obtain ⟨P, H, -, hpk, hH, -, -, rfl⟩ := h.query_eq_some.mp hq
    refine ⟨P, H, hpk, hH, ?_⟩
    simp only [challenge, hc, hc', Option.getD_some, hashRing]
  last := by
    have hall : (ring.zip sig.s).take ring.length = ring.zip sig.s :=
      List.take_of_length_le (by simp)
    simp only [challenge, hall, hwalk, List.take_zero, walk_nil, Option.getD_some]

theorem closes_iff (sig : LSAGSignature) {img : Point}
    (himg : lib.decompressPubkey sig.keyImage = some img) (hfirst : sig.c[0]? = some c₀) :
    Closes lib ring sig message ↔
      walk (query lib message img) (digest lib) c₀ (ring.zip sig.s) = some c₀ := by
  constructor
  · rintro ⟨img', c, himg', hc, hwalk⟩
    obtain rfl := Option.some.inj (himg.symm.trans himg')
    obtain rfl := Option.some.inj (hfirst.symm.trans hc)
    exact hwalk
  · exact fun hwalk => ⟨img, c₀, himg, hfirst, hwalk⟩

/-- A changed response makes another digest at its member, and so at every later one. -/
theorem IsGroup.responsesBound (h : IsGroup lib point g) (hn : 2 ≤ n)
    (hspells : Spells lib n input ring sig message)
    (himg : lib.decompressPubkey sig.keyImage = some (point img))
    (hfirst : sig.c[0]? = some c₀)
    (hwalk : walk (query lib message (point img)) (digest lib) c₀ (ring.zip sig.s) = some c₀) :
    ResponsesBound lib n ring sig message (point img) c₀ := by
  intro i s' hi hs' hother hfree
  have hring : i < ring.length := lt_of_lt_of_eq hi hspells.ring_length.symm
  have hresponse : i < sig.s.length := lt_of_lt_of_eq hi hspells.admissible.s_length.symm
  have hmember := List.getElem?_eq_getElem hring
  have hs := List.getElem?_eq_getElem hresponse
  have hne : sig.s[i] ≠ s' := by
    rintro rfl
    exact hother hs
  have hset : ring.zip (sig.withResponse i s').s = (ring.zip sig.s).set i (_, s') :=
    zip_set hmember
  have hno : ¬ Closes lib ring (sig.withResponse i s') message := by
    rw [closes_iff (sig.withResponse i s') himg hfirst, hset]
    intro hwalk'
    rw [CollisionFree, hashed, hashed, hset] at hfree
    exact walk_set_ne (fun a _ _ => h.differ_challenge message img a)
      (List.getElem?_zip_eq_some.mpr ⟨hmember, hs⟩)
      (h.differ_response message img _ hne) hfree hwalk hwalk' rfl
  rw [verify_spelled hn (hspells.withResponse h.order_fits i hs'), if_neg hno]

/-- Another first challenge makes another challenge at every member. -/
theorem IsGroup.firstChallengeBound (h : IsGroup lib point g) (hn : 2 ≤ n)
    (hspells : Spells lib n input ring sig message)
    (himg : lib.decompressPubkey sig.keyImage = some (point img))
    (hwalk : walk (query lib message (point img)) (digest lib) c₀ (ring.zip sig.s) = some c₀) :
    FirstChallengeBound lib n ring sig message (point img) fun i =>
      (challenge lib message (point img) ring sig.s c₀ i).getD 0 := by
  intro c' hc' hother
  refine ⟨fun hfree i hi d hd => ?_, ?_⟩
  · obtain ⟨c, hc⟩ := walk_take hwalk i
    have hparts : Set.InjOn (digest lib) {q | q ∈
        queries (query lib message (point img)) (digest lib) c' ((ring.zip sig.s).take i) ++
        queries (query lib message (point img)) (digest lib) c₀ ((ring.zip sig.s).take i)} := by
      refine hfree.mono fun q hq => ?_
      have hpart (c : ℕ) : queries (query lib message (point img)) (digest lib) c
          ((ring.zip sig.s).take i) ⊆ hashed lib message (point img) ring sig.s c := by
        rw [hashed]
        conv_rhs => rw [← List.take_append_drop i (ring.zip sig.s)]
        exact queries_subset_append _ _
      rcases List.mem_append.mp hq with hq | hq
      · exact List.mem_append_right _ (hpart c' hq)
      · exact List.mem_append_left _ (hpart c₀ hq)
    simp only [challenge, hc, Option.getD_some]
    exact walk_ne_of_ne (fun a _ _ => h.differ_challenge message img a) hother hparts hd hc
  · have hpos : 0 < sig.c.length := by
      rw [hspells.admissible.c_length]
      omega
    have hnew : (sig.withChallenge 0 c').c[0]? = some c' := List.getElem?_set_self hpos
    have hall : (ring.zip sig.s).take n = ring.zip sig.s :=
      List.take_of_length_le (by simp [hspells.ring_length])
    rw [verify_spelled_iff hn (hspells.withChallenge h.order_fits 0 hc'),
      closes_iff (sig.withChallenge 0 c') himg hnew, challenge, hall]
    rfl

theorem IsGroup.otherChallengesUnread (h : IsGroup lib point g) (hn : 2 ≤ n)
    (hspells : Spells lib n input ring sig message) (hcloses : Closes lib ring sig message) :
    OtherChallengesUnread lib n ring sig message := by
  intro i c' hi hc'
  have hsame : Closes lib ring (sig.withChallenge i c') message := by
    obtain ⟨img, c, himg, hfirst, hwalk⟩ := hcloses
    refine ⟨img, c, himg, ?_, hwalk⟩
    rw [LSAGSignature.withChallenge, List.getElem?_set_ne hi.ne', hfirst]
  exact (verify_spelled_iff hn (hspells.withChallenge h.order_fits i hc')).mpr hsame

end Main

/-! ## The residues as a library -/

/-- The order of `secp256k1`. -/
def secp256k1Order : ℕ :=
  115792089237316195423570985008687907852837564279074904382605163141518161494337

open Support.Primality in
/-- A certificate that the order is prime. -/
def orderCertificate : List Entry :=
  [⟨secp256k1Order, 7, [(2, 6), (3, 1), (149, 1), (631, 1), (107361793816595537, 1),
      (174723607534414371449, 1), (341948486974166000522343609283189, 1)]⟩,
    ⟨341948486974166000522343609283189, 2,
      [(29047611873442575647497758179, 1), (109, 1), (3, 3), (2, 2)]⟩,
    ⟨29047611873442575647497758179, 2,
      [(305873, 1), (545358713, 1), (297159362677, 1), (293, 1), (2, 1)]⟩,
    ⟨174723607534414371449, 3, [(4051, 1), (120233, 1), (44706919, 1), (59, 1), (17, 1), (2, 3)]⟩,
    ⟨107361793816595537, 3, [(16699, 1), (85831, 1), (4681609, 1), (2, 4)]⟩,
    ⟨297159362677, 2, [(1627771, 1), (461, 1), (11, 1), (3, 2), (2, 2)]⟩,
    ⟨545358713, 5, [(28181, 1), (59, 1), (41, 1), (2, 3)]⟩,
    ⟨44706919, 6, [(9349, 1), (797, 1), (3, 1), (2, 1)]⟩,
    ⟨4681609, 23, [(2011, 1), (97, 1), (3, 1), (2, 3)]⟩,
    ⟨1627771, 3, [(1871, 1), (29, 1), (5, 1), (3, 1), (2, 1)]⟩,
    ⟨305873, 3, [(2731, 1), (7, 1), (2, 4)]⟩,
    ⟨120233, 3, [(113, 1), (19, 1), (7, 1), (2, 3)]⟩,
    ⟨85831, 3, [(2861, 1), (5, 1), (3, 1), (2, 1)]⟩,
    ⟨28181, 2, [(1409, 1), (5, 1), (2, 2)]⟩,
    ⟨16699, 3, [(23, 1), (11, 2), (3, 1), (2, 1)]⟩]

theorem secp256k1Order_prime : secp256k1Order.Prime := by
  have hcertified : Primality.certified orderCertificate = true := by decide +kernel
  exact Primality.prime_of_certified hcertified _ List.mem_cons_self

/-- A residue as a point. -/
def residue (k : ZMod secp256k1Order) : Point := ⟨k.val, 0⟩

/-- The multiple of a residue. -/
def residueMult (p : Point) (k : List UInt8) : Option Point :=
  if 0 < bytesToNat k ∧ bytesToNat k < secp256k1Order then
    some ⟨bytesToNat k * p.x % secp256k1Order, 0⟩
  else none

/-- A library over the residues modulo the order of `secp256k1`.  Its digest is the successor of
the first coordinate that is hashed. -/
def residues : Library where
  order := secp256k1Order
  decompressPubkey b :=
    let x := bytesToNat (b.drop 1)
    if b.head? = some 0x02 ∧ 0 < x ∧ x < secp256k1Order then some ⟨x, 0⟩ else none
  scalarBaseMult k := residueMult ⟨1, 0⟩ k
  scalarMult p k := residueMult p k
  add p q := ⟨(p.x + q.x) % secp256k1Order, 0⟩
  hashToG1 b := ⟨bytesToNat b % secp256k1Order, 0⟩
  sha256 input := natToBytes 32 (bytesToNat ((input.drop (input.length - 128)).take 32) + 1)

instance : Fact secp256k1Order.Prime := ⟨secp256k1Order_prime⟩

theorem residueMult_residue (k : List UInt8) (P : ZMod secp256k1Order) :
    residueMult (residue P) k = multiple secp256k1Order residue k P := by
  rw [residueMult, multiple]
  by_cases hk : 0 < bytesToNat k ∧ bytesToNat k < secp256k1Order
  · rw [if_pos hk, if_pos hk, residue, residue, nsmul_eq_mul, ZMod.val_mul,
      ZMod.val_natCast_of_lt hk.2]
  · rw [if_neg hk, if_neg hk]

theorem residue_natCast (k : ℕ) : residue k = ⟨k % secp256k1Order, 0⟩ := by
  rw [residue, ZMod.val_natCast]

/-- The residues are a group of the order of `secp256k1`. -/
theorem residues_isGroup : IsGroup residues residue 1 where
  prime := secp256k1Order_prime
  card := Nat.card_zmod secp256k1Order
  generator := one_ne_zero
  injective P Q h := ZMod.val_injective _ (Point.mk.inj h).1
  fits P := ⟨lt_trans (ZMod.val_lt P) (by decide), Nat.pow_pos (by decide)⟩
  order_fits := by decide
  scalarBaseMult k := by
    have hone : (⟨1, 0⟩ : Point) = residue 1 := by
      rw [residue, ZMod.val_one]
    exact (congrArg (residueMult · k) hone).trans (residueMult_residue k 1)
  scalarMult P k := residueMult_residue k P
  add P Q := by
    rw [residue, residue, residue, ZMod.val_add]
    rfl
  decompressPubkey b p h := by
    simp only [residues] at h
    by_cases hx : b.head? = some 0x02 ∧ 0 < bytesToNat (b.drop 1) ∧
        bytesToNat (b.drop 1) < secp256k1Order
    · rw [if_pos hx, Option.some.injEq] at h
      refine ⟨(bytesToNat (b.drop 1) : ℕ), ?_, ?_⟩
      · rw [Ne, ZMod.natCast_eq_zero_iff]
        exact Nat.not_dvd_of_pos_of_lt hx.2.1 hx.2.2
      · rw [residue_natCast, Nat.mod_eq_of_lt hx.2.2, h]
    · rw [if_neg hx] at h
      cases h
  hashToG1 b := ⟨(bytesToNat b : ℕ), (residue_natCast _).symm⟩

/-- The public key of a residue. -/
def residueKey (x : ℕ) : List UInt8 := 0x02 :: natToBytes 32 x

/-- A ring of two members. -/
def residueRing : List (List UInt8) :=
  [residueKey 2, residueKey ((secp256k1Order + 1) / 2)]

/-- A signature of the message `m` for it. -/
def residueSignature : LSAGSignature where
  keyImage := residueKey 3
  c := [5, 12]
  s := [1, secp256k1Order - 2]

theorem residueSignature_spells :
    Spells residues 2 (encode residueRing residueSignature [0x6d]) residueRing residueSignature
      [0x6d] where
  input_eq := rfl
  ring_length := rfl
  members := by decide
  admissible :=
    { keyImage := by decide
      c_length := rfl
      s_length := rfl
      c_range := by decide
      s_range := by decide }
  fits := by decide

theorem residueSignature_accepted :
    verify residues schemeLSAGSecp256k1 2 (encode residueRing residueSignature [0x6d]) =
      .ok [0x01] := by decide +kernel

/-! ## What is bound -/

/-- Verification never panics.  What it accepts is the encoding of a signature with its scalars
in range.  The challenges recomputed along its ring come back to the first one.  A changed
response is rejected, a changed first challenge changes all that are recomputed, and the
others are not read. -/
theorem signature_bound (lib : Library) (scheme : UInt8) (n : ℕ) (input : List UInt8) :
    verify lib scheme n input ≠ .error .panic ∧
      (verify lib scheme n input = .ok [0x01] →
        ∃ ring sig message, Spells lib n input ring sig message) ∧
      ∀ {G : Type} [AddCommGroup G] {point : G → Point} {g : G}, IsGroup lib point g →
        ∀ ring sig message, Spells lib n input ring sig message →
          verify lib scheme n input = .ok [0x01] →
            ∃ img cs, lib.decompressPubkey sig.keyImage = some (point img) ∧
              Recomputes lib point g ring sig message img cs ∧
              ResponsesBound lib n ring sig message (point img) (cs 0) ∧
              FirstChallengeBound lib n ring sig message (point img) cs ∧
              OtherChallengesUnread lib n ring sig message := by
  refine ⟨verify_ne_panic lib scheme n input, fun haccepted => ?_, ?_⟩
  · obtain ⟨-, -, ring, sig, message, hspells, -⟩ := verify_accepts haccepted
    exact ⟨ring, sig, message, hspells⟩
  · intro G _ point g h ring sig message hspells haccepted
    obtain ⟨rfl, hn, -⟩ := verify_accepts haccepted
    have hcloses := (verify_spelled_iff hn hspells).mp haccepted
    obtain ⟨_, c₀, himg, hfirst, hwalk⟩ := id hcloses
    obtain ⟨img, -, rfl⟩ := h.decompressPubkey _ _ himg
    exact ⟨img, _, himg, h.recomputes hfirst hwalk,
      h.responsesBound hn hspells himg hfirst hwalk,
      h.firstChallengeBound hn hspells himg hwalk,
      h.otherChallengesUnread hn hspells hcloses⟩

/-- The signature is rejected with another response. -/
theorem signature_bound_residues :
    verify residues schemeLSAGSecp256k1 2
      (encode residueRing (residueSignature.withResponse 0 2) [0x6d]) = .ok [0x00] := by
  obtain ⟨img, cs, himg, hrecomputes, hresponses, -⟩ :=
    (signature_bound residues schemeLSAGSecp256k1 2 _).2.2 residues_isGroup _ _ _
      residueSignature_spells residueSignature_accepted
  have hfirst : cs 0 = 5 := (Option.some.inj hrecomputes.first).symm
  have hkey : residue img = ⟨3, 0⟩ := by
    have hdecompress : residues.decompressPubkey residueSignature.keyImage = some ⟨3, 0⟩ := by
      decide
    exact Option.some.inj (himg.symm.trans hdecompress)
  refine hresponses 0 2 (by decide) (by decide) (by decide) ?_
  rw [hfirst, hkey]
  decide +kernel

/-- A challenge after the first is accepted although it is not the one that is recomputed, and so
is another first challenge whose ring closes too. -/
theorem challenges_not_bound :
    IsGroup residues residue 1 ∧
      Spells residues 2 (encode residueRing residueSignature [0x6d]) residueRing residueSignature
        [0x6d] ∧
      verify residues schemeLSAGSecp256k1 2 (encode residueRing residueSignature [0x6d]) =
        .ok [0x01] ∧
      CollisionFree residues (hashed residues [0x6d] (residue 3) residueRing residueSignature.s 5 ++
        hashed residues [0x6d] (residue 3) residueRing residueSignature.s 6) ∧
      verify residues schemeLSAGSecp256k1 2
        (encode residueRing (residueSignature.withChallenge 0 6) [0x6d]) = .ok [0x01] ∧
      verify residues schemeLSAGSecp256k1 2
        (encode residueRing (residueSignature.withChallenge 1 1) [0x6d]) = .ok [0x01] ∧
      ∃ cs, Recomputes residues residue 1 residueRing (residueSignature.withChallenge 1 1) [0x6d] 3
        cs ∧ (residueSignature.withChallenge 1 1).c[1]? ≠ some (cs 1) := by
  have hkey : residue 3 = ⟨3, 0⟩ := residue_natCast 3
  have hwalk : walk (query residues [0x6d] (residue 3)) (digest residues) 5
      (residueRing.zip residueSignature.s) = some 5 := by
    rw [hkey]
    decide +kernel
  refine ⟨residues_isGroup, residueSignature_spells, residueSignature_accepted, ?_,
    by decide +kernel, by decide +kernel, _, residues_isGroup.recomputes rfl hwalk, ?_⟩
  · rw [hkey]
    decide +kernel
  · rw [hkey]
    decide +kernel

end LuxPrecompile.Ring
