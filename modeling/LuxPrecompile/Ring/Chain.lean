import LuxPrecompile.Ring.Contract
import LuxPrecompile.Support.HashChains

/-!
# The ring as a chain of hashes

The loop of the verification goes along the ring as a chain of hashes does.  It does not
panic, and it accepts exactly where the chain from the first challenge of the signature comes
back to it.
-/

namespace LuxPrecompile.Ring

open Evm Support Support.Checked Support.HashChains

variable (lib : Library)

/-- What is hashed at a member of the ring, if the library has every point it takes. -/
def query (message : List UInt8) (img : Point) (member : List UInt8 × ℕ) (c : ℕ) :
    Option (List UInt8) := do
  let pk ← lib.decompressPubkey member.1
  let sG ← lib.scalarBaseMult (bigBytes member.2)
  let cP ← lib.scalarMult pk (bigBytes c)
  let sH ← lib.scalarMult (hashToPoint lib member.1) (bigBytes member.2)
  let cI ← lib.scalarMult img (bigBytes c)
  some (ringInput message (lib.add sG cP) (lib.add sH cI))

/-- The challenge that is recomputed after `i` members. -/
def challenge (message : List UInt8) (img : Point) (ring : List (List UInt8)) (s : List ℕ)
    (c : ℕ) (i : ℕ) : Option ℕ :=
  walk (query lib message img) (digest lib) c ((ring.zip s).take i)

/-- The strings that are hashed along the ring. -/
def hashed (message : List UInt8) (img : Point) (ring : List (List UInt8)) (s : List ℕ)
    (c : ℕ) : List (List UInt8) :=
  queries (query lib message img) (digest lib) c (ring.zip s)

/-- The challenges recomputed from the first one come back to it. -/
def Closes (ring : List (List UInt8)) (sig : LSAGSignature) (message : List UInt8) : Prop :=
  ∃ img c, lib.decompressPubkey sig.keyImage = some img ∧ sig.c[0]? = some c ∧
    walk (query lib message img) (digest lib) c (ring.zip sig.s) = some c

variable {lib}

/-! ## The loop -/

/-- One pass of the loop: it stops where there is no query, and otherwise hashes it. -/
theorem lsagLoop_succ {ring : List (List UInt8)} {sig : LSAGSignature} {message : List UInt8}
    {img : Point} {m i c : ℕ} {member : List UInt8} {s : ℕ} (hmember : ring[i]? = some member)
    (hs : sig.s[i]? = some s) :
    lsagLoop lib ring (batchHashToPoint lib ring) sig message img (m + 1) i c =
      match query lib message img (member, s) c with
      | none => .ok false
      | some q =>
          if i = ring.length - 1 then
            item sig.c 0 >>= fun c => .ok (decide (digest lib q = c))
          else lsagLoop lib ring (batchHashToPoint lib ring) sig message img m (i + 1)
            (digest lib q) := by
  have hhp : (batchHashToPoint lib ring)[i]? = some (hashToPoint lib member) := by
    rw [batchHashToPoint, List.getElem?_map, hmember]
    rfl
  rw [lsagLoop, item_of_getElem hmember, ok_bind]
  rcases hpk : lib.decompressPubkey member with _ | pk
  · simp [query, hpk]
  dsimp only
  rw [item_of_getElem hs, ok_bind, item_of_getElem hhp, ok_bind]
  rcases hsG : lib.scalarBaseMult (bigBytes s) with _ | sG
  · simp [query, hpk, hsG]
  rcases hcP : lib.scalarMult pk (bigBytes c) with _ | cP
  · simp [query, hpk, hsG, hcP]
  rcases hsH : lib.scalarMult (hashToPoint lib member) (bigBytes s) with _ | sH
  · simp [query, hpk, hsG, hsH]
  rcases hcI : lib.scalarMult img (bigBytes c) with _ | cI
  · simp [query, hpk, hsG, hsH, hcI]
  -- no point is nil, so the additions do not panic
  have hquery : query lib message img (member, s) c =
      some (ringInput message (lib.add sG cP) (lib.add sH cI)) := by
    simp [query, hpk, hsG, hcP, hsH, hcI]
  rw [if_neg (by simp), hquery]
  rfl

/-- The loop tells whether the chain along the members that are left comes back. -/
theorem lsagLoop_eq {ring : List (List UInt8)} {sig : LSAGSignature} {message : List UInt8}
    {img : Point} {c₀ : ℕ} (hc : sig.c[0]? = some c₀) (hs : sig.s.length = ring.length) :
    ∀ {m i c : ℕ}, i + (m + 1) = ring.length →
      lsagLoop lib ring (batchHashToPoint lib ring) sig message img (m + 1) i c =
        .ok (decide (walk (query lib message img) (digest lib) c ((ring.zip sig.s).drop i) =
          some c₀)) := by
  intro m
  induction m with
  | zero =>
      intro i c hi
      have hring : i < ring.length := by omega
      have hresponse : i < sig.s.length := by omega
      have hlast : (ring.zip sig.s).drop i = [(ring[i], sig.s[i])] := by
        rw [List.drop_eq_getElem_cons (by simp; omega), List.getElem_zip,
          List.drop_eq_nil_of_le (by simp; omega)]
      rw [lsagLoop_succ (List.getElem?_eq_getElem hring) (List.getElem?_eq_getElem hresponse),
        hlast, walk]
      rcases query lib message img (ring[i], sig.s[i]) c with _ | q
      · simp
      · dsimp only
        rw [if_pos (by omega), item_of_getElem hc, ok_bind]
        simp only [walk_nil, Option.some.injEq]
  | succ m ih =>
      intro i c hi
      have hring : i < ring.length := by omega
      have hresponse : i < sig.s.length := by omega
      have hnext : (ring.zip sig.s).drop i =
          (ring[i], sig.s[i]) :: (ring.zip sig.s).drop (i + 1) := by
        rw [List.drop_eq_getElem_cons (by simp; omega), List.getElem_zip]
      rw [lsagLoop_succ (List.getElem?_eq_getElem hring) (List.getElem?_eq_getElem hresponse),
        hnext, walk]
      rcases query lib message img (ring[i], sig.s[i]) c with _ | q
      · simp
      · dsimp only
        rw [if_neg (by omega), ih (by omega)]

open Classical in
/-- The verification tells whether the ring closes. -/
theorem lsagVerify_eq {ring : List (List UInt8)} {sig : LSAGSignature} (message : List UInt8)
    (hring : ring ≠ []) (hc : sig.c.length = ring.length) (hs : sig.s.length = ring.length) :
    lsagVerify lib ring sig message = .ok (decide (Closes lib ring sig message)) := by
  have hpos : 0 < ring.length := List.length_pos_of_ne_nil hring
  have hchallenges : 0 < sig.c.length := lt_of_lt_of_eq hpos hc.symm
  have hfirst : sig.c[0]? = some sig.c[0] := List.getElem?_eq_getElem hchallenges
  rw [lsagVerify]
  rcases himg : lib.decompressPubkey sig.keyImage with _ | img
  · have hno : ¬ Closes lib ring sig message := by
      rintro ⟨img, c, h, -⟩
      rw [himg] at h
      cases h
    rw [decide_eq_false hno]
  · dsimp only
    obtain ⟨m, hm⟩ : ∃ m, ring.length = m + 1 := ⟨ring.length - 1, by omega⟩
    rw [item_of_getElem hfirst, ok_bind, hm, lsagLoop_eq hfirst hs (by omega), List.drop_zero]
    congr 2
    rw [eq_iff_iff]
    constructor
    · exact fun h => ⟨img, _, himg, hfirst, h⟩
    · rintro ⟨img', c, h, hc', hwalk⟩
      obtain rfl := Option.some.inj (himg.symm.trans h)
      obtain rfl := Option.some.inj (hfirst.symm.trans hc')
      exact hwalk

end LuxPrecompile.Ring
