import LuxPrecompile.Evm.Bytes
import LuxPrecompile.Support.HashTrees

/-!
# Hash trees of words

Trees whose values are 32-byte words and whose parents are the hash of the 64 bytes of two
neighbours.  Such a tree is free of collisions where the hash is, since 64 bytes split into two
words in one way.
-/

namespace LuxPrecompile.Evm

open HashTrees

/-- The preimage of a parent. -/
def pairBytes (p : Word × Word) : List UInt8 := hashBytes p.1 ++ hashBytes p.2

/-- A parent under a hash. -/
def wordNode (hash : List UInt8 → Word) (a b : Word) : Word := hash (pairBytes (a, b))

@[simp]
theorem pairBytes_length (p : Word × Word) : (pairBytes p).length = 64 := by
  rw [pairBytes, List.length_append, hashBytes_length, hashBytes_length]

theorem pairBytes_inj {p q : Word × Word} (h : pairBytes p = pairBytes q) : p = q := by
  obtain ⟨hleft, hright⟩ := List.append_inj h (by rw [hashBytes_length, hashBytes_length])
  exact Prod.ext (hashBytes_inj hleft) (hashBytes_inj hright)

/-- The 64-byte strings hashed for a list of pairs. -/
def pairPreimages (pairs : List (Word × Word)) : List (List UInt8) := pairs.map pairBytes

theorem collisionFree_wordNode {hash : List UInt8 → Word} {pairs : List (Word × Word)}
    {preimages : Set (List UInt8)} (h : Set.InjOn hash preimages)
    (hsub : ∀ bs ∈ pairPreimages pairs, bs ∈ preimages) :
    CollisionFree (wordNode hash) pairs := by
  intro p hp q hq heq
  apply pairBytes_inj
  exact h (hsub _ (List.mem_map_of_mem hp)) (hsub _ (List.mem_map_of_mem hq)) heq

end LuxPrecompile.Evm
