import LuxPrecompile.Evm.Word
import LuxPrecompile.Support.Sums

/-!
# Balances

All balances the host keeps, by asset and owner; the native coin is asset zero.
A transfer of the host moves exactly the requested amount or nothing.

The balances of an asset add up to its supply.  While the supply is a 256-bit number no
balance can overflow, and moving an amount that is there conserves it.
-/

namespace LuxPrecompile.Evm

/-- The native coin as an asset. -/
def native : Address := 0

/-- Balances by asset and owner. -/
abbrev Bank := Address → Address → ℕ

namespace Bank

def set (b : Bank) (asset owner : Address) (v : ℕ) : Bank :=
  Function.update b asset (Function.update (b asset) owner v)

/-- A `SubBalance`/`AddBalance` pair on 256-bit balances; the debit is guarded
by the caller. -/
def move (b : Bank) (asset sender recipient : Address) (amount : ℕ) : Bank :=
  let debited := b.set asset sender (b asset sender - amount)
  debited.set asset recipient ((debited asset recipient + amount) % 2 ^ 256)

/-- There is room for the amount at the recipient. -/
def fits (b : Bank) (asset sender recipient : Address) (amount : ℕ) : Prop :=
  sender = recipient ∨ b asset recipient + amount < 2 ^ 256

instance (b : Bank) (asset sender recipient : Address) (amount : ℕ) :
    Decidable (b.fits asset sender recipient amount) :=
  inferInstanceAs (Decidable (_ ∨ _))

/-- A transfer of an existing amount. -/
def transfer (b : Bank) (asset sender recipient : Address) (amount : ℕ) : Option Bank :=
  if amount ≤ b asset sender ∧ b.fits asset sender recipient amount then
    some (b.move asset sender recipient amount)
  else none

/-- Every balance is a 256-bit number. -/
def Bounded (b : Bank) : Prop := ∀ asset owner, b asset owner < 2 ^ 256

theorem set_apply (b : Bank) (asset owner : Address) (v : ℕ) (a o : Address) :
    b.set asset owner v a o = if a = asset ∧ o = owner then v else b a o := by
  unfold set
  by_cases ha : a = asset
  · subst ha
    by_cases ho : o = owner
    · subst ho
      simp
    · simp [ho]
  · simp [ha]

@[simp]
theorem set_self (b : Bank) (asset owner : Address) (v : ℕ) :
    b.set asset owner v asset owner = v := by
  rw [set_apply, if_pos ⟨rfl, rfl⟩]

theorem Bounded.set {b : Bank} (h : b.Bounded) {asset owner : Address} {v : ℕ}
    (hv : v < 2 ^ 256) : (b.set asset owner v).Bounded := by
  intro a o
  rw [set_apply]
  split_ifs
  · exact hv
  · exact h a o

theorem Bounded.move {b : Bank} (h : b.Bounded) (asset sender recipient : Address)
    (amount : ℕ) : (b.move asset sender recipient amount).Bounded := by
  apply Bounded.set
  · apply h.set
    have := h asset sender
    omega
  · exact Nat.mod_lt _ (by norm_num)

theorem move_of_ne (b : Bank) {asset sender recipient a o : Address} (amount : ℕ)
    (h : a = asset → o ≠ sender ∧ o ≠ recipient) :
    b.move asset sender recipient amount a o = b a o := by
  unfold move
  rw [set_apply, if_neg (fun hc => (h hc.1).2 hc.2), set_apply,
    if_neg (fun hc => (h hc.1).1 hc.2)]

theorem move_sender {b : Bank} (hb : b.Bounded) {asset sender recipient : Address}
    {amount : ℕ} (hle : amount ≤ b asset sender) :
    b.move asset sender recipient amount asset sender =
      if sender = recipient then b asset sender else b asset sender - amount := by
  unfold move
  by_cases hself : sender = recipient
  · subst hself
    rw [set_self, set_self, if_pos rfl, Nat.sub_add_cancel hle,
      Nat.mod_eq_of_lt (hb asset sender)]
  · rw [set_apply, if_neg (fun hc => hself hc.2), set_self, if_neg hself]

theorem move_recipient {b : Bank} {asset sender recipient : Address} {amount : ℕ}
    (hne : sender ≠ recipient) (hfits : b.fits asset sender recipient amount) :
    b.move asset sender recipient amount asset recipient = b asset recipient + amount := by
  have hroom : b asset recipient + amount < 2 ^ 256 := hfits.resolve_left hne
  unfold move
  rw [set_self, set_apply, if_neg (fun hc => hne hc.2.symm), Nat.mod_eq_of_lt hroom]

theorem transfer_eq_some {b b' : Bank} {asset sender recipient : Address} {amount : ℕ}
    (h : b.transfer asset sender recipient amount = some b') :
    amount ≤ b asset sender ∧ b.fits asset sender recipient amount ∧
      b' = b.move asset sender recipient amount := by
  unfold transfer at h
  split_ifs at h with hc
  exact ⟨hc.1, hc.2, by simpa using h.symm⟩

theorem le_of_transfer {b b' : Bank} {asset sender recipient : Address} {amount : ℕ}
    (h : b.transfer asset sender recipient amount = some b') {a o : Address}
    (ho : o ≠ sender) : b a o ≤ b' a o := by
  obtain ⟨-, hfits, rfl⟩ := transfer_eq_some h
  by_cases hr : a = asset ∧ o = recipient
  · obtain ⟨rfl, rfl⟩ := hr
    rw [move_recipient ho.symm hfits]
    exact Nat.le_add_right _ _
  · rw [move_of_ne]
    exact fun ha => ⟨ho, fun hc => hr ⟨ha, hc⟩⟩

/-! ## Total supply -/

open Support

/-- What all accounts own of an asset. -/
def supply (b : Bank) (asset : Address) : ℕ := ∑ owner : Address, b asset owner

theorem le_supply (b : Bank) (asset owner : Address) : b asset owner ≤ b.supply asset :=
  le_sum (b asset) owner

theorem set_supply (b : Bank) (asset owner : Address) (v : ℕ) :
    (b.set asset owner v).supply asset + b asset owner = b.supply asset + v := by
  have hsum := sum_add_of_eq_off (f := b asset) (g := b.set asset owner v asset) owner
    fun other hne => by rw [set_apply, if_neg (fun hc => hne hc.2)]
  rwa [set_self] at hsum

theorem supply_single (asset owner : Address) (v : ℕ) :
    (set (fun _ _ => 0) asset owner v).supply asset = v := by
  have hset := set_supply (fun _ _ => 0) asset owner v
  have hempty : supply (fun _ _ => 0) asset = 0 := by simp [supply]
  rw [hempty] at hset
  simpa using hset

theorem add_le_supply (b : Bank) {asset sender recipient : Address} (h : sender ≠ recipient) :
    b asset sender + b asset recipient ≤ b.supply asset := by
  have hset := b.set_supply asset sender 0
  have hle := (b.set asset sender 0).le_supply asset recipient
  rw [set_apply, if_neg (fun hc => h hc.2.symm)] at hle
  omega

theorem fits_of_supply {b : Bank} {asset sender : Address} (recipient : Address) {amount : ℕ}
    (hlt : b.supply asset < 2 ^ 256) (hle : amount ≤ b asset sender) :
    b.fits asset sender recipient amount := by
  by_cases h : sender = recipient
  · exact .inl h
  · have hadd : b asset sender + b asset recipient ≤ b.supply asset := b.add_le_supply h
    exact .inr (by omega)

theorem move_supply {b : Bank} {asset sender : Address} (recipient : Address) {amount : ℕ}
    (hlt : b.supply asset < 2 ^ 256) (hle : amount ≤ b asset sender) :
    (b.move asset sender recipient amount).supply asset = b.supply asset := by
  have hdebit := b.set_supply asset sender (b asset sender - amount)
  have hcredit := (b.set asset sender (b asset sender - amount)).set_supply asset recipient
    (((b.set asset sender (b asset sender - amount)) asset recipient + amount) % 2 ^ 256)
  have hrecipient := (b.set asset sender (b asset sender - amount)).le_supply asset recipient
  rw [Nat.mod_eq_of_lt (by omega)] at hcredit
  rw [move, Nat.mod_eq_of_lt (by omega)]
  omega

/-- Moving nothing changes nothing. -/
theorem move_zero {b : Bank} {asset : Address} (sender recipient : Address)
    (hlt : b.supply asset < 2 ^ 256) : b.move asset sender recipient 0 = b := by
  have hle := b.le_supply asset recipient
  funext a o
  rw [move, Nat.sub_zero, set_apply]
  have hsame : b.set asset sender (b asset sender) = b := by
    funext a o
    rw [set_apply]
    split_ifs with h
    · rw [h.1, h.2]
    · rfl
  split_ifs with h
  · rw [hsame, Nat.add_zero, Nat.mod_eq_of_lt (by omega), h.1, h.2]
  · rw [hsame]

end Bank

end LuxPrecompile.Evm
