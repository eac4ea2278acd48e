import LuxPrecompile.Dead.Effects
import LuxPrecompile.Support.Runs

/-!
# The ledger of the dead addresses

A run interleaves native transfers with calls of the precompile by anyone.  Beside the
world the ledger counts, for each dead address, what arrived there and what went through
the split.  Every arrived coin is split once, at the ratio in force, exactly as long as
the treasury's share does not land at a dead address and the product of the split is a
256-bit number.
-/

namespace LuxPrecompile.Dead

open Evm Support

/-! ## Runs -/

/-- One call of the precompile with the value it carries. -/
structure Call where
  caller : Address
  addr : DeadAddress
  value : ℕ
  input : List UInt8
  gas : ℕ
  readOnly : Bool

/-- A native transfer that does not run the precompile, or a call. -/
inductive Action
  | transfer (sender recipient : Address) (amount : ℕ)
  | call (c : Call)

/-- A native transfer.  Nobody signs for a dead address. -/
def deliver (w : World) (sender recipient : Address) (amount : ℕ) : Option World :=
  if isDeadAddress sender then none
  else (w.bank.transfer native sender recipient amount).map fun bank => { w with bank := bank }

/-- The world a call runs in: its value has arrived.  A read-only call carries none. -/
def delivered (w : World) (c : Call) : Option World :=
  if c.readOnly ∧ c.value ≠ 0 then none else deliver w c.caller c.addr.address c.value

/-- The world after a call that succeeds; a failed call leaves nothing behind. -/
def perform (w : World) (c : Call) : Option World :=
  match delivered w c with
  | none => none
  | some w =>
      match run w c.caller c.addr c.input c.gas c.readOnly with
      | (w, .ok _) => some w
      | (_, .error _) => none

def Call.splits (c : Call) (w : World) : Prop := Splits w c.addr c.input c.gas c.readOnly

instance (c : Call) (w : World) : Decidable (c.splits w) :=
  inferInstanceAs (Decidable (_ ∧ _ ∧ _ ∧ _ ∧ _))

/-- The world with what arrived at each dead address and what was split there. -/
structure Ledger where
  world : World
  arrived : DeadAddress → ℕ
  split : DeadAddress → ℕ

/-- An amount that arrives at an account. -/
def arrive (arrived : DeadAddress → ℕ) (recipient : Address) (amount : ℕ) : DeadAddress → ℕ :=
  fun a => arrived a + if a.address = recipient then amount else 0

def record (s : Ledger) : Action → Ledger
  | .transfer sender recipient amount =>
      match deliver s.world sender recipient amount with
      | none => s
      | some w => ⟨w, arrive s.arrived recipient amount, s.split⟩
  | .call c =>
      match delivered s.world c, perform s.world c with
      | some w, some w' =>
          { world := w'
            arrived := arrive s.arrived c.addr.address c.value
            split :=
              if c.splits w then Function.update s.split c.addr (s.split c.addr + fresh w c.addr)
              else s.split }
      | _, _ => s

/-- A world at the start: a supply of 256 bits, a ratio the setters accept and nothing
burned yet. -/
structure Genesis where
  world : World
  supply_lt : world.bank.supply native < 2 ^ 256
  ratio_le : getBurnRatio world.storage ≤ basisPoints
  unburned : ∀ a, getBurned world.storage a = 0

def Genesis.ledger (g : Genesis) : Ledger :=
  ⟨g.world, fun a => g.world.balance a.address, fun _ => 0⟩

/-! ## The property -/

/-- What a step must respect. -/
structure Accounted (s : Ledger) (action : Action) : Prop where
  backed : ∀ a, getBurned (record s action).world.storage a ≤
    (record s action).world.balance a.address
  grows : ∀ a, getBurned s.world.storage a ≤ getBurned (record s action).world.storage a
  once : ∀ a, (record s action).split a + fresh (record s action).world a =
    (record s action).arrived a
  ratio : ∀ c w, action = .call c → delivered s.world c = some w → c.splits w →
    getBurned (record s action).world.storage c.addr =
      getBurned w.storage c.addr + fresh w c.addr * getBurnRatio w.storage / basisPoints
  idle : ∀ c, action = .call c → isReceive c.input = true → c.readOnly = false →
    perform s.world c ≠ none → ∀ c', isReceive c'.input = true → c'.addr = c.addr →
      c'.value = 0 → (record (record s action) (.call c')).world = (record s action).world
  supply : (record s action).world.bank.supply native = s.world.bank.supply native

/-- A step whose split stays within 256 bits and sends no share to a dead address. -/
def Clean (s : Ledger) : Action → Prop
  | .transfer _ _ _ => True
  | .call c => ∀ w, delivered s.world c = some w → c.splits w →
      fresh w c.addr * getBurnRatio w.storage < 2 ^ 256 ∧
      (isDeadAddress (getTreasury w.storage) = true →
        fresh w c.addr * getBurnRatio w.storage / basisPoints = fresh w c.addr)

/-! ## The invariant -/

/-- A ledger in which every arrived coin is split or still to be split. -/
structure Balanced (s : Ledger) : Prop where
  supply_lt : s.world.bank.supply native < 2 ^ 256
  ratio_le : getBurnRatio s.world.storage ≤ basisPoints
  backed : ∀ a, getBurned s.world.storage a ≤ s.world.balance a.address
  once : ∀ a, s.split a + fresh s.world a = s.arrived a

theorem Genesis.balanced (g : Genesis) : Balanced g.ledger where
  supply_lt := g.supply_lt
  ratio_le := g.ratio_le
  backed a := by
    rw [Genesis.ledger, g.unburned]
    exact Nat.zero_le _
  once a := by
    simp only [Genesis.ledger, fresh, g.unburned]
    omega

theorem DeadAddress.address_inj {a b : DeadAddress} (h : a.address = b.address) : a = b := by
  revert h
  cases a <;> cases b <;> decide

theorem isDeadAddress_iff {x : Address} :
    isDeadAddress x = true ↔ ∃ a : DeadAddress, a.address = x := by
  constructor
  · intro h
    obtain ⟨d, -, hd⟩ := List.any_eq_true.mp h
    exact ⟨d, by simpa using hd⟩
  · rintro ⟨a, rfl⟩
    refine List.any_eq_true.mpr ⟨a, ?_, by simp⟩
    cases a <;> simp

/-- What a transfer brings to the dead addresses. -/
theorem deliver_spec {w w' : World} {sender recipient : Address} {amount : ℕ}
    (h : deliver w sender recipient amount = some w')
    (hlt : w.bank.supply native < 2 ^ 256) :
    w'.storage = w.storage ∧ w'.bank.supply native = w.bank.supply native ∧
    ∀ a : DeadAddress, w'.balance a.address =
      w.balance a.address + if a.address = recipient then amount else 0 := by
  unfold deliver at h
  split_ifs at h with hsender
  obtain ⟨bank, hbank, rfl⟩ := Option.map_eq_some_iff.mp h
  obtain ⟨hle, hfits, rfl⟩ := Bank.transfer_eq_some hbank
  refine ⟨rfl, Bank.move_supply recipient hlt hle, fun a => ?_⟩
  have hne : sender ≠ a.address := by
    rintro rfl
    exact hsender (isDeadAddress_iff.mpr ⟨a, rfl⟩)
  change w.bank.move native sender recipient amount native a.address = w.bank native a.address + _
  split_ifs with hrecipient
  · subst hrecipient
    exact Bank.move_recipient hne hfits
  · exact Bank.move_of_ne _ _ fun _ => ⟨Ne.symm hne, hrecipient⟩

/-- The ledger after an amount has arrived. -/
theorem Balanced.deliver {s : Ledger} (hs : Balanced s) {w : World} {sender recipient : Address}
    {amount : ℕ} (h : deliver s.world sender recipient amount = some w) :
    Balanced ⟨w, arrive s.arrived recipient amount, s.split⟩ := by
  obtain ⟨hstorage, hsupply, hbalance⟩ := deliver_spec h hs.supply_lt
  have hburned : getBurned w.storage = getBurned s.world.storage := by rw [hstorage]
  refine ⟨?_, ?_, fun a => ?_, fun a => ?_⟩
  · rw [hsupply]
    exact hs.supply_lt
  · rw [hstorage]
    exact hs.ratio_le
  · rw [hburned, hbalance]
    exact Nat.le_add_right_of_le (hs.backed a)
  · have honce := hs.once a
    have hbacked := hs.backed a
    simp only [fresh, arrive, hburned, hbalance] at honce ⊢
    omega

/-! ## The split in a balanced ledger -/

theorem balance_lt {w : World} (h : w.bank.supply native < 2 ^ 256) (a : Address) :
    w.balance a < 2 ^ 256 := lt_of_le_of_lt (w.bank.le_supply native a) h

theorem getBurned_split {s : Ledger} (hs : Balanced s) (a b : DeadAddress) :
    getBurned (split s.world a).storage b =
      if b = a then getBurned s.world.storage a + newBurn s.world a
      else getBurned s.world.storage b := by
  have hbalance := balance_lt hs.supply_lt a.address
  have hle : newBurn s.world a ≤ fresh s.world a := burnShare_le hs.ratio_le
  have hbacked := hs.backed a
  rw [split_storage hs.ratio_le hbacked hbalance, getBurned_setBurned]
  simp only [fresh] at hle
  omega

theorem split_supply {s : Ledger} (hs : Balanced s) (a : DeadAddress) :
    (split s.world a).bank.supply native = s.world.bank.supply native := by
  rw [split_bank hs.ratio_le (balance_lt hs.supply_lt _)]
  split_ifs
  · rfl
  · apply Bank.move_supply _ hs.supply_lt
    have hle : fresh s.world a - newBurn s.world a ≤ s.world.balance a.address := by
      simp only [fresh]
      omega
    exact hle

theorem getBurnRatio_split {s : Ledger} (hs : Balanced s) (a : DeadAddress) :
    getBurnRatio (split s.world a).storage = getBurnRatio s.world.storage := by
  rw [split_storage hs.ratio_le (hs.backed a) (balance_lt hs.supply_lt _),
    getBurnRatio_setBurned]

/-- The balances of the dead addresses after a split that pays none of them. -/
theorem split_balance {s : Ledger} (hs : Balanced s) (a b : DeadAddress)
    (hclean : isDeadAddress (getTreasury s.world.storage) = true →
      newBurn s.world a = fresh s.world a) :
    (split s.world a).balance b.address =
      if b = a then s.world.balance a.address - (fresh s.world a - newBurn s.world a)
      else s.world.balance b.address := by
  rw [World.balance, split_bank hs.ratio_le (balance_lt hs.supply_lt _)]
  by_cases hshare : fresh s.world a - newBurn s.world a = 0
  · rw [if_pos hshare, hshare, Nat.sub_zero]
    split_ifs with h
    · rw [h]
      rfl
    · rfl
  · have htreasury : ∀ d : DeadAddress, d.address ≠ getTreasury s.world.storage := by
      intro d hd
      have heq := hclean (isDeadAddress_iff.mpr ⟨d, hd⟩)
      omega
    rw [if_neg hshare]
    split_ifs with h
    · subst h
      rw [Bank.move, Bank.set_apply, if_neg (fun hc => htreasury b hc.2), Bank.set_self]
      rfl
    · exact Bank.move_of_ne _ _ fun _ =>
        ⟨fun hc => h (DeadAddress.address_inj hc), htreasury b⟩

/-- A clean split keeps the ledger balanced. -/
theorem Balanced.split {s : Ledger} (hs : Balanced s) (a : DeadAddress)
    (hclean : isDeadAddress (getTreasury s.world.storage) = true →
      newBurn s.world a = fresh s.world a) :
    Balanced ⟨split s.world a, s.arrived,
      Function.update s.split a (s.split a + fresh s.world a)⟩ := by
  have hle : newBurn s.world a ≤ fresh s.world a := burnShare_le hs.ratio_le
  refine ⟨?_, ?_, fun b => ?_, fun b => ?_⟩
  · rw [split_supply hs]
    exact hs.supply_lt
  · rw [getBurnRatio_split hs]
    exact hs.ratio_le
  · have hbacked := hs.backed b
    rw [getBurned_split hs, split_balance hs a b hclean]
    split_ifs with h
    · subst h
      simp only [fresh] at hle ⊢
      omega
    · exact hbacked
  · have honce := hs.once b
    have hbacked := hs.backed b
    simp only [fresh, getBurned_split hs, split_balance hs a b hclean]
    by_cases h : b = a
    · subst h
      simp only [if_pos, Function.update_self]
      simp only [fresh] at hle honce ⊢
      omega
    · simp only [if_neg h, Function.update_of_ne h]
      exact honce

/-! ## One step -/

theorem deliver_of_delivered {w w' : World} {c : Call} (h : delivered w c = some w') :
    deliver w c.caller c.addr.address c.value = some w' := by
  unfold delivered at h
  split_ifs at h
  exact h

/-- A call fails, changes configuration words at most, or splits. -/
inductive CallEffect (s : Ledger) (c : Call) : Ledger → Prop
  | failed (hnone : perform s.world c = none)
      (hnot : ∀ w, delivered s.world c = some w → ¬ c.splits w) : CallEffect s c s
  | idle (w : World) (st : Storage) (hw : delivered s.world c = some w) (hnot : ¬ c.splits w)
      (hst : Configured w.storage st)
      (hreceipt : isReceive c.input = true → st = w.storage ∧
        (c.readOnly = false → w.balance c.addr.address ≤ getBurned w.storage c.addr)) :
      CallEffect s c ⟨{ w with storage := st }, arrive s.arrived c.addr.address c.value, s.split⟩
  | split (w : World) (hw : delivered s.world c = some w) (hsplits : c.splits w) :
      CallEffect s c ⟨split w c.addr, arrive s.arrived c.addr.address c.value,
        Function.update s.split c.addr (s.split c.addr + fresh w c.addr)⟩

theorem record_call (s : Ledger) (c : Call) : CallEffect s c (record s (.call c)) := by
  cases hw : delivered s.world c with
  | none =>
      have hnone : perform s.world c = none := by simp [perform, hw]
      have hrecord : record s (.call c) = s := by simp [record, hw]
      rw [hrecord]
      exact .failed hnone fun w h => by rw [hw] at h; cases h
  | some w =>
      rcases run_cases w c.caller c.addr c.input c.gas c.readOnly with
        ⟨hsplits, hrun⟩ | ⟨hnot, hidle⟩
      · have hperform : perform s.world c = some (Dead.split w c.addr) := by
          simp [perform, hw, hrun, done]
        have hrecord : record s (.call c) =
            ⟨Dead.split w c.addr, arrive s.arrived c.addr.address c.value,
              Function.update s.split c.addr (s.split c.addr + fresh w c.addr)⟩ := by
          simp only [record, hw, hperform, if_pos (show c.splits w from hsplits)]
        rw [hrecord]
        exact .split w hw hsplits
      · obtain ⟨⟨st, r, hrun, hst⟩, hreceipt⟩ := hidle
        rw [hrun] at hreceipt
        cases r with
        | error f =>
            have hperform : perform s.world c = none := by simp [perform, hw, hrun]
            have hrecord : record s (.call c) = s := by simp [record, hw, hperform]
            rw [hrecord]
            refine .failed hperform fun w' hw' => ?_
            rw [hw] at hw'
            rwa [← Option.some.inj hw']
        | ok reply =>
            have hperform : perform s.world c = some { w with storage := st } := by
              simp [perform, hw, hrun]
            have hrecord : record s (.call c) =
                ⟨{ w with storage := st }, arrive s.arrived c.addr.address c.value, s.split⟩ := by
              simp only [record, hw, hperform, if_neg (show ¬ c.splits w from hnot)]
            rw [hrecord]
            exact .idle w st hw hnot hst fun hinput =>
              ⟨congrArg World.storage (hreceipt hinput).1, (hreceipt hinput).2 reply rfl⟩

theorem newBurn_of_lt {w : World} {a : DeadAddress}
    (h : fresh w a * getBurnRatio w.storage < 2 ^ 256) :
    newBurn w a = fresh w a * getBurnRatio w.storage / basisPoints := by
  rw [newBurn, burnShare, Nat.mod_eq_of_lt h]

/-- A clean step keeps the ledger balanced. -/
theorem Balanced.record {s : Ledger} (hs : Balanced s) {action : Action} (h : Clean s action) :
    Balanced (record s action) := by
  cases action with
  | transfer sender recipient amount =>
      cases hw : Dead.deliver s.world sender recipient amount with
      | none =>
          have hrecord : Dead.record s (.transfer sender recipient amount) = s := by
            simp only [Dead.record, hw]
          rwa [hrecord]
      | some w =>
          have hrecord : Dead.record s (.transfer sender recipient amount) =
              ⟨w, arrive s.arrived recipient amount, s.split⟩ := by
            simp only [Dead.record, hw]
          rw [hrecord]
          exact hs.deliver hw
  | call c =>
      have heffect := record_call s c
      generalize Dead.record s (.call c) = s' at heffect ⊢
      cases heffect with
      | failed hnone hnot => exact hs
      | idle w st hw hnot hst hreceipt =>
          have hreceived := hs.deliver (deliver_of_delivered hw)
          refine ⟨hreceived.supply_lt, hst.ratio hreceived.ratio_le, fun a => ?_, fun a => ?_⟩
          · change getBurned st a ≤ w.balance a.address
            rw [hst.burned]
            exact hreceived.backed a
          · change s.split a + (w.balance a.address - getBurned st a) = _
            rw [hst.burned]
            exact hreceived.once a
      | split w hw hsplits =>
          have hreceived := hs.deliver (deliver_of_delivered hw)
          obtain ⟨hlt, htreasury⟩ := h w hw hsplits
          refine hreceived.split c.addr fun hdead => ?_
          change newBurn w c.addr = fresh w c.addr
          rw [newBurn_of_lt hlt, htreasury hdead]

/-- A receipt of no value, where nothing is new, changes nothing. -/
theorem receipt_idle {s : Ledger} {c : Call} (hlt : s.world.bank.supply native < 2 ^ 256)
    (hinput : isReceive c.input = true) (hvalue : c.value = 0)
    (hfresh : s.world.balance c.addr.address ≤ getBurned s.world.storage c.addr) :
    (record s (.call c)).world = s.world := by
  have hsame : ∀ w, delivered s.world c = some w → w = s.world := by
    intro w hw
    have hdeliver := deliver_of_delivered hw
    rw [hvalue] at hdeliver
    unfold deliver at hdeliver
    split_ifs at hdeliver
    obtain ⟨bank, hbank, rfl⟩ := Option.map_eq_some_iff.mp hdeliver
    obtain ⟨-, -, rfl⟩ := Bank.transfer_eq_some hbank
    rw [Bank.move_zero _ _ hlt]
  have heffect := record_call s c
  generalize record s (.call c) = s' at heffect ⊢
  cases heffect with
  | failed hnone hnot => rfl
  | idle w st hw hnot hst hreceipt =>
      obtain ⟨rfl, -⟩ := hreceipt hinput
      exact hsame w hw
  | split w hw hsplits =>
      obtain rfl := hsame w hw
      exact absurd hsplits.2.2.2.1 (Nat.not_lt.mpr hfresh)

/-! ## Lawful steps -/

/-- The burned amounts and the supply after a step, clean or not. -/
theorem record_burned {s : Ledger} (hs : Balanced s) (action : Action) :
    (∀ a, getBurned s.world.storage a ≤ getBurned (record s action).world.storage a) ∧
      (record s action).world.bank.supply native = s.world.bank.supply native := by
  cases action with
  | transfer sender recipient amount =>
      cases hw : deliver s.world sender recipient amount with
      | none => simp [record, hw]
      | some w =>
          obtain ⟨hstorage, hsupply, -⟩ := deliver_spec hw hs.supply_lt
          simp [record, hw, hstorage, hsupply]
  | call c =>
      have heffect := record_call s c
      generalize record s (.call c) = s' at heffect ⊢
      cases heffect with
      | failed hnone hnot => exact ⟨fun _ => le_refl _, rfl⟩
      | idle w st hw hnot hst hreceipt =>
          obtain ⟨hstorage, hsupply, -⟩ := deliver_spec (deliver_of_delivered hw) hs.supply_lt
          refine ⟨fun a => ?_, hsupply⟩
          change getBurned s.world.storage a ≤ getBurned st a
          rw [hst.burned, hstorage]
      | split w hw hsplits =>
          obtain ⟨hstorage, hsupply, -⟩ := deliver_spec (deliver_of_delivered hw) hs.supply_lt
          have hreceived := hs.deliver (deliver_of_delivered hw)
          refine ⟨fun a => ?_, (split_supply hreceived c.addr).trans hsupply⟩
          have hburned := getBurned_split hreceived c.addr a
          change getBurned (split w c.addr).storage a = _ at hburned
          rw [hburned, ← hstorage]
          split_ifs with h
          · rw [h]
            exact Nat.le_add_right _ _
          · exact le_refl _

/-- A clean step is lawful. -/
theorem accounted_of_clean {s : Ledger} (hs : Balanced s) {action : Action}
    (h : Clean s action) : Accounted s action where
  backed := (hs.record h).backed
  grows := (record_burned hs action).1
  once := (hs.record h).once
  supply := (record_burned hs action).2
  ratio := by
    rintro c w rfl hw hsplits
    have heffect := record_call s c
    generalize record s (.call c) = s' at heffect ⊢
    cases heffect with
    | failed hnone hnot => exact absurd hsplits (hnot w hw)
    | idle w' st hw' hnot hst hreceipt =>
        obtain rfl := Option.some.inj (hw.symm.trans hw')
        exact absurd hsplits hnot
    | split w' hw' hsplits' =>
        obtain rfl := Option.some.inj (hw.symm.trans hw')
        have hburned := getBurned_split (hs.deliver (deliver_of_delivered hw)) c.addr c.addr
        change getBurned (split w c.addr).storage c.addr = _ at hburned
        rw [if_pos rfl] at hburned
        rw [hburned, ← newBurn_of_lt (h w hw hsplits).1]
  idle := by
    rintro c rfl hinput hwrite hperform c' hinput' haddr hvalue
    have hrecord := hs.record h
    apply receipt_idle hrecord.supply_lt hinput' hvalue
    rw [haddr]
    have hclean := h
    have heffect := record_call s c
    generalize record s (.call c) = s' at heffect ⊢
    cases heffect with
    | failed hnone hnot => exact absurd hnone hperform
    | idle w st hw hnot hst hreceipt =>
        obtain ⟨rfl, hfresh⟩ := hreceipt hinput
        exact hfresh hwrite
    | split w hw hsplits =>
        have hreceived := hs.deliver (deliver_of_delivered hw)
        obtain ⟨hlt, htreasury⟩ := hclean w hw hsplits
        have hpaid : isDeadAddress (getTreasury w.storage) = true →
            newBurn w c.addr = fresh w c.addr := fun hdead => by
          rw [newBurn_of_lt hlt, htreasury hdead]
        have hburned := getBurned_split hreceived c.addr c.addr
        have hbalance := split_balance hreceived c.addr c.addr hpaid
        rw [if_pos rfl] at hburned hbalance
        dsimp only at hburned hbalance
        have hle : newBurn w c.addr ≤ fresh w c.addr := burnShare_le hreceived.ratio_le
        have hbacked : getBurned w.storage c.addr ≤ w.balance c.addr.address :=
          hreceived.backed c.addr
        change (split w c.addr).balance c.addr.address ≤ getBurned (split w c.addr).storage c.addr
        rw [hburned, hbalance]
        simp only [fresh] at hle ⊢
        omega

/-! ## Steps that are not clean -/

theorem newBurn_lt_of_le {w : World} {a : DeadAddress}
    (h : 2 ^ 256 ≤ fresh w a * getBurnRatio w.storage) :
    newBurn w a < fresh w a * getBurnRatio w.storage / basisPoints := by
  have hmod : fresh w a * getBurnRatio w.storage % 2 ^ 256 + 2 ^ 256 ≤
      fresh w a * getBurnRatio w.storage := by
    have hdiv := Nat.mod_add_div (fresh w a * getBurnRatio w.storage) (2 ^ 256)
    have hpos : 1 ≤ fresh w a * getBurnRatio w.storage / 2 ^ 256 :=
      (Nat.one_le_div_iff (by norm_num)).mpr h
    omega
  rw [newBurn, burnShare, basisPoints]
  omega

/-- A share that lands at a dead address counts as new there once more. -/
theorem not_once {s : Ledger} (hs : Balanced s) (a : DeadAddress)
    (hdead : isDeadAddress (getTreasury s.world.storage) = true)
    (hshare : newBurn s.world a ≠ fresh s.world a)
    (honce : ∀ b, Function.update s.split a (s.split a + fresh s.world a) b +
      fresh (split s.world a) b = s.arrived b) : False := by
  obtain ⟨t, ht⟩ := isDeadAddress_iff.mp hdead
  have hle : newBurn s.world a ≤ fresh s.world a := burnShare_le hs.ratio_le
  have hbalance : (split s.world a).balance t.address =
      if t = a then s.world.balance a.address
      else s.world.balance t.address + (fresh s.world a - newBurn s.world a) := by
    have hamount : fresh s.world a - newBurn s.world a ≤ s.world.bank native a.address := by
      change _ ≤ s.world.balance a.address
      simp only [fresh]
      omega
    rw [World.balance, split_bank hs.ratio_le (balance_lt hs.supply_lt _), if_neg (by omega), ← ht]
    split_ifs with h
    · subst h
      have hlt : s.world.bank native t.address < 2 ^ 256 := balance_lt hs.supply_lt _
      rw [Bank.move, Bank.set_self, Bank.set_self, Nat.sub_add_cancel hamount,
        Nat.mod_eq_of_lt hlt]
      rfl
    · exact Bank.move_recipient (fun hc => h (DeadAddress.address_inj hc).symm)
        (Bank.fits_of_supply _ hs.supply_lt hamount)
  have hnew := honce t
  have hold := hs.once t
  have hbacked := hs.backed t
  have hburned := getBurned_split hs a t
  have hfresh : fresh (split s.world a) t =
      (split s.world a).balance t.address - getBurned (split s.world a).storage t := rfl
  rw [hfresh, hbalance, hburned] at hnew
  by_cases h : t = a
  · subst h
    rw [if_pos rfl, if_pos rfl, Function.update_self] at hnew
    simp only [fresh] at hle hshare hold hnew
    omega
  · rw [if_neg h, if_neg h, Function.update_of_ne h] at hnew
    simp only [fresh] at hle hshare hold hnew
    omega

/-- A lawful step is clean. -/
theorem clean_of_accounted {s : Ledger} (hs : Balanced s) {action : Action}
    (h : Accounted s action) : Clean s action := by
  cases action with
  | transfer sender recipient amount => trivial
  | call c =>
      intro w hw hsplits
      have hratio := h.ratio c w rfl hw hsplits
      have honce := h.once
      have heffect := record_call s c
      generalize record s (.call c) = s' at heffect hratio honce
      cases heffect with
      | failed hnone hnot => exact absurd hsplits (hnot w hw)
      | idle w' st hw' hnot hst hreceipt =>
          obtain rfl := Option.some.inj (hw.symm.trans hw')
          exact absurd hsplits hnot
      | split w' hw' hsplits' =>
          obtain rfl := Option.some.inj (hw.symm.trans hw')
          have hreceived := hs.deliver (deliver_of_delivered hw)
          have hburned := getBurned_split hreceived c.addr c.addr
          rw [if_pos rfl] at hburned
          dsimp only at hburned hratio
          rw [hburned] at hratio
          have hburn : newBurn w c.addr =
              fresh w c.addr * getBurnRatio w.storage / basisPoints := by omega
          refine ⟨?_, fun hdead => ?_⟩
          · by_contra hover
            exact absurd hburn (Nat.ne_of_lt (newBurn_lt_of_le (Nat.le_of_not_lt hover)))
          · rw [← hburn]
            by_contra hshare
            exact not_once hreceived c.addr hdead hshare honce

/-! ## Whole runs -/

/-- One account that owns coins. -/
def sampleBank : Bank := Bank.set (fun _ _ => 0) native 9 1000

theorem sampleBank_supply : sampleBank.supply native = 1000 := Bank.supply_single _ _ _

/-- A start with an admin. -/
def sampleWorld : World := ⟨sampleBank, Store.set (fun _ => 0) .admin (addressWord 5)⟩

def sampleGenesis : Genesis where
  world := sampleWorld
  supply_lt := lt_of_eq_of_lt sampleBank_supply (by norm_num)
  ratio_le := by decide
  unburned a := by
    rw [sampleWorld, getBurned_of_ne _ _ (by simp)]
    rfl

/-- From any start, every step of a run is accounted for exactly when every step is
clean. -/
theorem dead_accounted_iff (g : Genesis) (actions : List Action) :
    Along record Accounted g.ledger actions ↔ Along record Clean g.ledger actions := by
  have hboth : ∀ (actions : List Action) {s : Ledger}, Balanced s →
      (Along record Accounted s actions ↔ Along record Clean s actions) := by
    intro actions
    induction actions with
    | nil => exact fun _ => Iff.rfl
    | cons action actions ih =>
        intro s hs
        constructor
        · rintro ⟨h, hrest⟩
          have hclean := clean_of_accounted hs h
          exact ⟨hclean, (ih (hs.record hclean)).mp hrest⟩
        · rintro ⟨h, hrest⟩
          exact ⟨accounted_of_clean hs h, (ih (hs.record h)).mpr hrest⟩
  exact hboth actions g.balanced

/-- The admin may make a dead address the treasury, whose share is then new again. -/
theorem dead_treasury_resplits :
    ¬ ∀ (g : Genesis) (actions : List Action), Along record Accounted g.ledger actions := by
  intro h
  have honce := (h sampleGenesis
    [.call ⟨5, .dead, 0, selectorSetTreasury ++ hashBytes (addressWord DeadAddress.dead.address),
        gasAdminWrite, false⟩,
      .call ⟨9, .dead, 100, [], gasBase, false⟩]).2.1.once .dead
  revert honce
  decide

end LuxPrecompile.Dead
