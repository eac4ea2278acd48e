import LuxPrecompile.Fill.Accounting

/-!
# The map beside the state database

A revert restores the state database and leaves the manager's map as it is.  The
manager answers every call as a new one over the same state database does exactly when
its map agrees with that database, and that holds in every state of a run exactly when
no revert changes the record of an order.
-/

namespace LuxPrecompile.Fill

open Evm Support

/-- A new manager over a state database. -/
def fresh (st : Storage) : World := ⟨fun _ => none, st⟩

/-- Two calls with the same result and the same state change. -/
def Same {α : Type} (out out' : Outcome α) : Prop :=
  out.2 = out'.2 ∧ out.1.storage = out'.1.storage

/-- Every call on the manager has the result and the state change it has on a new manager
over the same state database. -/
def Agrees (w : World) : Prop := ∀ c, Same (perform w c) (perform (fresh w.storage) c)

theorem Same.done {out out' : Outcome Unit} (h : Same out out') : Same out.done out'.done :=
  ⟨congrArg (Except.map fun _ => Reply.done) h.1, h.2⟩

theorem fresh_coherent (st : Storage) : Coherent (fresh st) := by
  intro orderID att h
  cases h

/-! ## Calls on agreeing managers -/

section Agreement

variable {w w' : World}

theorem fail_same {α : Type} (h : w.storage = w'.storage) (e : Error) :
    Same (fail w e : Outcome α) (fail w' e) := ⟨rfl, h⟩

theorem openAttestation_same (h : w.storage = w'.storage) (att : Settlement) :
    Same (openAttestation w att) (openAttestation w' att) := by
  simp only [openAttestation, h]
  cases setOutstanding w'.storage (getOutstanding w'.storage + att.value) with
  | none => exact ⟨rfl, h⟩
  | some st =>
      simp only [saveAttestation]
      cases bigWord att.amount with
      | none => exact ⟨rfl, h⟩
      | some amount =>
          cases bigWord att.price with
          | none => exact ⟨rfl, h⟩
          | some price => exact ⟨rfl, rfl⟩

theorem closeAttestation_same (h : w.storage = w'.storage) (att : Settlement)
    (status : FillStatus) :
    Same (closeAttestation w att status) (closeAttestation w' att status) := by
  simp only [closeAttestation, saveAttestation, h]
  cases bigWord att.amount with
  | none => exact ⟨rfl, h⟩
  | some amount =>
      cases bigWord att.price with
      | none => exact ⟨rfl, h⟩
      | some price =>
          simp only
          split
          · exact ⟨rfl, rfl⟩
          · exact ⟨rfl, rfl⟩

theorem getAttestation_same (hw : Coherent w) (hw' : Coherent w') (h : w.storage = w'.storage)
    (orderID : Word) : ∃ w₁ w₁' r, getAttestation w orderID = (w₁, r) ∧
      getAttestation w' orderID = (w₁', r) ∧ w₁.storage = w₁'.storage := by
  refine ⟨(getAttestation w orderID).1, (getAttestation w' orderID).1,
    (getAttestation w orderID).2, rfl, ?_, ?_⟩
  · rw [getAttestation_eq_stored hw, h, ← getAttestation_eq_stored hw']
  · rw [getAttestation_storage, getAttestation_storage, h]

theorem attest_same (hw : Coherent w) (hw' : Coherent w') (h : w.storage = w'.storage)
    (caller : Address) (orderID symbol : Word) (amount price : Option ℤ) (user : Address)
    (timestamp : UInt64) :
    Same (attest w caller orderID symbol amount price user timestamp)
      (attest w' caller orderID symbol amount price user timestamp) := by
  obtain ⟨w₁, w₁', r, hlook, hlook', hstorage⟩ := getAttestation_same hw hw' h orderID
  simp only [attest, h, hlook, hlook']
  split
  · exact fail_same h _
  · split
    · exact fail_same h _
    · cases positive amount with
      | none => exact fail_same h _
      | some a =>
          cases positive price with
          | none => exact fail_same h _
          | some p =>
              simp only
              split
              · exact fail_same h _
              · cases r with
                | some att => exact fail_same hstorage _
                | none =>
                    simp only [hstorage]
                    split
                    · exact fail_same hstorage _
                    · exact openAttestation_same hstorage _

theorem challenge_same (hw : Coherent w) (hw' : Coherent w') (h : w.storage = w'.storage)
    (caller : Address) (orderID : Word) (reversalProof : List UInt8) :
    Same (challenge w caller orderID reversalProof)
      (challenge w' caller orderID reversalProof) := by
  obtain ⟨w₁, w₁', r, hlook, hlook', hstorage⟩ := getAttestation_same hw hw' h orderID
  simp only [challenge, hlook, hlook']
  cases r with
  | none => exact fail_same hstorage _
  | some att =>
      simp only [hstorage]
      split_ifs
      · exact fail_same hstorage _
      · exact fail_same hstorage _
      · exact fail_same hstorage _
      · exact fail_same hstorage _
      · exact closeAttestation_same hstorage _ _

theorem finalize_same (hw : Coherent w) (hw' : Coherent w') (h : w.storage = w'.storage)
    (orderID : Word) : Same (finalize w orderID) (finalize w' orderID) := by
  obtain ⟨w₁, w₁', r, hlook, hlook', hstorage⟩ := getAttestation_same hw hw' h orderID
  simp only [finalize, hlook, hlook']
  cases r with
  | none => exact fail_same hstorage _
  | some att =>
      simp only [hstorage]
      split_ifs
      · exact fail_same hstorage _
      · exact fail_same hstorage _
      · exact fail_same hstorage _
      · exact closeAttestation_same hstorage _ _

/-- Two managers with coherent maps over one state database agree on every call. -/
theorem perform_same (hw : Coherent w) (hw' : Coherent w') (h : w.storage = w'.storage)
    (c : Call) : Same (perform w c) (perform w' c) := by
  cases c with
  | attest caller orderID symbol amount price user timestamp =>
      exact (attest_same hw hw' h ..).done
  | challenge caller orderID reversalProof => exact (challenge_same hw hw' h ..).done
  | finalize orderID => exact (finalize_same hw hw' h _).done
  | setAttester caller newAttester =>
      simp only [perform, setAttester, h]
      split_ifs
      · exact (fail_same h _).done
      · exact ⟨rfl, rfl⟩
  | setCeiling caller ceiling =>
      simp only [perform, setCeiling, h]
      split_ifs
      · exact (fail_same h _).done
      · cases ceiling.bind fun c => bigWord c.natAbs with
        | none => exact ⟨rfl, h⟩
        | some data => exact ⟨rfl, rfl⟩
  | setFraudWindow caller blocks =>
      simp only [perform, setFraudWindow, h]
      split_ifs
      · exact (fail_same h _).done
      · exact ⟨rfl, rfl⟩
  | getAttestation orderID =>
      obtain ⟨w₁, w₁', r, hlook, hlook', hstorage⟩ := getAttestation_same hw hw' h orderID
      simp only [perform, hlook, hlook']
      exact ⟨rfl, hstorage⟩
  | getOutstanding =>
      simp only [perform, h]
      exact ⟨rfl, h⟩
  | getCeiling =>
      simp only [perform, h]
      exact ⟨rfl, h⟩

end Agreement

theorem agrees_iff_coherent (w : World) : Agrees w ↔ Coherent w := by
  constructor
  · intro h orderID att hatt
    have hreply := (h (.getAttestation orderID)).1
    have hw : (getAttestation w orderID).2 = some att := by simp [getAttestation, hatt]
    simp only [perform, hw, Except.ok.injEq, Reply.attestation.injEq] at hreply
    rw [getAttestation_eq_stored (fresh_coherent _)] at hreply
    exact hreply.symm
  · exact fun hw c => perform_same hw (fresh_coherent _) rfl c

/-! ## Transactions -/

/-- A manager with the snapshots that may still be restored, the latest first. -/
structure Node where
  world : World
  snapshots : List Storage

/-- A step of the manager, or the beginning, the commit or the revert of a transaction or
of a call inside it. -/
inductive Action
  | step (s : Step)
  | snapshot
  | commit
  | revert

def act (n : Node) : Action → Node
  | .step s => { n with world := next n.world s }
  | .snapshot => { n with snapshots := n.world.storage :: n.snapshots }
  | .commit => { n with snapshots := n.snapshots.tail }
  | .revert =>
      match n.snapshots with
      | [] => n
      | st :: rest => ⟨{ n.world with storage := st }, rest⟩

/-- A node at deployment. -/
def started : Node := ⟨deployed, []⟩

/-- A revert that leaves the record of every order as it is. -/
def Keeps (n : Node) : Action → Prop
  | .revert => ∀ st ∈ n.snapshots.head?, ∀ orderID,
      stored st orderID = stored n.world.storage orderID
  | _ => True

/-- The map agrees with the state database and knows every order whose record differs
from a snapshot's. -/
structure Tracked (n : Node) : Prop where
  coherent : Coherent n.world
  blocks : ∀ st ∈ n.world.storage :: n.snapshots, BlockFits st
  cached : ∀ st ∈ n.snapshots, ∀ orderID, stored st orderID ≠ stored n.world.storage orderID →
    n.world.attestations orderID ≠ none

theorem started_tracked : Tracked started where
  coherent := deployed_valid.coherent
  blocks st hst := by
    rw [List.mem_singleton.mp hst]
    exact deployed_valid.block
  cached st hst := absurd hst List.not_mem_nil

/-- A step of the manager forgets no order and remembers those it changes. -/
theorem next_spec {w : World} (hw : Coherent w) (hblock : BlockFits w.storage) (s : Step) :
    Coherent (next w s) ∧ BlockFits (next w s).storage ∧
    (∀ orderID, stored (next w s).storage orderID ≠ stored w.storage orderID →
      (next w s).attestations orderID ≠ none) ∧
    ∀ orderID, w.attestations orderID ≠ none → (next w s).attestations orderID ≠ none := by
  cases s with
  | call c =>
      have heffect := perform_effect hw hblock c
      refine ⟨heffect.coherent, ?_, heffect.changed, heffect.grows⟩
      change ((perform w c).1.storage .block).toNat < 2 ^ 64
      rw [heffect.block]
      exact hblock
  | block n =>
      obtain ⟨hrecords, -⟩ := next_block_stored w n
      refine ⟨fun orderID att hatt => ?_, blockFits_set _ _, fun orderID horder => ?_,
        fun _ h => h⟩
      · rw [hrecords]
        exact hw orderID att hatt
      · exact absurd (congrFun hrecords orderID) horder

theorem Tracked.act {n : Node} (hn : Tracked n) {a : Action} (ha : Keeps n a) :
    Tracked (act n a) := by
  cases a with
  | step s =>
      obtain ⟨hcoherent, hblock, hchanged, hgrows⟩ :=
        next_spec hn.coherent (hn.blocks _ List.mem_cons_self) s
      refine ⟨hcoherent, fun st hst => ?_, fun st hst orderID horder => ?_⟩
      · rcases List.mem_cons.mp hst with rfl | hst
        · exact hblock
        · exact hn.blocks st (List.mem_cons_of_mem _ hst)
      · by_cases hsame : stored n.world.storage orderID = stored st orderID
        · apply hchanged
          rw [hsame]
          exact Ne.symm horder
        · exact hgrows orderID (hn.cached st hst orderID (Ne.symm hsame))
  | snapshot =>
      refine ⟨hn.coherent, fun st hst => ?_, fun st hst orderID horder => ?_⟩
      · rcases List.mem_cons.mp hst with rfl | hst
        · exact hn.blocks _ List.mem_cons_self
        · exact hn.blocks st hst
      · rcases List.mem_cons.mp hst with rfl | hst
        · exact absurd rfl horder
        · exact hn.cached st hst orderID horder
  | commit =>
      refine ⟨hn.coherent, fun st hst => hn.blocks st ?_, fun st hst => hn.cached st ?_⟩
      · rcases List.mem_cons.mp hst with rfl | hst
        · exact List.mem_cons_self
        · exact List.mem_cons_of_mem _ (List.mem_of_mem_tail hst)
      · exact List.mem_of_mem_tail hst
  | revert =>
      obtain ⟨w, snapshots⟩ := n
      cases snapshots with
      | nil => exact hn
      | cons top rest =>
          have htop : stored top = stored w.storage := funext (ha top rfl)
          refine ⟨fun orderID att hatt => ?_, fun st hst => hn.blocks st ?_,
            fun st hst orderID horder => ?_⟩
          · change stored top orderID = some att
            rw [htop]
            exact hn.coherent orderID att hatt
          · exact List.mem_cons_of_mem _ hst
          · apply hn.cached st (List.mem_cons_of_mem _ hst) orderID
            rwa [← htop]

/-- A revert that changes a record leaves the map behind. -/
theorem Tracked.not_coherent {n : Node} (hn : Tracked n) {a : Action} (ha : ¬ Keeps n a) :
    ¬ Coherent (Fill.act n a).world := by
  cases a with
  | step s => exact absurd trivial ha
  | snapshot => exact absurd trivial ha
  | commit => exact absurd trivial ha
  | revert =>
      obtain ⟨w, snapshots⟩ := n
      cases snapshots with
      | nil =>
          refine absurd (fun st hst => ?_) ha
          cases hst
      | cons top rest =>
          intro hcoherent
          apply ha
          intro st hst orderID
          obtain rfl := Option.some.inj hst
          by_contra hne
          obtain ⟨att, hatt⟩ := Option.ne_none_iff_exists'.mp
            (hn.cached top List.mem_cons_self orderID hne)
          have hbefore := hn.coherent orderID att hatt
          have hafter := hcoherent orderID att hatt
          exact hne (hafter.trans hbefore.symm)

/-- In every state of a run from a tracked state the manager agrees with a new one exactly
when every revert of the run keeps the records. -/
theorem run_agrees_iff {n : Node} (hn : Tracked n) (actions : List Action) :
    (∀ pre, pre <+: actions → Agrees (pre.foldl act n).world) ↔ Along act Keeps n actions := by
  induction actions generalizing n with
  | nil =>
      refine ⟨fun _ => trivial, fun _ pre hpre => ?_⟩
      rw [List.prefix_nil.mp hpre]
      exact (agrees_iff_coherent _).mpr hn.coherent
  | cons a actions ih =>
      constructor
      · intro h
        have ha : Keeps n a := by
          by_contra ha
          exact hn.not_coherent ha ((agrees_iff_coherent _).mp (h [a] ⟨actions, rfl⟩))
        refine ⟨ha, (ih (hn.act ha)).mp fun pre hpre => ?_⟩
        exact h (a :: pre) (List.cons_prefix_cons.mpr ⟨rfl, hpre⟩)
      · rintro ⟨ha, hactions⟩ pre hpre
        rcases List.prefix_cons_iff.mp hpre with rfl | ⟨rest, rfl, hrest⟩
        · exact (agrees_iff_coherent _).mpr hn.coherent
        · exact (ih (hn.act ha)).mpr hactions rest hrest

/-- From deployment on, the map never shows exactly when no revert changes the record of
an order. -/
theorem cache_agrees_iff (actions : List Action) :
    (∀ pre, pre <+: actions → Agrees (pre.foldl act started).world) ↔
      Along act Keeps started actions :=
  run_agrees_iff started_tracked actions

/-- After a reverted attestation the manager still finds it. -/
theorem reverted_attestation_found :
    ¬ ∀ actions, ∀ pre, pre <+: actions → Agrees (pre.foldl act started).world := by
  intro h
  have hagrees := h [.step (.call (.setAttester 1 1)), .snapshot,
    .step (.call (.attest 1 5 6 (some 10) (some 2) 7 8)), .revert] _ (List.prefix_refl _)
    (.getAttestation 5)
  have hreply := hagrees.1
  revert hreply
  decide

end LuxPrecompile.Fill
