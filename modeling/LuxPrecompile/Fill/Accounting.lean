import LuxPrecompile.Fill.Effects
import LuxPrecompile.Support.Runs
import LuxPrecompile.Support.Sums

/-!
# Accounting of the outstanding value

A run interleaves calls of the manager with changes of the block number.  The
outstanding value is the total over the pending attestations, a record moves once from
pending to its end, and no call panics or finalizes early, exactly as long as every
value fits its word and no fraud window ends past 64 bits.
-/

namespace LuxPrecompile.Fill

open Evm Support

/-! ## Runs -/

/-- A call of the manager, or a new block number. -/
inductive Step
  | call (c : Call)
  | block (n : UInt64)
deriving DecidableEq

/-- What a step returns. -/
def outcome (w : World) : Step → Outcome Reply
  | .call c => perform w c
  | .block n =>
      ({ w with storage := w.storage.set .block (BitVec.ofNat 256 n.toNat) }, .ok .done)

def next (w : World) (s : Step) : World := (outcome w s).1

/-- A new manager over an empty state database. -/
def deployed : World := ⟨fun _ => none, fun _ => 0⟩

/-- What `GetAttestation` answers. -/
def record (w : World) (orderID : Word) : Option Settlement := (getAttestation w orderID).2

/-! ## The property -/

/-- The value of an order that counts as outstanding. -/
def pendingValue : Option Settlement → ℕ
  | none => 0
  | some att => if att.status = .pending then att.value else 0

/-- A record stays, is opened as pending, or goes from pending to one of its two ends,
with everything else in it unchanged. -/
inductive Moves : Option Settlement → Option Settlement → Prop
  | stays (r : Option Settlement) : Moves r r
  | opens (att : Settlement) (h : att.status = .pending) : Moves none (some att)
  | ends (att : Settlement) (status : FillStatus) (hpending : att.status = .pending)
      (hstatus : status = .finalized ∨ status = .reversed) :
      Moves (some att) (some { att with status := status })

/-- What a step must respect. -/
structure Lawful (w : World) (s : Step) : Prop where
  noPanic : (outcome w s).2 ≠ .error .panic
  outstanding : getOutstanding (next w s).storage =
    ∑ orderID : Word, pendingValue (record (next w s) orderID)
  moves : ∀ orderID, Moves (record w orderID) (record (next w s) orderID)
  unclamped : ∀ orderID att, record w orderID = some att →
    record (next w s) orderID ≠ some att → att.value ≤ getOutstanding w.storage
  window : ∀ orderID att att', record w orderID = some att → att.status ≠ .finalized →
    record (next w s) orderID = some att' → att'.status = .finalized →
      att.block.toNat + (getFraudWindow w.storage).toNat ≤ (getCurrentBlock w.storage).toNat

/-- A step whose values fit their words: an attestation that passes its checks, a
ceiling the attester sets, and the end of the window of a record to be finalized. -/
def Fits (w : World) : Step → Prop
  | .call (.attest caller orderID _ amount price user _) =>
      Attestable w.storage caller orderID amount price user →
        ∀ a p, positive amount = some a → positive price = some p →
          getOutstanding w.storage + a * p < 2 ^ 256
  | .call (.setCeiling caller ceiling) =>
      caller = getAttester w.storage → ∃ c, ceiling = some c ∧ c.natAbs < 2 ^ 256
  | .call (.finalize orderID) =>
      ∀ att, stored w.storage orderID = some att → att.status = .pending →
        att.block.toNat + (getFraudWindow w.storage).toNat < 2 ^ 64 ∨
          getCurrentBlock w.storage < att.block + getFraudWindow w.storage
  | _ => True

/-! ## The book -/

/-- A book whose outstanding value is the total of its pending records. -/
structure Book.Balanced (b : Book) : Prop where
  written : ∀ orderID att, b.records orderID = some att → att.status.Written
  total : b.outstanding = ∑ orderID : Word, pendingValue (b.records orderID)

theorem FillStatus.Written.pending_of_open {s : FillStatus} (h : s.Written)
    (hopen : s ≠ .finalized ∧ s ≠ .reversed) : s = .pending := by
  rcases h with h | h | h
  · exact h
  · exact absurd h hopen.1
  · exact absurd h hopen.2

theorem pendingValue_of_pending {att : Settlement} (h : att.status = .pending) :
    pendingValue (some att) = att.value := if_pos h

theorem pendingValue_of_closed {att : Settlement} {status : FillStatus}
    (h : status = .finalized ∨ status = .reversed) :
    pendingValue (some { att with status := status }) = 0 := by
  rcases h with rfl | rfl <;> rfl

theorem Book.enter_total (b : Book) (att : Settlement) (v : ℕ) :
    ∑ orderID : Word, pendingValue ((b.enter att v).records orderID) +
        pendingValue (b.records att.orderID) =
      ∑ orderID : Word, pendingValue (b.records orderID) + pendingValue (some att) := by
  have hsum := sum_add_of_eq_off (f := fun orderID => pendingValue (b.records orderID))
    (g := fun orderID => pendingValue ((b.enter att v).records orderID)) att.orderID
    (fun orderID hne => by simp [Book.enter, Function.update_of_ne hne])
  simpa [Book.enter] using hsum

theorem Book.Balanced.enter {b : Book} (hb : b.Balanced) {att : Settlement} {v : ℕ}
    (hwritten : att.status.Written)
    (hv : v + pendingValue (b.records att.orderID) = b.outstanding + pendingValue (some att)) :
    (b.enter att v).Balanced where
  written orderID att' h := by
    by_cases heq : orderID = att.orderID
    · rw [b.enter_self att v heq] at h
      rwa [← Option.some.inj h]
    · rw [b.enter_of_ne att v heq] at h
      exact hb.written orderID att' h
  total := by
    have hsum := Book.enter_total b att v
    have htotal := hb.total
    change v = _
    omega

theorem Book.Balanced.value_le {b : Book} (hb : b.Balanced) {orderID : Word} {att : Settlement}
    (h : b.records orderID = some att) (hpending : att.status = .pending) :
    att.value ≤ b.outstanding := by
  rw [hb.total, ← pendingValue_of_pending hpending, ← h]
  exact le_sum (fun orderID => pendingValue (b.records orderID)) orderID

/-- A step of the book keeps it balanced. -/
theorem Book.Step.balanced {asked : Option Word} {b b' : Book} (h : b.Step asked b')
    (hb : b.Balanced) : b'.Balanced := by
  cases h with
  | idle => exact hb
  | configured window => exact ⟨hb.written, hb.total⟩
  | opened att hfresh hpending =>
      apply hb.enter (.inl hpending)
      rw [hfresh, pendingValue_of_pending hpending]
      rfl
  | closed att status hrecord hopen hclosed =>
      have hpending := (hb.written _ _ hrecord).pending_of_open hopen
      have hle := hb.value_le hrecord hpending
      have hstatus : status = .finalized ∨ status = .reversed := by
        rcases hclosed with h | ⟨h, -⟩
        · exact .inr h
        · exact .inl h
      refine hb.enter ?_ ?_
      · rcases hstatus with rfl | rfl
        · exact .inr (.inl rfl)
        · exact .inr (.inr rfl)
      · rw [hrecord, pendingValue_of_pending hpending, pendingValue_of_closed hstatus]
        omega

/-- A step of the book moves one record at most, and as the rules say. -/
theorem Book.Step.moves {asked : Option Word} {b b' : Book} (h : b.Step asked b')
    (hb : b.Balanced) (orderID : Word) : Moves (b.records orderID) (b'.records orderID) := by
  cases h with
  | idle => exact .stays _
  | configured window => exact .stays _
  | opened att hfresh hpending =>
      by_cases heq : orderID = att.orderID
      · rw [b.enter_self att _ heq, heq, hfresh]
        exact .opens att hpending
      · rw [b.enter_of_ne att _ heq]
        exact .stays _
  | closed att status hrecord hopen hclosed =>
      by_cases heq : orderID = att.orderID
      · rw [b.enter_self { att with status := status } _ heq, heq, hrecord]
        refine .ends att status ((hb.written _ _ hrecord).pending_of_open hopen) ?_
        rcases hclosed with h | ⟨h, -⟩
        · exact .inr h
        · exact .inl h
      · rw [b.enter_of_ne { att with status := status } _ heq]
        exact .stays _

/-- A record is finalized only by a call that asks for it and finds its window over. -/
theorem Book.Step.finalized {asked : Option Word} {b b' : Book} (h : b.Step asked b')
    {orderID : Word} {att att' : Settlement} (hatt : b.records orderID = some att)
    (hopen : att.status ≠ .finalized) (hatt' : b'.records orderID = some att')
    (hfinal : att'.status = .finalized) :
    asked = some orderID ∧ att.status ≠ .reversed ∧ ¬ b.block < att.block + b.window := by
  cases h with
  | idle =>
      rw [hatt] at hatt'
      exact absurd (Option.some.inj hatt' ▸ hfinal) hopen
  | configured window =>
      change b.records orderID = some att' at hatt'
      rw [hatt] at hatt'
      exact absurd (Option.some.inj hatt' ▸ hfinal) hopen
  | opened new hfresh hpending =>
      have hne : orderID ≠ new.orderID := by
        rintro rfl
        rw [hfresh] at hatt
        cases hatt
      rw [b.enter_of_ne new _ hne, hatt] at hatt'
      exact absurd (Option.some.inj hatt' ▸ hfinal) hopen
  | closed old status hrecord hopen' hclosed =>
      by_cases heq : orderID = old.orderID
      · rw [b.enter_self { old with status := status } _ heq] at hatt'
        rw [heq, hrecord] at hatt
        obtain rfl := Option.some.inj hatt
        obtain rfl := Option.some.inj hatt'
        rcases hclosed with h | ⟨-, hasked, hwindow⟩
        · rw [show status = .finalized from hfinal] at h
          cases h
        · exact ⟨heq ▸ hasked, hopen'.2, hwindow⟩
      · rw [b.enter_of_ne { old with status := status } _ heq, hatt] at hatt'
        exact absurd (Option.some.inj hatt' ▸ hfinal) hopen

/-! ## The manager -/

/-- The states a run can reach. -/
structure Valid (w : World) : Prop where
  coherent : Coherent w
  block : BlockFits w.storage
  balanced : (bookOf w.storage).Balanced

theorem deployed_valid : Valid deployed where
  coherent _ _ h := by cases h
  block := by
    change (0 : Word).toNat < 2 ^ 64
    decide
  balanced :=
    { written := fun _ _ h => by cases h
      total := (Finset.sum_eq_zero fun _ _ => rfl).symm }

theorem record_eq_stored {w : World} (hw : Coherent w) (orderID : Word) :
    record w orderID = stored w.storage orderID := getAttestation_eq_stored hw orderID

theorem next_block_stored (w : World) (n : UInt64) :
    stored (next w (.block n)).storage = stored w.storage ∧
      getOutstanding (next w (.block n)).storage = getOutstanding w.storage :=
  ⟨stored_set_of_config _ _ (by simp) (by simp), by simp [next, outcome, getOutstanding]⟩

theorem blockFits_set (st : Storage) (n : UInt64) :
    BlockFits (st.set .block (BitVec.ofNat 256 n.toNat)) := by
  have hlt := n.toNat_lt
  rw [BlockFits, Store.set_self, BitVec.toNat_ofNat, Nat.mod_eq_of_lt (by omega)]
  exact hlt

theorem Valid.next {w : World} (hw : Valid w) (s : Step) : Valid (next w s) := by
  cases s with
  | call c =>
      have heffect := perform_effect hw.coherent hw.block c
      refine ⟨heffect.coherent, ?_, heffect.step.balanced hw.balanced⟩
      change ((perform w c).1.storage .block).toNat < 2 ^ 64
      rw [heffect.block]
      exact hw.block
  | block n =>
      obtain ⟨hrecords, houtstanding⟩ := next_block_stored w n
      refine ⟨fun orderID att hatt => ?_, blockFits_set _ _, ?_, ?_⟩
      · rw [hrecords]
        exact hw.coherent orderID att hatt
      · intro orderID att hatt
        rw [bookOf, hrecords] at hatt
        exact hw.balanced.written orderID att hatt
      · change getOutstanding _ = ∑ orderID : Word, pendingValue (stored _ orderID)
        rw [hrecords, houtstanding]
        exact hw.balanced.total

theorem Valid.moves {w : World} (hw : Valid w) (s : Step) (orderID : Word) :
    Moves (record w orderID) (record (Fill.next w s) orderID) := by
  rw [record_eq_stored hw.coherent, record_eq_stored (hw.next s).coherent]
  cases s with
  | call c => exact (perform_effect hw.coherent hw.block c).step.moves hw.balanced orderID
  | block n =>
      rw [(next_block_stored w n).1]
      exact .stays _

/-! ## Values that fit -/

theorem fail_done {w : World} (e : Error) :
    (Outcome.done (fail w e)).2 ≠ .error .panic := by
  intro h
  cases h

/-- A call whose values fit does not panic. -/
theorem perform_ne_panic {w : World} (hw : Coherent w) {c : Call} (h : Fits w (.call c)) :
    (perform w c).2 ≠ .error .panic := by
  cases c with
  | attest caller orderID symbol amount price user timestamp =>
      rcases attest_cases hw caller orderID symbol amount price user timestamp with
        ⟨a, p, ha, hp, hchecks, heq⟩ | ⟨-, w', e, -, heq⟩
      · have hfits : getOutstanding w.storage + a * p < 2 ^ 256 := h hchecks a p ha hp
        rw [perform, heq, openAttestation_of_lt ⟨(positive_eq_some ha).1, (positive_eq_some hp).1⟩
          hfits]
        intro hc
        cases hc
      · rw [perform, heq]
        exact fail_done e
  | challenge caller orderID reversalProof =>
      rcases challenge_cases hw caller orderID reversalProof with
        ⟨att, hatt, -, heq⟩ | ⟨w', e, -, heq⟩
      · rw [perform, heq, closeAttestation_eq (stored_amount_lt hatt).1 (stored_amount_lt hatt).2]
        intro hc
        cases hc
      · rw [perform, heq]
        exact fail_done e
  | finalize orderID =>
      rcases finalize_cases hw orderID with ⟨att, hatt, -, -, heq⟩ | ⟨w', e, -, heq⟩
      · rw [perform, heq, closeAttestation_eq (stored_amount_lt hatt).1 (stored_amount_lt hatt).2]
        intro hc
        cases hc
      · rw [perform, heq]
        exact fail_done e
  | setAttester caller newAttester =>
      simp only [perform, Outcome.done, setAttester]
      split_ifs <;> exact fun hc => by cases hc
  | setCeiling caller ceiling =>
      simp only [perform, Outcome.done, setCeiling]
      split_ifs with hcaller
      · exact fun hc => by cases hc
      · obtain ⟨v, rfl, hv⟩ := h (not_not.mp hcaller)
        simp only [Option.bind_some, bigWord_of_lt hv]
        exact fun hc => by cases hc
  | setFraudWindow caller blocks =>
      simp only [perform, Outcome.done, setFraudWindow]
      split_ifs <;> exact fun hc => by cases hc
  | getAttestation orderID => exact fun hc => by cases hc
  | getOutstanding => exact fun hc => by cases hc
  | getCeiling => exact fun hc => by cases hc

/-- A record that is finalized was asked for, and its window is over. -/
theorem Valid.finalized {w : World} (hw : Valid w) {s : Step} (hs : Fits w s) {orderID : Word}
    {att att' : Settlement} (hatt : record w orderID = some att) (hopen : att.status ≠ .finalized)
    (hatt' : record (Fill.next w s) orderID = some att') (hfinal : att'.status = .finalized) :
    att.block.toNat + (getFraudWindow w.storage).toNat ≤ (getCurrentBlock w.storage).toNat := by
  rw [record_eq_stored hw.coherent] at hatt
  rw [record_eq_stored (hw.next s).coherent] at hatt'
  cases s with
  | block n =>
      rw [(next_block_stored w n).1, hatt] at hatt'
      exact absurd (Option.some.inj hatt' ▸ hfinal) hopen
  | call c =>
      obtain ⟨hasked, hreversed, hwindow⟩ := (perform_effect hw.coherent hw.block c).step.finalized
        hatt hopen hatt' hfinal
      have hc : c = .finalize orderID := by
        cases c <;> simp_all [Call.finalizes]
      subst hc
      have hpending := (hw.balanced.written orderID att hatt).pending_of_open ⟨hopen, hreversed⟩
      rcases hs att hatt hpending with hlt | hlt
      · have hle := UInt64.le_iff_toNat_le.mp (UInt64.not_lt.mp hwindow)
        simp only [bookOf, UInt64.toNat_add] at hle
        rwa [Nat.mod_eq_of_lt hlt] at hle
      · exact absurd hlt hwindow

/-- A step whose values fit is lawful. -/
theorem lawful_of_fits {w : World} (hw : Valid w) {s : Step} (hs : Fits w s) : Lawful w s where
  noPanic := by
    cases s with
    | call c => exact perform_ne_panic hw.coherent hs
    | block n => exact fun hc => by cases hc
  outstanding := by
    rw [show getOutstanding (next w s).storage = _ from (hw.next s).balanced.total]
    exact Finset.sum_congr rfl fun orderID _ => by
      rw [record_eq_stored (hw.next s).coherent, bookOf]
  moves := hw.moves s
  unclamped orderID att hatt hne := by
    have hmoves := hw.moves s orderID
    rw [hatt] at hmoves
    generalize hafter : record (next w s) orderID = after at hmoves hne
    cases hmoves with
    | stays => exact absurd rfl hne
    | ends att status hpending hstatus =>
        rw [record_eq_stored hw.coherent] at hatt
        exact hw.balanced.value_le hatt hpending
  window _ _ _ hatt hopen hatt' hfinal := hw.finalized hs hatt hopen hatt' hfinal

/-! ## Values that do not -/

/-- A lawful step is one whose values fit. -/
theorem fits_of_lawful {w : World} (hw : Valid w) {s : Step} (hs : Lawful w s) : Fits w s := by
  cases s with
  | block n => trivial
  | call c =>
      cases c with
      | attest caller orderID symbol amount price user timestamp =>
          intro hchecks a p ha hp
          by_contra hover
          apply hs.noPanic
          rcases attest_cases hw.coherent caller orderID symbol amount price user timestamp with
            ⟨a', p', ha', hp', -, heq⟩ | ⟨hnot, -⟩
          · obtain rfl := Option.some.inj (ha.symm.trans ha')
            obtain rfl := Option.some.inj (hp.symm.trans hp')
            rw [outcome, perform, heq, openAttestation_of_le (Nat.le_of_not_lt hover)]
            rfl
          · exact absurd hchecks hnot
      | setCeiling caller ceiling =>
          intro hcaller
          cases hceiling : ceiling.bind fun c => bigWord c.natAbs with
          | none =>
              refine absurd ?_ hs.noPanic
              simp [outcome, perform, Outcome.done, setCeiling, hcaller, hceiling, Except.map]
          | some data =>
              obtain ⟨c, rfl, hc⟩ := Option.bind_eq_some_iff.mp hceiling
              refine ⟨c, rfl, ?_⟩
              by_contra hover
              rw [bigWord_eq_none.mpr (Nat.le_of_not_lt hover)] at hc
              cases hc
      | finalize orderID =>
          intro att hatt hpending
          by_contra hnot
          obtain ⟨hover, hwindow⟩ := not_or.mp hnot
          have hopen : att.status ≠ .finalized ∧ att.status ≠ .reversed := by
            rw [hpending]
            exact ⟨by decide, by decide⟩
          have hafter : record (next w (.call (.finalize orderID))) orderID =
              some { att with status := .finalized } := by
            obtain ⟨hamount, hprice⟩ := stored_amount_lt hatt
            rw [record, next, outcome, perform,
              finalize_of_over hw.coherent hatt hopen hwindow,
              closeAttestation_eq hamount hprice]
            simp [Outcome.done, getAttestation, remember_attestations, stored_orderID hatt]
          have hle := hs.window orderID att _ (by rw [record_eq_stored hw.coherent, hatt]) hopen.1
            hafter rfl
          have hlt := (getCurrentBlock w.storage).toNat_lt
          omega
      | challenge caller orderID reversalProof => trivial
      | setAttester caller newAttester => trivial
      | setFraudWindow caller blocks => trivial
      | getAttestation orderID => trivial
      | getOutstanding => trivial
      | getCeiling => trivial

/-! ## Runs of the manager -/

/-- From deployment on, every step of a run is lawful exactly when the values of every
step fit. -/
theorem attestations_lawful_iff (steps : List Step) :
    Along next Lawful deployed steps ↔ Along next Fits deployed steps :=
  ⟨Along.imp_of_invariant (fun _ s hw _ => hw.next s) (fun _ _ hw hs => fits_of_lawful hw hs)
      steps deployed_valid,
    Along.imp_of_invariant (fun _ s hw _ => hw.next s) (fun _ _ hw hs => lawful_of_fits hw hs)
      steps deployed_valid⟩

/-- Without a ceiling, a fill of `2 ^ 255` units at price 2 does not fit the outstanding
word. -/
theorem attest_panics :
    ¬ ∀ steps, Along next Lawful deployed steps := by
  intro h
  have hpanic := (h [.call (.setAttester 1 1),
    .call (.attest 1 5 6 (some (2 ^ 255)) (some 2) 7 8)]).2.1.noPanic
  revert hpanic
  decide

end LuxPrecompile.Fill
