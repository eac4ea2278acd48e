import LuxPrecompile.Anchor.Contract
import LuxPrecompile.Support.Chunks
import LuxPrecompile.Support.Runs

/-!
# The history of an anchor

A run is a list of calls; the anchors its successful submissions announce are
recorded beside the storage.  The latest-height word of an application is empty
both before its first anchor and after an anchor at height zero, and the root word
of a height is empty both without an anchor and with an empty root.  A run keeps
the history append-only exactly when it stays clear of these two.
-/

namespace LuxPrecompile.Anchor

open Evm Support

/-- The storage with the anchors submitted so far, the oldest first. -/
structure Ledger where
  storage : Storage
  history : List Entry

/-- The ledger with one more anchor. -/
def Ledger.add (s : Ledger) (e : Entry) : Ledger := ⟨store s.storage e, s.history ++ [e]⟩

@[simp]
theorem Ledger.add_storage (s : Ledger) (e : Entry) : (s.add e).storage = store s.storage e := rfl

@[simp]
theorem Ledger.add_history (s : Ledger) (e : Entry) : (s.add e).history = s.history ++ [e] := rfl

/-- The storage at deployment. -/
def empty : Ledger := ⟨fun _ => 0, []⟩

/-- The arguments of a call that reaches the monotonicity check of `submit`. -/
def submission (c : Call) : Option Entry :=
  if c.input.length < 4 ∨ c.input.take 4 ≠ selectorSubmit ∨ c.readOnly ∨ c.gas < gasSubmit ∨
      (c.input.drop 4).length < 96 then none
  else some (argEntry (c.input.drop 4))

/-- The anchor a call adds: the arguments of a submission that returned no error. -/
def added (st : Storage) (c : Call) : Option Entry :=
  match (run st c).result, submission c with
  | .ok _, some e => some e
  | _, _ => none

/-- One call, with its anchor added to the history. -/
def record (s : Ledger) (c : Call) : Ledger :=
  ⟨(run s.storage c).storage, s.history ++ (added s.storage c).toList⟩

/-- The submitted heights of an application, in the order of their submission. -/
def heights (history : List Entry) (appID : Word) : List UInt64 :=
  (history.filter fun e => e.appID = appID).map Entry.height

/-! ## Effects of a call -/

theorem get_storage (st : Storage) (data : List UInt8) (gas : ℕ) :
    (get st data gas).storage = st := by
  unfold get
  split_ifs <;> rfl

theorem getLatest_storage (st : Storage) (data : List UInt8) (gas : ℕ) :
    (getLatest st data gas).storage = st := by
  unfold getLatest
  split_ifs <;> rfl

theorem list_storage (st : Storage) (data : List UInt8) (gas : ℕ) :
    (list st data gas).storage = st := by
  simp only [list]
  split_ifs <;> rfl

theorem run_of_submission {st : Storage} {c : Call} {e : Entry} (hc : submission c = some e)
    (he : exceedsLatest st e = true) :
    run st c = ⟨store st e, .ok ⟨hashBytes (encodeHeight e.height), c.gas - gasSubmit⟩⟩ := by
  unfold submission at hc
  split_ifs at hc with hguard
  simp only [not_or, not_not] at hguard
  obtain ⟨hlength, hsel, hwrite, hgas, hdata⟩ := hguard
  obtain rfl := Option.some.inj hc
  simp only [run, if_neg hlength, if_pos hsel, submit, if_neg hwrite, if_neg hgas,
    if_neg hdata, he, Bool.not_true, Bool.false_eq_true, if_false]

/-- Every other call leaves the storage as it is and adds no anchor. -/
theorem run_of_other {st : Storage} {c : Call}
    (h : ∀ e, submission c = some e → exceedsLatest st e = false) :
    (run st c).storage = st ∧ added st c = none := by
  unfold run
  by_cases hlength : c.input.length < 4
  · have hnone : submission c = none := by simp [submission, hlength]
    simp [hlength, added, hnone]
  by_cases hsel : c.input.take 4 = selectorSubmit
  · have hrun : run st c = submit st (c.input.drop 4) c.gas c.readOnly := by
      simp [run, hlength, hsel]
    have hfail : ∃ error gas,
        submit st (c.input.drop 4) c.gas c.readOnly = fail st error gas := by
      unfold submit
      by_cases hread : c.readOnly = true
      · exact ⟨_, _, if_pos hread⟩
      by_cases hgas : c.gas < gasSubmit
      · exact ⟨_, _, by rw [if_neg hread, if_pos hgas]⟩
      by_cases hdata : (c.input.drop 4).length < 96
      · exact ⟨_, _, by rw [if_neg hread, if_neg hgas, if_pos hdata]⟩
      have hsub : submission c = some (argEntry (c.input.drop 4)) := by
        unfold submission
        rw [if_neg]
        simp only [not_or, not_not]
        exact ⟨hlength, hsel, hread, hgas, hdata⟩
      refine ⟨.heightNotMonotonic, c.gas - gasSubmit, ?_⟩
      rw [if_neg hread, if_neg hgas, if_neg hdata, h _ hsub]
      rfl
    obtain ⟨error, gas, hfail⟩ := hfail
    simp [hlength, hsel, added, hrun, hfail, fail]
  · have hnone : submission c = none := by simp [submission, hsel]
    have hadded : added st c = none := by simp [added, hnone]
    rw [if_neg hlength, if_neg hsel]
    refine ⟨?_, hadded⟩
    by_cases hget : c.input.take 4 = selectorGet
    · rw [if_pos hget]
      exact get_storage _ _ _
    by_cases hlatest : c.input.take 4 = selectorGetLatest
    · rw [if_neg hget, if_pos hlatest]
      exact getLatest_storage _ _ _
    by_cases hlist : c.input.take 4 = selectorList
    · rw [if_neg hget, if_neg hlatest, if_pos hlist]
      exact list_storage _ _ _
    · rw [if_neg hget, if_neg hlatest, if_neg hlist]
      rfl

/-- Either a call adds the anchor it submits, or it changes nothing. -/
theorem record_cases (s : Ledger) (c : Call) :
    (∃ e, submission c = some e ∧ exceedsLatest s.storage e = true ∧
      record s c = s.add e) ∨
    ((∀ e, submission c = some e → exceedsLatest s.storage e = false) ∧ record s c = s) := by
  by_cases h : ∃ e, submission c = some e ∧ exceedsLatest s.storage e = true
  · obtain ⟨e, hsub, hexceeds⟩ := h
    refine .inl ⟨e, hsub, hexceeds, ?_⟩
    have hrun := run_of_submission hsub hexceeds
    simp [record, added, hrun, hsub, Ledger.add]
  · have hother : ∀ e, submission c = some e → exceedsLatest s.storage e = false := by
      intro e hsub
      by_contra hexceeds
      exact h ⟨e, hsub, by simpa using hexceeds⟩
    obtain ⟨hstorage, hadded⟩ := run_of_other hother
    exact .inr ⟨hother, by simp [record, hstorage, hadded]⟩

theorem run_failed {st : Storage} {c : Call} {f : Failure Error}
    (h : (run st c).result = .error f) : (run st c).storage = st := by
  by_cases hc : ∃ e, submission c = some e ∧ exceedsLatest st e = true
  · obtain ⟨e, hsub, hexceeds⟩ := hc
    rw [run_of_submission hsub hexceeds] at h
    cases h
  · refine (run_of_other fun e hsub => ?_).1
    by_contra hexceeds
    exact hc ⟨e, hsub, by simpa using hexceeds⟩

/-! ## Queries -/

/-- A call of `getLatest` with its arguments and its gas. -/
def AsksLatest (c : Call) (appID : Word) : Prop :=
  c.input.take 4 = selectorGetLatest ∧ 4 + 32 ≤ c.input.length ∧
    argApp (c.input.drop 4) = appID ∧ gasGetLatest ≤ c.gas

/-- A call of `get` with its arguments and its gas. -/
def AsksRoot (c : Call) (appID : Word) (height : UInt64) : Prop :=
  c.input.take 4 = selectorGet ∧ 4 + 64 ≤ c.input.length ∧
    argApp (c.input.drop 4) = appID ∧ argHeight (c.input.drop 4) 64 = height ∧
    gasGet ≤ c.gas

/-- A call of `list` with its arguments, a range it serves, and its gas. -/
def AsksRange (c : Call) (appID : Word) (lo hi : UInt64) : Prop :=
  c.input.take 4 = selectorList ∧ 4 + 96 ≤ c.input.length ∧
    argApp (c.input.drop 4) = appID ∧ argHeight (c.input.drop 4) 64 = lo ∧
    argHeight (c.input.drop 4) 96 = hi ∧ (hi - lo).toNat ≤ maxListRange ∧
    gasListBase + (hi - lo).toNat * gasListPerItem ≤ c.gas

theorem run_latest {c : Call} {appID : Word} (h : AsksLatest c appID) (st : Storage) :
    (run st c).result = .ok ⟨hashBytes (st (.latest appID)), c.gas - gasGetLatest⟩ := by
  obtain ⟨hsel, hlength, rfl, hgas⟩ := h
  have hdata : ¬ (c.input.drop 4).length < 32 := by
    rw [List.length_drop]
    omega
  have hdispatch : run st c = getLatest st (c.input.drop 4) c.gas := by
    simp only [run, if_neg (show ¬ c.input.length < 4 by omega), hsel]
    rfl
  rw [hdispatch, getLatest, if_neg (by omega), if_neg hdata]

theorem run_get {c : Call} {appID : Word} {height : UInt64} (h : AsksRoot c appID height)
    {st : Storage} (hst : st (.root appID height) ≠ 0) :
    (run st c).result = .ok ⟨hashBytes (st (.root appID height)), c.gas - gasGet⟩ := by
  obtain ⟨hsel, hlength, rfl, rfl, hgas⟩ := h
  have hdata : ¬ (c.input.drop 4).length < 64 := by
    rw [List.length_drop]
    omega
  have hdispatch : run st c = get st (c.input.drop 4) c.gas := by
    simp only [run, if_neg (show ¬ c.input.length < 4 by omega), hsel]
    rfl
  rw [hdispatch, get, if_neg (by omega), if_neg hdata, if_neg hst]

theorem run_get_empty {c : Call} {appID : Word} {height : UInt64} (h : AsksRoot c appID height)
    {st : Storage} (hst : st (.root appID height) = 0) :
    (run st c).result = .error ⟨.anchorNotFound, c.gas - gasGet⟩ := by
  obtain ⟨hsel, hlength, rfl, rfl, hgas⟩ := h
  have hdata : ¬ (c.input.drop 4).length < 64 := by
    rw [List.length_drop]
    omega
  have hdispatch : run st c = get st (c.input.drop 4) c.gas := by
    simp only [run, if_neg (show ¬ c.input.length < 4 by omega), hsel]
    rfl
  rw [hdispatch, get, if_neg (by omega), if_neg hdata, if_pos hst]
  rfl

/-- `list` returns the roots of its range. -/
theorem run_list {c : Call} {appID : Word} {lo hi : UInt64} (h : AsksRange c appID lo hi)
    (hlt : lo < hi) (st : Storage) :
    (run st c).result = .ok ⟨encodeRoots st appID lo (hi - lo).toNat,
      c.gas - (gasListBase + (hi - lo).toNat * gasListPerItem)⟩ := by
  obtain ⟨hsel, hlength, rfl, rfl, rfl, hrange, hgas⟩ := h
  have hdata : ¬ (c.input.drop 4).length < 96 := by
    rw [List.length_drop]
    omega
  have hdispatch : run st c = list st (c.input.drop 4) c.gas := by
    simp only [run, if_neg (show ¬ c.input.length < 4 by omega), hsel]
    rfl
  simp only [hdispatch, list]
  rw [if_neg (by omega), if_neg hdata, if_neg (UInt64.not_le.mpr hlt), if_neg (by omega),
    if_neg (by omega)]

/-- The root of a height stands in its place in the array. -/
theorem slice_encodeRoots (st : Storage) (appID : Word) (lo : UInt64) {count i : ℕ}
    (h : i < count) :
    slice (encodeRoots st appID lo count) (64 + 32 * i) (96 + 32 * i) =
      hashBytes (st (.root appID (lo + UInt64.ofNat i))) := by
  have hlength : ∀ i, (hashBytes (st (.root appID (lo + UInt64.ofNat i)))).length = 32 :=
    fun i => hashBytes_length _
  rw [encodeRoots, slice_append_right (by simp; omega), slice_append_right (by simp; omega)]
  simp only [hashBytes_length]
  have hlo : 64 + 32 * i - 32 - 32 = 32 * i := by omega
  have hhi : 96 + 32 * i - 32 - 32 = 32 * i + 32 := by omega
  rw [hlo, hhi, slice, Nat.add_sub_cancel_left, drop_flatMap_of_length hlength]
  have htake := take_flatMap_of_length hlength ((List.range count).drop i) 1
  rw [Nat.mul_one] at htake
  rw [htake, List.drop_eq_getElem_cons (by rw [List.length_range]; exact h)]
  simp

end LuxPrecompile.Anchor
