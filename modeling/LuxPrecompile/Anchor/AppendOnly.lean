import LuxPrecompile.Anchor.History

/-!
# When the history is append-only

In every state of a run the heights of each application increase, every submitted
root is still stored and is what the queries return, and failed calls change
nothing, exactly when no step of the run submits an empty root or height zero a
second time.
-/

namespace LuxPrecompile.Anchor

open Evm Support

/-! ## The property -/

/-- An append-only history, and queries that answer from it. -/
structure AppendOnly (s : Ledger) : Prop where
  increasing : ∀ appID, (heights s.history appID).Pairwise (· < ·)
  kept : ∀ e ∈ s.history, s.storage (.root e.appID e.height) = e.root
  latest : ∀ appID h, (heights s.history appID).getLast? = some h → ∀ c, AsksLatest c appID →
    (run s.storage c).result = .ok ⟨hashBytes (encodeHeight h), c.gas - gasGetLatest⟩
  get : ∀ e ∈ s.history, ∀ c, AsksRoot c e.appID e.height →
    (run s.storage c).result = .ok ⟨hashBytes e.root, c.gas - gasGet⟩
  list : ∀ e ∈ s.history, ∀ c lo hi, AsksRange c e.appID lo hi → lo ≤ e.height →
    e.height < hi → ∃ reply, (run s.storage c).result = .ok reply ∧
      slice reply.ret (64 + 32 * (e.height - lo).toNat) (96 + 32 * (e.height - lo).toNat) =
        hashBytes e.root
  failed : ∀ c f, (run s.storage c).result = .error f → (run s.storage c).storage = s.storage

/-- A step that submits neither an empty root nor height zero where it has a root
already, unless the monotonicity check refuses it. -/
def Orderly (s : Ledger) (c : Call) : Prop :=
  ∀ e, submission c = some e → exceedsLatest s.storage e = true →
    e.root ≠ 0 ∧ (e.height = 0 → s.storage (.root e.appID 0) = 0)

/-! ## The invariant -/

/-- Every root that is stored was submitted. -/
def Recorded (s : Ledger) : Prop :=
  ∀ appID height, s.storage (.root appID height) ≠ 0 →
    ∃ e ∈ s.history, e.appID = appID ∧ e.height = height

/-- The storage of an orderly run. -/
structure Consistent (s : Ledger) : Prop where
  increasing : ∀ appID, (heights s.history appID).Pairwise (· < ·)
  kept : ∀ e ∈ s.history, s.storage (.root e.appID e.height) = e.root
  nonempty : ∀ e ∈ s.history, e.root ≠ 0
  latest : ∀ appID,
    s.storage (.latest appID) = encodeHeight (((heights s.history appID).getLast?).getD 0)

theorem recorded_empty : Recorded empty := fun _ _ h => absurd rfl h

theorem consistent_empty : Consistent empty where
  increasing _ := List.Pairwise.nil
  kept _ he := absurd he (List.not_mem_nil)
  nonempty _ he := absurd he (List.not_mem_nil)
  latest _ := rfl

theorem heights_append (history : List Entry) (e : Entry) (appID : Word) :
    heights (history ++ [e]) appID =
      heights history appID ++ if e.appID = appID then [e.height] else [] := by
  by_cases h : e.appID = appID
  · simp [heights, List.filter_append, h]
  · simp [heights, List.filter_append, h]

theorem mem_heights {history : List Entry} {appID : Word} {h : UInt64} :
    h ∈ heights history appID ↔ ∃ e ∈ history, e.appID = appID ∧ e.height = h := by
  simp [heights, and_assoc]

theorem store_root (st : Storage) (e : Entry) (appID : Word) (height : UInt64) :
    store st e (.root appID height) =
      if appID = e.appID ∧ height = e.height then e.root else st (.root appID height) := by
  rw [store, Store.set_of_ne _ _ (by simp)]
  by_cases h : appID = e.appID ∧ height = e.height
  · obtain ⟨rfl, rfl⟩ := h
    simp
  · rw [if_neg h, Store.set_of_ne _ _ (by simpa using h)]

theorem store_latest (st : Storage) (e : Entry) (appID : Word) :
    store st e (.latest appID) =
      if appID = e.appID then encodeHeight e.height else st (.latest appID) := by
  by_cases h : appID = e.appID
  · simp [store, h]
  · rw [store, if_neg h, Store.set_of_ne _ _ (by simpa using h),
      Store.set_of_ne _ _ (by simp)]

theorem Recorded.record {s : Ledger} (hs : Recorded s) (c : Call) : Recorded (record s c) := by
  rcases record_cases s c with ⟨e, -, -, hrecord⟩ | ⟨-, hrecord⟩
  · rw [hrecord]
    intro appID height hroot
    by_cases h : appID = e.appID ∧ height = e.height
    · exact ⟨e, by simp, h.1.symm, h.2.symm⟩
    · rw [Ledger.add_storage, store_root, if_neg h] at hroot
      obtain ⟨e', he', happ, hheight⟩ := hs appID height hroot
      exact ⟨e', List.mem_append_left _ he', happ, hheight⟩
  · rwa [hrecord]

/-- The heights submitted before an accepted submission are below its own. -/
theorem lt_of_exceeds {s : Ledger} (hs : Consistent s) {e : Entry}
    (hexceeds : exceedsLatest s.storage e = true)
    (hzero : e.height = 0 → s.storage (.root e.appID 0) = 0) {h : UInt64}
    (hmem : h ∈ heights s.history e.appID) : h < e.height := by
  obtain ⟨last, hlast⟩ : ∃ last, (heights s.history e.appID).getLast? = some last :=
    Option.isSome_iff_exists.mp (by simpa using List.ne_nil_of_mem hmem)
  have hword : s.storage (.latest e.appID) = encodeHeight last := by
    rw [hs.latest, hlast, Option.getD_some]
  obtain ⟨earlier, hsplit⟩ := List.getLast?_eq_some_iff.mp hlast
  have hle : h ≤ last := by
    rw [hsplit] at hmem
    rcases List.mem_append.mp hmem with hmem | hmem
    · have hpairwise := hs.increasing e.appID
      rw [hsplit] at hpairwise
      exact UInt64.le_of_lt ((List.pairwise_append.mp hpairwise).2.2 h hmem last (by simp))
    · rw [List.mem_singleton.mp hmem]
      exact UInt64.le_refl _
  have hlt : last < e.height := by
    rw [exceedsLatest, hword, decodeHeight_encodeHeight] at hexceeds
    by_cases hlastZero : last = 0
    · subst hlastZero
      rw [UInt64.lt_iff_toNat_lt]
      by_contra hnot
      have heq : e.height = 0 := UInt64.toNat_inj.mp (by simpa using hnot)
      obtain ⟨e', he', happ, hheight⟩ :=
        mem_heights.mp (hsplit ▸ List.mem_append_right earlier (List.mem_singleton_self 0))
      have hroot := hs.kept e' he'
      rw [happ, hheight, hzero heq] at hroot
      exact hs.nonempty e' he' hroot.symm
    · have hne : encodeHeight last ≠ 0 := fun hz => hlastZero (encodeHeight_eq_zero.mp hz)
      simp only [bne_iff_ne.mpr hne, Bool.and_true, Bool.not_eq_true', decide_eq_false_iff_not,
        UInt64.not_le] at hexceeds
      exact hexceeds
  exact UInt64.lt_of_le_of_lt hle hlt

/-- An orderly step keeps the storage consistent. -/
theorem Consistent.record {s : Ledger} (hs : Consistent s) {c : Call} (hc : Orderly s c) :
    Consistent (record s c) := by
  rcases record_cases s c with ⟨e, hsub, hexceeds, hrecord⟩ | ⟨-, hrecord⟩
  · obtain ⟨hroot, hzero⟩ := hc e hsub hexceeds
    have hbelow : ∀ h ∈ heights s.history e.appID, h < e.height :=
      fun h hmem => lt_of_exceeds hs hexceeds hzero hmem
    rw [hrecord]
    refine ⟨fun appID => ?_, fun e' he' => ?_, fun e' he' => ?_, fun appID => ?_⟩
    · rw [Ledger.add_history, heights_append]
      by_cases happ : e.appID = appID
      · subst happ
        rw [if_pos rfl]
        exact List.pairwise_append.mpr ⟨hs.increasing _, List.pairwise_singleton _ _,
          fun h hmem h' hmem' => List.mem_singleton.mp hmem' ▸ hbelow h hmem⟩
      · simpa [happ] using hs.increasing appID
    · rcases List.mem_append.mp he' with he' | he'
      · rw [Ledger.add_storage, store_root, if_neg, hs.kept e' he']
        rintro ⟨happ, hheight⟩
        have hlt := hbelow e'.height (mem_heights.mpr ⟨e', he', happ, rfl⟩)
        rw [hheight] at hlt
        exact UInt64.lt_irrefl _ hlt
      · rw [List.mem_singleton.mp he', Ledger.add_storage, store_root, if_pos ⟨rfl, rfl⟩]
    · rcases List.mem_append.mp he' with he' | he'
      · exact hs.nonempty e' he'
      · rwa [List.mem_singleton.mp he']
    · rw [Ledger.add_storage, Ledger.add_history, store_latest, heights_append]
      by_cases happ : appID = e.appID
      · simp [happ]
      · rw [if_neg happ, if_neg (Ne.symm happ), List.append_nil, hs.latest]
  · rwa [hrecord]

/-- A consistent storage answers every query from the history. -/
theorem Consistent.appendOnly {s : Ledger} (hs : Consistent s) : AppendOnly s where
  increasing := hs.increasing
  kept := hs.kept
  latest appID h hlast c hc := by
    rw [run_latest hc, hs.latest, hlast, Option.getD_some]
  get e he c hc := by
    have hroot : s.storage (.root e.appID e.height) ≠ 0 := by
      rw [hs.kept e he]
      exact hs.nonempty e he
    rw [run_get hc hroot, hs.kept e he]
  list e he c lo hi hc hlo hhi := by
    refine ⟨_, run_list hc (UInt64.lt_of_le_of_lt hlo hhi) s.storage, ?_⟩
    have hindex : (e.height - lo).toNat < (hi - lo).toNat := by
      rw [UInt64.toNat_sub_of_le _ _ hlo,
        UInt64.toNat_sub_of_le _ _ (UInt64.le_of_lt (UInt64.lt_of_le_of_lt hlo hhi))]
      have hle := UInt64.le_iff_toNat_le.mp hlo
      have hlt := UInt64.lt_iff_toNat_lt.mp hhi
      omega
    have hheight : lo + UInt64.ofNat (e.height - lo).toNat = e.height := by
      rw [UInt64.ofNat_toNat, UInt64.add_comm, UInt64.sub_add_cancel]
    rw [slice_encodeRoots _ _ _ hindex, hheight, hs.kept e he]
  failed c f hf := run_failed hf

/-! ## The condition is needed -/

/-- A call of `get` for any application and height. -/
def rootQuery (appID : Word) (height : UInt64) : Call :=
  { caller := 0
    input := selectorGet ++ (hashBytes appID ++ hashBytes (encodeHeight height))
    gas := gasGet
    readOnly := true }

theorem asksRoot_rootQuery (appID : Word) (height : UInt64) :
    AsksRoot (rootQuery appID height) appID height := by
  have hdrop : (rootQuery appID height).input.drop 4 =
      hashBytes appID ++ hashBytes (encodeHeight height) :=
    List.drop_left' (by decide)
  have htake : (rootQuery appID height).input.take 4 = selectorGet :=
    List.take_left' (by decide)
  have happ : argApp (hashBytes appID ++ hashBytes (encodeHeight height)) = appID := by
    rw [argApp, slice_append_left (by simp), slice_all (by simp), bytesToHash_hashBytes]
  have hheight : argHeight (hashBytes appID ++ hashBytes (encodeHeight height)) 64 = height := by
    rw [argHeight, slice_append_right (by simp), hashBytes_length]
    exact (congrArg bytesToUint64 (slice_encodeHeight height)).trans
      (bytesToUint64_uint64Bytes height)
  refine ⟨htake, by simp [rootQuery, selectorGet], ?_, ?_, le_refl _⟩
  · rw [hdrop, happ]
  · rw [hdrop, hheight]

/-- A disorderly step leaves a history that is not append-only. -/
theorem not_appendOnly_record {s : Ledger} (hs : Recorded s) {c : Call} (hc : ¬ Orderly s c) :
    ¬ AppendOnly (record s c) := by
  intro happend
  unfold Orderly at hc
  push Not at hc
  obtain ⟨e, hsub, hexceeds, hbad⟩ := hc
  rcases record_cases s c with ⟨e', hsub', -, hrecord⟩ | ⟨hother, -⟩
  · obtain rfl : e = e' := Option.some.inj (hsub.symm.trans hsub')
    rw [hrecord] at happend
    have hmem : e ∈ s.history ++ [e] := by simp
    by_cases hroot : e.root = 0
    · have hkept := happend.kept e hmem
      rw [hroot] at hkept
      have hget := happend.get e hmem _ (asksRoot_rootQuery e.appID e.height)
      rw [run_get_empty (asksRoot_rootQuery e.appID e.height) hkept] at hget
      cases hget
    · obtain ⟨hzero, hstored⟩ := hbad hroot
      obtain ⟨e', he', happ, hheight⟩ := hs e.appID 0 hstored
      have hincreasing := happend.increasing e.appID
      rw [Ledger.add_history, heights_append, if_pos rfl, hzero] at hincreasing
      exact UInt64.lt_irrefl 0 ((List.pairwise_append.mp hincreasing).2.2 0
        (mem_heights.mpr ⟨e', he', happ, hheight⟩) 0 (List.mem_singleton_self 0))
  · rw [hother e hsub] at hexceeds
    cases hexceeds

/-! ## Runs -/

/-- The history is append-only in every state of a run exactly when every step of the
run is orderly. -/
theorem run_appendOnly_iff {s : Ledger} (hs : Consistent s) (hrec : Recorded s)
    (calls : List Call) :
    (∀ pre, pre <+: calls → AppendOnly (pre.foldl record s)) ↔ Along record Orderly s calls := by
  induction calls generalizing s with
  | nil =>
      refine ⟨fun _ => trivial, fun _ pre hpre => ?_⟩
      rw [List.prefix_nil.mp hpre]
      exact hs.appendOnly
  | cons c calls ih =>
      constructor
      · intro h
        have hc : Orderly s c := by
          by_contra hc
          exact not_appendOnly_record hrec hc (h [c] ⟨calls, rfl⟩)
        refine ⟨hc, (ih (hs.record hc) (hrec.record c)).mp fun pre hpre => ?_⟩
        exact h (c :: pre) (List.cons_prefix_cons.mpr ⟨rfl, hpre⟩)
      · rintro ⟨hc, hcalls⟩ pre hpre
        rcases List.prefix_cons_iff.mp hpre with rfl | ⟨rest, rfl, hrest⟩
        · exact hs.appendOnly
        · exact (ih (hs.record hc) (hrec.record c)).mpr hcalls rest hrest

/-- From deployment on, the history of every application is append-only in every state
of a run exactly when no step submits an empty root, or height zero where a root is
stored already. -/
theorem anchors_appendOnly_iff (calls : List Call) :
    (∀ pre, pre <+: calls → AppendOnly (pre.foldl record empty)) ↔
      Along record Orderly empty calls :=
  run_appendOnly_iff consistent_empty recorded_empty calls

/-- A submission of application 1 at height zero. -/
def submitAtZero (root : Word) : Call :=
  { caller := 7
    input := selectorSubmit ++ (hashBytes 1 ++ (hashBytes 0 ++ hashBytes root))
    gas := gasSubmit
    readOnly := false }

/-- Two anchors at height zero are both accepted. -/
theorem height_zero_twice :
    ¬ ∀ calls, ∀ pre, pre <+: calls → AppendOnly (pre.foldl record empty) := by
  intro h
  have hincreasing := (h [submitAtZero 2, submitAtZero 3] _ (List.prefix_refl _)).increasing 1
  revert hincreasing
  decide

end LuxPrecompile.Anchor
