import LuxPrecompile.Bridge.Effects
import LuxPrecompile.Bridge.Rows

/-!
# The registry as a finite map

Along a run a table records, by chain id, the chain last registered with its last
gateway.  The registry answers from that table in every state of a run exactly when
no chain is seeded or registered whose name ends in a zero byte.
-/

namespace LuxPrecompile.Bridge

open Evm Support

/-! ## The table -/

/-- The storage with the chains registered so far, by id. -/
structure Ledger where
  storage : Storage
  table : ChainID → Option Chain

/-- What a write does to the table. -/
def Request.update (table : ChainID → Option Chain) : Request → ChainID → Option Chain
  | .register chain => Function.update table chain.id (some chain)
  | .unregister id => Function.update table id none
  | .setGateway id gw =>
      Function.update table id ((table id).map fun c => { c with gatewayAt := gw })

/-- A call of the registrar; a write that succeeds is recorded in the table. -/
def record (crypto : Crypto) (s : Ledger) (c : Call) : Ledger where
  storage := (run crypto s.storage c).storage
  table :=
    match signedRequest c.input with
    | some signed =>
        if (run crypto s.storage c).result.isOk then signed.args.update s.table else s.table
    | none => s.table

/-- The registry after a seed. -/
def seeded (st : Storage) (chains : List Chain) : Ledger where
  storage := (seedRegistry st chains).1
  table := if (seedRegistry st chains).2.isOk then lookup Chain.id chains else fun _ => none

/-! ## The property -/

/-- A call of `getChain` that is paid for. -/
def AsksChain (c : Call) (idx : UInt64) : Prop :=
  ∃ args, c.input = selectorGetChain :: args ∧ 8 ≤ args.length ∧
    bytesToUint64 (slice args 0 8) = idx ∧ gasGetChain ≤ c.gas

/-- A registry whose rows, reads and listing are those of the table. -/
structure Refines (crypto : Crypto) (s : Ledger) : Prop where
  distinct : DistinctKeys Chain.id (all s.storage)
  get : ∀ id, get s.storage id = s.table id
  once : ∀ chain, (all s.storage).count chain = if s.table chain.id = some chain then 1 else 0
  listed : ∀ chain, s.table chain.id = some chain → ∃ idx, ∀ c, AsksChain c idx →
    (run crypto s.storage c).result = .ok ⟨encodeChain chain, c.gas - gasGetChain⟩
  answered : ∀ c idx reply, AsksChain c idx → (run crypto s.storage c).result = .ok reply →
    ∃ chain, s.table chain.id = some chain ∧ reply.ret = encodeChain chain
  missing : ∀ c idx, AsksChain c idx → (all s.storage).length ≤ idx.toNat →
    (run crypto s.storage c).result = .error ⟨.indexOutOfRange, c.gas - gasGetChain⟩

/-- A step that registers no chain whose name ends in a zero byte, unless the call is
refused. -/
def Orderly (crypto : Crypto) (s : Ledger) (c : Call) : Prop :=
  ∀ chain payload sigs, Accepted crypto s.storage c ⟨.register chain, payload, sigs⟩ →
    Bridge.get s.storage chain.id = none → Tidy chain.name

/-- Every chain of the table has a tidy name. -/
def AllTidy (table : ChainID → Option Chain) : Prop :=
  ∀ id chain, table id = some chain → Tidy chain.name

/-! ## The reply of `getChain` -/

theorem run_getChain {crypto : Crypto} {st : Storage} {c : Call} {idx : UInt64}
    (hc : AsksChain c idx) :
    (run crypto st c).result =
      if count st ≤ idx then .error ⟨.indexOutOfRange, c.gas - gasGetChain⟩
      else .ok ⟨encodeChain (row st idx), c.gas - gasGetChain⟩ := by
  obtain ⟨args, hinput, hlength, hidx, hgas⟩ := hc
  have hrun : run crypto st c = runGetChain st args c.gas := by
    rw [run, hinput]
    rfl
  rw [hrun, runGetChain, if_neg (by omega), if_neg (by omega), hidx]
  by_cases hle : count st ≤ idx
  · rw [if_pos hle, if_pos hle]
    rfl
  · rw [if_neg hle, if_neg hle]

/-- The reply of `getChain` tells the chain. -/
theorem encodeChain_inj {c c' : Chain} (hc : c.name.length ≤ 32) (hc' : c'.name.length ≤ 32)
    (h : encodeChain c = encodeChain c') : c = c' := by
  rw [encodeChain, encodeChain] at h
  obtain ⟨hid, hrest⟩ := List.append_inj h (by simp)
  obtain ⟨hlength, hrest⟩ := List.cons.inj hrest
  rw [maxChainNameSize, List.take_of_length_le hc, List.take_of_length_le hc'] at hlength hrest
  have hlength := congrArg UInt8.toNat hlength
  rw [UInt8.toNat_ofNat', UInt8.toNat_ofNat'] at hlength
  obtain ⟨hname, hrest⟩ := List.append_inj hrest (by omega)
  obtain ⟨hevm, hgateway⟩ := List.cons.inj hrest
  have hevm' : c.evm = c'.evm := by
    revert hevm
    cases c.evm <;> cases c'.evm <;> decide
  have hid' := congrArg bytesToUint32 hid
  have hgateway' := congrArg bytesToAddress hgateway
  rw [bytesToUint32_uint32Bytes, bytesToUint32_uint32Bytes] at hid'
  rw [bytesToAddress_addressBytes, bytesToAddress_addressBytes] at hgateway'
  cases c
  cases c'
  simp_all

/-! ## The invariant -/

/-- The table is the map of the chains whose rows the registry keeps. -/
structure Mirrors (s : Ledger) (chains : List Chain) : Prop where
  rows : Rows s.storage chains
  distinct : DistinctKeys Chain.id chains
  table_eq : s.table = lookup Chain.id chains

theorem length_le_of_distinct {chains : List Chain} (h : DistinctKeys Chain.id chains) :
    chains.length ≤ 2 ^ 32 := by
  have hnodup : ((chains.map Chain.id).map UInt32.toNat).Nodup :=
    List.Nodup.map (fun _ _ heq => UInt32.toNat_inj.mp heq) h
  have hle := length_le_of_lt hnodup (n := 2 ^ 32) (by
    intro x hx
    obtain ⟨id, -, rfl⟩ := List.mem_map.mp hx
    exact id.toNat_lt)
  simpa using hle

theorem Mirrors.index {s : Ledger} {chains : List Chain} (h : Mirrors s chains) {id : ChainID}
    {idx : UInt64} (hidx : indexOf s.storage id = some idx) :
    ∃ i, ∃ hi : i < chains.length, idx = UInt64.ofNat i ∧ chains[i].id = id := by
  rw [h.rows.indexOf_eq, Option.map_eq_some_iff] at hidx
  obtain ⟨i, hfind, rfl⟩ := hidx
  obtain ⟨hi, hid, -⟩ := List.findIdx?_eq_some_iff_getElem.mp hfind
  exact ⟨i, hi, rfl, by simpa using hid⟩

theorem Rows.bumpNonce {st : Storage} {chains : List Chain} (h : Rows st chains) :
    Rows (bumpNonce st) chains :=
  h.congr fun _ => Store.set_of_ne _ _ (by simp)

theorem Mirrors.get_eq_none {s : Ledger} {chains : List Chain} (h : Mirrors s chains)
    {id : ChainID} (hget : get s.storage id = none) : lookup Chain.id chains id = none := by
  rw [h.rows.get_eq] at hget
  exact Option.map_eq_none_iff.mp hget

/-- What an executed write does to the list of chains. -/
theorem Mirrors.executes {crypto : Crypto} {s : Ledger} {chains : List Chain}
    (h : Mirrors s chains) {c : Call} {signed : Signed Request} {st' : Storage}
    (hexec : Executes crypto s.storage c signed st') :
    ∃ chains', Mirrors ⟨bumpNonce st', signed.args.update s.table⟩ chains' := by
  obtain ⟨idx, happly⟩ := hexec.applied
  obtain ⟨args, size, hdecoded⟩ := decoded_of_signedRequest hexec.accepted.decoded
  have hname := hdecoded.name_le
  revert happly hname
  cases signed.args with
  | register chain =>
      intro happly hname
      rw [Request.apply, registerChain] at happly
      obtain ⟨hget, hwritten⟩ := refuse_eq_ok.mp happly
      obtain ⟨rfl, -⟩ := Prod.mk.inj (Except.ok.inj hwritten)
      have hnew := h.get_eq_none (by simpa using hget)
      have hdistinct := h.distinct.append hnew
      have hfew := length_le_of_distinct hdistinct
      rw [List.length_append, List.length_singleton] at hfew
      refine ⟨chains ++ [chain], (h.rows.append hfew (hname chain rfl)).bumpNonce, hdistinct, ?_⟩
      rw [lookup_append hnew, ← h.table_eq]
      rfl
  | unregister id =>
      intro happly _
      cases hidx : indexOf s.storage id with
      | none =>
          rw [Request.apply, unregisterChain, hidx] at happly
          cases happly
      | some found =>
          rw [Request.apply, unregisterChain, hidx] at happly
          obtain ⟨rfl, -⟩ := Prod.mk.inj (Except.ok.inj happly)
          obtain ⟨i, hi, rfl, rfl⟩ := h.index hidx
          refine ⟨swapRemove chains i, (h.rows.swapRemove hi).bumpNonce,
            (h.distinct.swapRemove hi).1, ?_⟩
          rw [lookup_swapRemove h.distinct hi, ← h.table_eq]
          rfl
  | setGateway id gw =>
      intro happly _
      cases hidx : indexOf s.storage id with
      | none =>
          rw [Request.apply, setGateway, hidx] at happly
          cases happly
      | some found =>
          rw [Request.apply, setGateway, hidx] at happly
          obtain ⟨rfl, -⟩ := Prod.mk.inj (Except.ok.inj happly)
          obtain ⟨i, hi, rfl, rfl⟩ := h.index hidx
          have hfound : s.table chains[i].id = some chains[i] := by
            rw [h.table_eq, lookup_eq_some h.distinct]
            exact ⟨List.getElem_mem hi, rfl⟩
          have hpatched : lookup Chain.id (chains.set i { chains[i] with gatewayAt := gw }) =
              Function.update s.table chains[i].id (some { chains[i] with gatewayAt := gw }) := by
            rw [h.table_eq]
            exact lookup_set h.distinct hi rfl
          refine ⟨_, (h.rows.patch hi gw).bumpNonce, h.distinct.set hi rfl, ?_⟩
          rw [hpatched, Request.update, hfound]
          rfl

/-- A step records what it executes, and nothing else. -/
theorem record_cases (crypto : Crypto) (s : Ledger) (c : Call) :
    (∃ signed st', Executes crypto s.storage c signed st' ∧
      record crypto s c = ⟨bumpNonce st', signed.args.update s.table⟩) ∨
    (Idle crypto s.storage c ∧ record crypto s c = s) := by
  rcases run_cases crypto s.storage c with ⟨signed, st', hexec⟩ | hidle
  · refine .inl ⟨signed, st', hexec, ?_⟩
    rw [record, hexec.accepted.decoded, hexec.storage_eq]
    simp [hexec.succeeds]
  · refine .inr ⟨hidle, ?_⟩
    rw [record, hidle.storage_eq]
    cases hsigned : signedRequest c.input with
    | none => rfl
    | some signed =>
        have herror : ¬ (run crypto s.storage c).result.isOk = true := by
          intro hok
          rw [hidle.refused hok] at hsigned
          cases hsigned
        dsimp only
        rw [if_neg herror]

theorem Mirrors.record {s : Ledger} {chains : List Chain} (h : Mirrors s chains)
    (crypto : Crypto) (c : Call) : ∃ chains', Mirrors (record crypto s c) chains' := by
  rcases record_cases crypto s c with ⟨signed, st', hexec, hrecord⟩ | ⟨-, hrecord⟩
  · rw [hrecord]
    exact h.executes hexec
  · rw [hrecord]
    exact ⟨chains, h⟩

theorem seedRegistry_isOk {st : Storage} (hempty : count st = 0) {chains : List Chain} :
    (seedRegistry st chains).2.isOk = true ↔ ∀ c ∈ chains, c.name.length ≤ 32 := by
  rw [seedRegistry, hempty, if_neg (by decide)]
  by_cases hlong : (chains.any fun c => decide (32 < c.name.length)) = true
  · rw [if_pos hlong]
    refine ⟨fun h => (by cases h), fun h => ?_⟩
    obtain ⟨c, hc, hlength⟩ := List.any_eq_true.mp hlong
    exact absurd (h c hc) (by simpa using hlength)
  · rw [if_neg hlong]
    exact ⟨fun _ => by simpa using hlong, fun _ => rfl⟩

theorem seeded_storage (st : Storage) (chains : List Chain) :
    (seeded st chains).storage = (seedRegistry st chains).1 := by
  simp only [seeded]

theorem seeded_table (st : Storage) (chains : List Chain) :
    (seeded st chains).table =
      if (seedRegistry st chains).2.isOk then lookup Chain.id chains else fun _ => none := by
  simp only [seeded]

/-- The chains a seed puts in the registry. -/
theorem mirrors_seeded {st : Storage} (hempty : count st = 0) {chains : List Chain}
    (hids : DistinctKeys Chain.id chains) :
    Mirrors (seeded st chains) (if (seedRegistry st chains).2.isOk then chains else []) := by
  by_cases hok : (seedRegistry st chains).2.isOk = true
  · have hrows := Rows.seed hempty (length_le_of_distinct hids)
      ((seedRegistry_isOk hempty).mp hok)
    rw [← seeded_storage] at hrows
    have htable := seeded_table st chains
    rw [if_pos hok] at htable ⊢
    exact ⟨hrows, hids, htable⟩
  · have hrows := Rows.seed_refused hempty (mt (seedRegistry_isOk hempty).mpr hok)
    rw [← seeded_storage] at hrows
    have htable := seeded_table st chains
    rw [if_neg hok] at htable ⊢
    exact ⟨hrows, List.nodup_nil, htable⟩

/-! ## When the registry is the table -/

theorem Mirrors.mem_iff {s : Ledger} {chains : List Chain} (h : Mirrors s chains)
    {chain : Chain} : s.table chain.id = some chain ↔ chain ∈ chains := by
  rw [h.table_eq, lookup_eq_some h.distinct]
  exact and_iff_left rfl

theorem Mirrors.allTidy_iff {s : Ledger} {chains : List Chain} (h : Mirrors s chains) :
    AllTidy s.table ↔ ∀ chain ∈ chains, Tidy chain.name := by
  constructor
  · intro htidy chain hmem
    exact htidy chain.id chain (h.mem_iff.mpr hmem)
  · intro htidy id chain hlookup
    rw [h.table_eq] at hlookup
    exact htidy chain (mem_of_lookup hlookup).1

/-- A registry of tidy names answers from the table. -/
theorem Mirrors.refines {s : Ledger} {chains : List Chain} (h : Mirrors s chains)
    (htidy : ∀ chain ∈ chains, Tidy chain.name) (crypto : Crypto) : Refines crypto s := by
  have hall : all s.storage = chains := by
    rw [h.rows.all_eq]
    exact (List.map_congr_left fun c hc => Chain.stored_eq_self.mpr (htidy c hc)).trans
      (List.map_id chains)
  have hlt : ∀ idx : UInt64, idx.toNat < chains.length ↔ ¬ count s.storage ≤ idx := by
    intro idx
    rw [UInt64.not_le, UInt64.lt_iff_toNat_lt, h.rows.count_toNat]
  have hrow : ∀ idx : UInt64, ∀ hidx : idx.toNat < chains.length,
      row s.storage idx = chains[idx.toNat] := by
    intro idx hidx
    have hread := h.rows.row_eq hidx
    rw [UInt64.ofNat_toNat, Chain.stored_eq_self.mpr (htidy _ (List.getElem_mem hidx))] at hread
    exact hread
  refine ⟨by rw [hall]; exact h.distinct, ?_, ?_, ?_, ?_, ?_⟩
  · intro id
    rw [Bridge.get, hall, h.table_eq]
  · intro chain
    rw [hall, List.Nodup.count h.distinct.of_map]
    exact if_congr h.mem_iff.symm rfl rfl
  · intro chain hchain
    obtain ⟨i, hi, rfl⟩ := List.getElem_of_mem (h.mem_iff.mp hchain)
    have hfew := h.rows.few
    have hidx : (UInt64.ofNat i).toNat = i := uint64_toNat_ofNat (by omega)
    refine ⟨UInt64.ofNat i, fun c hc => ?_⟩
    have hread := hrow (UInt64.ofNat i) (by rwa [hidx])
    simp only [hidx] at hread
    rw [run_getChain hc, if_neg ((hlt _).mp (by rwa [hidx])), hread]
  · intro c idx reply hc hreply
    rw [run_getChain hc] at hreply
    obtain ⟨hidx, hreply⟩ := refuse_eq_ok.mp hreply
    have hbound := (hlt idx).mpr hidx
    refine ⟨chains[idx.toNat], h.mem_iff.mpr (List.getElem_mem hbound), ?_⟩
    rw [← Except.ok.inj hreply, hrow idx hbound]
  · intro c idx hc hlength
    rw [hall] at hlength
    rw [run_getChain hc, if_pos]
    exact not_not.mp (mt (hlt idx).mpr (Nat.not_lt.mpr hlength))

theorem Mirrors.refines_iff {s : Ledger} {chains : List Chain} (h : Mirrors s chains)
    (crypto : Crypto) : Refines crypto s ↔ AllTidy s.table := by
  rw [h.allTidy_iff]
  refine ⟨fun hrefines chain hmem => ?_, fun htidy => h.refines htidy crypto⟩
  have hget := hrefines.get chain.id
  rw [h.rows.get_eq, ← h.table_eq, h.mem_iff.mpr hmem] at hget
  exact Chain.stored_eq_self.mp (Option.some.inj hget)

/-! ## Steps and runs -/

/-- A write that is not a registration names no new chain. -/
theorem AllTidy.update {table : ChainID → Option Chain} (h : AllTidy table) {req : Request}
    (hreq : ∀ chain, req = .register chain → Tidy chain.name) : AllTidy (req.update table) := by
  intro id chain hchain
  cases req with
  | register new =>
      by_cases hid : id = new.id
      · rw [Request.update, hid, Function.update_self] at hchain
        rw [← Option.some.inj hchain]
        exact hreq new rfl
      · rw [Request.update, Function.update_of_ne hid] at hchain
        exact h id chain hchain
  | unregister gone =>
      by_cases hid : id = gone
      · rw [Request.update, hid, Function.update_self] at hchain
        cases hchain
      · rw [Request.update, Function.update_of_ne hid] at hchain
        exact h id chain hchain
  | setGateway moved gw =>
      by_cases hid : id = moved
      · rw [Request.update, hid, Function.update_self, Option.map_eq_some_iff] at hchain
        obtain ⟨old, hold, rfl⟩ := hchain
        exact h moved old hold
      · rw [Request.update, Function.update_of_ne hid] at hchain
        exact h id chain hchain

theorem Executes.register_new {crypto : Crypto} {st : Storage} {c : Call} {chain : Chain}
    {payload : List UInt8} {sigs : List (List UInt8)} {st' : Storage}
    (h : Executes crypto st c ⟨.register chain, payload, sigs⟩ st') : get st chain.id = none := by
  obtain ⟨idx, happly⟩ := h.applied
  rw [Request.apply, registerChain] at happly
  simpa using (refuse_eq_ok.mp happly).1

/-- A step keeps the names tidy exactly when it is orderly. -/
theorem allTidy_record_iff {crypto : Crypto} {s : Ledger} (h : AllTidy s.table) (c : Call) :
    AllTidy (record crypto s c).table ↔ Orderly crypto s c := by
  rcases record_cases crypto s c with ⟨signed, st', hexec, hrecord⟩ | ⟨hidle, hrecord⟩
  · rw [hrecord]
    constructor
    · intro htidy chain payload sigs haccepted hnew
      obtain rfl : signed = ⟨.register chain, payload, sigs⟩ :=
        Option.some.inj (hexec.accepted.decoded.symm.trans haccepted.decoded)
      exact htidy chain.id chain (Function.update_self _ _ _)
    · intro horderly
      refine h.update fun chain hchain => ?_
      obtain ⟨req, payload, sigs⟩ := signed
      obtain rfl : req = .register chain := hchain
      exact horderly chain payload sigs hexec.accepted hexec.register_new
  · rw [hrecord]
    refine iff_of_true h fun chain payload sigs haccepted hnew => ?_
    obtain ⟨e, he⟩ := hidle.rejected _ haccepted
    rw [Request.apply, registerChain, hnew] at he
    cases he

theorem run_refines_iff {crypto : Crypto} {s : Ledger} {chains : List Chain}
    (h : Mirrors s chains) (calls : List Call) :
    (∀ pre, pre <+: calls → Refines crypto (pre.foldl (record crypto) s)) ↔
      AllTidy s.table ∧ Along (record crypto) (Orderly crypto) s calls := by
  induction calls generalizing s chains with
  | nil =>
      constructor
      · intro hruns
        exact ⟨(h.refines_iff crypto).mp (hruns [] List.nil_prefix), trivial⟩
      · rintro ⟨htidy, -⟩ pre hpre
        rw [List.prefix_nil.mp hpre]
        exact (h.refines_iff crypto).mpr htidy
  | cons c calls ih =>
      obtain ⟨chains', h'⟩ := h.record crypto c
      constructor
      · intro hruns
        have htidy := (h.refines_iff crypto).mp (hruns [] List.nil_prefix)
        have hrest := (ih h').mp fun pre hpre =>
          hruns (c :: pre) (List.cons_prefix_cons.mpr ⟨rfl, hpre⟩)
        exact ⟨htidy, (allTidy_record_iff htidy c).mp hrest.1, hrest.2⟩
      · rintro ⟨htidy, horderly, hcalls⟩ pre hpre
        rcases List.prefix_cons_iff.mp hpre with rfl | ⟨rest, rfl, hrest⟩
        · exact (h.refines_iff crypto).mpr htidy
        · exact (ih h').mpr ⟨(allTidy_record_iff htidy c).mpr horderly, hcalls⟩ rest hrest

/-- From any seed with distinct ids, the registry is the table of the chains registered
in every state of a run exactly when no name that is seeded or registered ends in a zero
byte. -/
theorem registry_refines_iff (crypto : Crypto) {st : Storage} (hempty : count st = 0)
    {chains : List Chain} (hids : DistinctKeys Chain.id chains) (calls : List Call) :
    (∀ pre, pre <+: calls → Refines crypto (pre.foldl (record crypto) (seeded st chains))) ↔
      ((∀ chain ∈ chains, chain.name.length ≤ 32) → ∀ chain ∈ chains, Tidy chain.name) ∧
        Along (record crypto) (Orderly crypto) (seeded st chains) calls := by
  have hmirrors := mirrors_seeded hempty hids
  rw [run_refines_iff hmirrors, hmirrors.allTidy_iff, ← seedRegistry_isOk hempty]
  by_cases hok : (seedRegistry st chains).2.isOk = true
  · simp [hok]
  · simp [hok]

/-- One operator, whose signatures are all accepted. -/
def oneSigner : Crypto := ⟨fun _ => 0, fun _ _ => some (4 :: List.replicate 64 0)⟩

/-- A storage governed by that operator. -/
def governed : Storage := seedOperators (Store.set (fun _ => 0) (.gov 0) (govHeader 1 1)) [0]

def luxAndZoo : List Chain :=
  [⟨96369, ascii ['L', 'u', 'x'], true, 7⟩, ⟨200200, ascii ['Z', 'o', 'o'], true, 8⟩]

/-- The signed call that registers a third chain. -/
def registerThird : Call where
  caller := 0
  input := selectorRegisterChain :: (uint32Bytes 36911 ++ (3 :: ascii ['S', 'P', 'C']) ++
    (1 :: addressBytes 9) ++ (1 :: List.replicate 65 0))
  gas := 70000
  readOnly := false

/-- The signed call that moves the gateway of the second chain. -/
def moveZoo : Call where
  caller := 0
  input := selectorSetGateway :: (uint32Bytes 200200 ++ addressBytes 10 ++
    (1 :: List.replicate 65 0))
  gas := 30000
  readOnly := false

theorem orderly_registerThird (s : Ledger) : Orderly oneSigner s registerThird := by
  intro chain payload sigs haccepted _
  have hdecoded : signedRequest registerThird.input =
      some ⟨.register ⟨36911, ascii ['S', 'P', 'C'], true, 9⟩, registerThird.input.tail.take 29,
        [List.replicate 65 0]⟩ := by
    decide +kernel
  have hsigned := Option.some.inj (hdecoded.symm.trans haccepted.decoded)
  have hchain := Request.register.inj (congrArg Signed.args hsigned)
  rw [← hchain]
  decide

theorem orderly_moveZoo (s : Ledger) : Orderly oneSigner s moveZoo := by
  intro chain payload sigs haccepted _
  have hdecoded : signedRequest moveZoo.input =
      some ⟨.setGateway 200200 10, moveZoo.input.tail.take 24, [List.replicate 65 0]⟩ := by
    decide +kernel
  have hsigned := Option.some.inj (hdecoded.symm.trans haccepted.decoded)
  cases congrArg Signed.args hsigned

/-- Two chains seeded, a third registered and the second moved to another gateway. -/
theorem seeded_chains_refine :
    Refines oneSigner
        ([registerThird, moveZoo].foldl (record oneSigner) (seeded governed luxAndZoo)) ∧
      all ([registerThird, moveZoo].foldl (record oneSigner) (seeded governed luxAndZoo)).storage =
        [⟨96369, ascii ['L', 'u', 'x'], true, 7⟩, ⟨200200, ascii ['Z', 'o', 'o'], true, 10⟩,
          ⟨36911, ascii ['S', 'P', 'C'], true, 9⟩] := by
  have hrefines : ∀ pre, pre <+: [registerThird, moveZoo] → Refines oneSigner
      (pre.foldl (record oneSigner) (seeded governed luxAndZoo)) :=
    (registry_refines_iff _ (by decide) (by simp [DistinctKeys, luxAndZoo]) _).mpr
      ⟨by decide, orderly_registerThird _, orderly_moveZoo _, trivial⟩
  exact ⟨hrefines _ List.prefix_rfl, by decide +kernel⟩

/-- A chain seeded under a name that ends in a zero byte is listed under another name. -/
theorem seeded_name_trimmed :
    ¬ ∀ (crypto : Crypto) (st : Storage), count st = 0 → ∀ chains,
      DistinctKeys Chain.id chains → ∀ calls pre, pre <+: calls →
        Refines crypto (pre.foldl (record crypto) (seeded st chains)) := by
  intro h
  have hrefines := h ⟨fun _ => 0, fun _ _ => none⟩ (fun _ => 0) (by decide)
    [⟨5, ascii ['a'] ++ [0], true, 7⟩] (by simp [DistinctKeys]) [] [] List.nil_prefix
  have hget := hrefines.get 5
  revert hget
  decide

end LuxPrecompile.Bridge
