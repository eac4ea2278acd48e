import LuxPrecompile.Ai.Mining

/-!
# Replay of mining claims

A mint spends the id of its claim, and a spent id stays spent.  So two mints never
share an id.  The id of a claim is derived from the payload and from the chain id
next to it; only the payload is signed.  A signed claim is therefore minted at most
once as long as it is always presented with the same replay key, and can be minted
again under another chain id.
-/

namespace LuxPrecompile.Ai

open Evm Support

/-! ## What a successful call did -/

theorem setValue_ne_zero : setValue ≠ 0 := by
  decide

theorem markSpent_ok {crypto : Crypto} {db db' : Storage} {id : Word}
    (h : markSpent crypto db id = .ok db') :
    isSpent crypto db id = false ∧
      db' = Function.update db (spentKey crypto id) setValue := by
  unfold markSpent at h
  split_ifs at h with hspent
  exact ⟨by simpa using hspent, by simpa using h.symm⟩

/-- What a settled claim passed, and what it wrote. -/
structure Settled (crypto : Crypto) (db db' : Storage) (c : Claim) : Prop where
  unspent : isSpent crypto db (c.id crypto) = false
  storage : db' = Function.update db (spentKey crypto (c.id crypto)) setValue
  proof : c.kind = .work → workProofMinSize ≤ c.payload.length ∧
    slice c.payload 0 32 = deviceIdOf crypto c.pubkey
  descriptor : c.kind = .data → dataContributionSize ≤ c.payload.length ∧
    descriptorSize c.payload ≤ maxDataSize ∧
    (privacyMultiplier (descriptorPrivacy c.payload)).isSome

theorem settleWork_ok {crypto : Crypto} {db db' : Storage} {c : Claim} {reward : ℕ}
    (hkind : c.kind = .work) (h : settleWork crypto db c = .ok (db', reward)) :
    Settled crypto db db' c := by
  simp only [settleWork, bind_eq_ok] at h
  obtain ⟨_, -, h⟩ := h
  by_cases hlength : c.payload.length < workProofMinSize
  · rw [if_pos hlength] at h
    cases h
  rw [if_neg hlength, bind_eq_ok] at h
  obtain ⟨_, -, h⟩ := h
  split_ifs at h with hdevice
  rw [mintWork, if_neg hlength] at h
  split_ifs at h with hspent
  simp only [bind_eq_ok, Except.ok.injEq, Prod.mk.injEq] at h
  obtain ⟨_, -, db1, hmark, rfl, -⟩ := h
  obtain ⟨hunspent, hstorage⟩ := markSpent_ok hmark
  exact ⟨hunspent, hstorage, fun _ => ⟨not_lt.mp hlength, not_not.mp hdevice⟩,
    fun hc => absurd (hkind.symm.trans hc) (by decide)⟩

theorem settleData_ok {crypto : Crypto} {db db' : Storage} {c : Claim} {reward : ℕ}
    (hkind : c.kind = .data) (h : settleData crypto db c = .ok (db', reward)) :
    Settled crypto db db' c := by
  simp only [settleData, bind_eq_ok] at h
  obtain ⟨_, -, h⟩ := h
  by_cases hlength : c.payload.length < dataContributionSize
  · rw [if_pos hlength] at h
    cases h
  rw [if_neg hlength, bind_eq_ok] at h
  obtain ⟨_, -, h⟩ := h
  rw [mintData, if_neg hlength] at h
  by_cases hlarge : maxDataSize < descriptorSize c.payload
  · rw [if_pos hlarge] at h
    cases h
  rw [if_neg hlarge] at h
  cases hprivacy : privacyMultiplier (descriptorPrivacy c.payload) with
  | none => simp [hprivacy] at h
  | some multiplier =>
      simp only [hprivacy] at h
      split_ifs at h with hspent
      simp only [bind_eq_ok, Except.ok.injEq, Prod.mk.injEq] at h
      obtain ⟨db1, hmark, rfl, -⟩ := h
      obtain ⟨hunspent, hstorage⟩ := markSpent_ok hmark
      exact ⟨hunspent, hstorage, fun hc => absurd (hkind.symm.trans hc) (by decide),
        fun _ => ⟨not_lt.mp hlength, not_lt.mp hlarge, by rw [hprivacy]; rfl⟩⟩

theorem settle_ok {crypto : Crypto} {db db' : Storage} {c : Claim} {reward : ℕ}
    (h : settle crypto db c = .ok (db', reward)) : Settled crypto db db' c := by
  cases hkind : c.kind with
  | work =>
      simp only [settle, hkind] at h
      exact settleWork_ok hkind h
  | data =>
      simp only [settle, hkind] at h
      exact settleData_ok hkind h

theorem parseTriple_kind {kind : Kind} {input : List UInt8} {c : Claim}
    (h : parseTriple kind input = .ok c) : c.kind = kind := by
  simp only [parseTriple, bind_eq_ok] at h
  obtain ⟨⟨_, _⟩, -, ⟨_, _⟩, -, ⟨_, _⟩, -, h⟩ := h
  simp only at h
  split_ifs at h
  simp only [Except.ok.injEq] at h
  rw [← h]

theorem runVerifyAndMint_ok {crypto : Crypto} {kind : Kind} {db db' : Storage}
    {input : List UInt8} {gas : ℕ} {readOnly : Bool} {reply : Reply}
    (h : runVerifyAndMint crypto kind db input gas readOnly = .ok (db', reply)) :
    ∃ c, parseTriple kind input = .ok c ∧ reply.mint = some c ∧
      Settled crypto db db' c := by
  unfold runVerifyAndMint at h
  split_ifs at h
  simp only [bind_eq_ok] at h
  obtain ⟨gas', -, c, hparse, ⟨db1, reward⟩, hsettle, h⟩ := h
  simp only [Except.ok.injEq, Prod.mk.injEq] at h
  obtain ⟨rfl, rfl⟩ := h
  exact ⟨c, hparse, rfl, settle_ok hsettle⟩

/-- A successful call is one of the selectors that write nothing, or settles the
claim it presents. -/
theorem run_cases {crypto : Crypto} {db db' : Storage} {r : Request} {reply : Reply}
    (h : run crypto db r = .ok (db', reply)) :
    db' = db ∧ reply.mint = none ∨
      ∃ c, r.claim = some c ∧ reply.mint = some c ∧ Settled crypto db db' c := by
  unfold run at h
  simp only at h
  split_ifs at h with hshort hmldsa hreward htee hspent hmark hid hwork hdata
  · left
    simp only [runVerifyMldsa, bind_eq_ok, Except.ok.injEq, Prod.mk.injEq] at h
    obtain ⟨_, -, ⟨_, _⟩, -, ⟨_, _⟩, -, ⟨_, _⟩, -, _, -, rfl, rfl⟩ := h
    exact ⟨rfl, rfl⟩
  · left
    simp only [runCalculateReward, bind_eq_ok] at h
    obtain ⟨_, -, h⟩ := h
    split_ifs at h
    simp only [bind_eq_ok, Except.ok.injEq, Prod.mk.injEq] at h
    obtain ⟨_, -, rfl, rfl⟩ := h
    exact ⟨rfl, rfl⟩
  · left
    simp only [runVerifyTee, bind_eq_ok, Except.ok.injEq, Prod.mk.injEq] at h
    obtain ⟨_, -, ⟨_, _⟩, -, ⟨_, _⟩, -, _, -, rfl, rfl⟩ := h
    exact ⟨rfl, rfl⟩
  · left
    simp only [runIsSpent, bind_eq_ok] at h
    obtain ⟨_, -, h⟩ := h
    split_ifs at h
    simp only [Except.ok.injEq, Prod.mk.injEq] at h
    obtain ⟨rfl, rfl⟩ := h
    exact ⟨rfl, rfl⟩
  · cases h
  · left
    simp only [runComputeWorkId, bind_eq_ok] at h
    obtain ⟨_, -, h⟩ := h
    split_ifs at h
    simp only [Except.ok.injEq, Prod.mk.injEq] at h
    obtain ⟨rfl, rfl⟩ := h
    exact ⟨rfl, rfl⟩
  · right
    obtain ⟨c, hparse, hmint, hsettled⟩ := runVerifyAndMint_ok h
    refine ⟨c, ?_, hmint, hsettled⟩
    simp only [Request.claim, if_pos hwork, hparse]
    rfl
  · right
    obtain ⟨c, hparse, hmint, hsettled⟩ := runVerifyAndMint_ok h
    refine ⟨c, ?_, hmint, hsettled⟩
    simp only [Request.claim, if_neg hwork, if_pos hdata, hparse]
    rfl

/-- One call of a run: nothing changes, or the claim it presents is settled. -/
theorem exec_cases (crypto : Crypto) (s : Execution) (r : Request) :
    exec crypto s r = s ∨
      ∃ c, r.claim = some c ∧ (exec crypto s r).2 = c :: s.2 ∧
        Settled crypto s.1 (exec crypto s r).1 c := by
  unfold exec
  match hrun : run crypto s.1 r with
  | .error e => exact Or.inl rfl
  | .ok (db, reply) =>
      obtain ⟨rfl, hmint⟩ | ⟨c, hclaim, hmint, hsettled⟩ := run_cases hrun
      · left
        simp [hmint]
      · right
        exact ⟨c, hclaim, by simp [hmint], hsettled⟩

theorem exec_of_ok {crypto : Crypto} {s : Execution} {r : Request} {db : Storage} {reply : Reply}
    (h : run crypto s.1 r = .ok (db, reply)) :
    exec crypto s r = (db, reply.mint.toList ++ s.2) := by
  rw [exec, h]

/-! ## The spent set only grows -/

theorem Settled.isSpent_self {crypto : Crypto} {db db' : Storage} {c : Claim}
    (h : Settled crypto db db' c) : isSpent crypto db' (c.id crypto) = true := by
  rw [isSpent, h.storage, Function.update_self]
  exact decide_eq_true setValue_ne_zero

theorem Settled.keeps_spent {crypto : Crypto} {db db' : Storage} {c : Claim}
    (h : Settled crypto db db' c) {id : Word} (hspent : isSpent crypto db id = true) :
    isSpent crypto db' id = true := by
  rw [isSpent, h.storage]
  by_cases hslot : spentKey crypto id = spentKey crypto (c.id crypto)
  · rw [hslot, Function.update_self]
    exact decide_eq_true setValue_ne_zero
  · rw [Function.update_of_ne hslot]
    exact hspent

theorem exec_keeps_spent {crypto : Crypto} {s : Execution} {r : Request} {id : Word}
    (h : isSpent crypto s.1 id = true) : isSpent crypto (exec crypto s r).1 id = true := by
  obtain hsame | ⟨c, -, -, hsettled⟩ := exec_cases crypto s r
  · rw [hsame]
    exact h
  · exact hsettled.keeps_spent h

/-- The ids of the claims settled so far are spent, each by one of them. -/
structure Once (crypto : Crypto) (s : Execution) : Prop where
  nodup : (s.2.map (Claim.id crypto)).Nodup
  spent : ∀ c ∈ s.2, isSpent crypto s.1 (c.id crypto) = true

theorem Once.exec {crypto : Crypto} {s : Execution} (h : Once crypto s) (r : Request) :
    Once crypto (Ai.exec crypto s r) := by
  obtain hsame | ⟨c, -, hmints, hsettled⟩ := exec_cases crypto s r
  · rw [hsame]
    exact h
  · constructor
    · rw [hmints, List.map_cons, List.nodup_cons]
      refine ⟨fun hmem => ?_, h.nodup⟩
      obtain ⟨c', hc', hid⟩ := List.mem_map.mp hmem
      have hspent := h.spent c' hc'
      rw [hid, hsettled.unspent] at hspent
      cases hspent
    · rw [hmints]
      intro c' hc'
      obtain rfl | hc' := List.mem_cons.mp hc'
      · exact hsettled.isSpent_self
      · exact hsettled.keeps_spent (h.spent c' hc')

theorem reachable_once (crypto : Crypto) (db : Storage) (requests : List Request) :
    Once crypto (runFrom crypto db requests) :=
  foldl_invariant (fun _ r hs => hs.exec r) requests
    ⟨List.nodup_nil, fun c hc => by cases hc⟩

/-! ## At most one mint of a signed claim -/

/-- What the miner signed, with the key and the signature. -/
def Claim.triple (c : Claim) : List UInt8 × List UInt8 × List UInt8 :=
  (c.payload, c.pubkey, c.signature)

/-- The mints of a signed triple. -/
def mintsOf (t : List UInt8 × List UInt8 × List UInt8) (mints : List Claim) : List Claim :=
  mints.filter fun c => decide (c.triple = t)

/-- Wherever the requests present the triple, they present it with one replay key:
the same bytes are hashed into the id. -/
def OneKey (requests : List Request) (t : List UInt8 × List UInt8 × List UInt8) : Prop :=
  ∀ r ∈ requests, ∀ r' ∈ requests, ∀ c c', r.claim = some c → r'.claim = some c' →
    c.triple = t → c'.triple = t → c.idBytes = c'.idBytes

/-- Every settled claim was presented by a request of the run. -/
theorem mint_presented (crypto : Crypto) (db : Storage) (requests : List Request) {c : Claim}
    (hc : c ∈ (runFrom crypto db requests).2) : ∃ r ∈ requests, r.claim = some c := by
  have hall : ∀ c ∈ (runFrom crypto db requests).2, ∃ r ∈ requests, r.claim = some c := by
    apply foldl_invariant_mem
      (P := fun s : Execution => ∀ c ∈ s.2, ∃ r ∈ requests, r.claim = some c)
    · intro s r hr hs c hc
      obtain hsame | ⟨c', hclaim, hmints, -⟩ := exec_cases crypto s r
      · rw [hsame] at hc
        exact hs c hc
      · rw [hmints] at hc
        obtain rfl | hc := List.mem_cons.mp hc
        · exact ⟨r, hr, hclaim⟩
        · exact hs c hc
    · intro c hc
      cases hc
  exact hall c hc

theorem length_le_one_of_ids (crypto : Crypto) {l : List Claim}
    (hnodup : (l.map (Claim.id crypto)).Nodup)
    (hsame : ∀ c ∈ l, ∀ c' ∈ l, c.id crypto = c'.id crypto) : l.length ≤ 1 := by
  match l, hnodup, hsame with
  | [], _, _ => exact Nat.zero_le 1
  | [_], _, _ => exact le_rfl
  | c :: c' :: rest, hnodup, hsame =>
      have hid := hsame c (by simp) c' (by simp)
      simp [hid] at hnodup

/-- For every run: a signed triple that is always presented with one replay key is
minted at most once; every id is spent by at most one mint and stays spent; and a
call that settles nothing changes nothing. -/
theorem minted_at_most_once (crypto : Crypto) (db : Storage) (requests : List Request) :
    (∀ t, OneKey requests t → (mintsOf t (runFrom crypto db requests).2).length ≤ 1) ∧
    ((runFrom crypto db requests).2.map (Claim.id crypto)).Nodup ∧
    (∀ c ∈ (runFrom crypto db requests).2,
      isSpent crypto (runFrom crypto db requests).1 (c.id crypto) = true) ∧
    (∀ r id, isSpent crypto (runFrom crypto db requests).1 id = true →
      isSpent crypto (exec crypto (runFrom crypto db requests) r).1 id = true) ∧
    (∀ r, (exec crypto (runFrom crypto db requests) r).2 = (runFrom crypto db requests).2 →
      (exec crypto (runFrom crypto db requests) r).1 = (runFrom crypto db requests).1) := by
  have honce := reachable_once crypto db requests
  refine ⟨fun t hkey => ?_, honce.nodup, honce.spent, fun r id => exec_keeps_spent,
    fun r hnone => ?_⟩
  · have hmem : ∀ c ∈ mintsOf t (runFrom crypto db requests).2,
        c ∈ (runFrom crypto db requests).2 ∧ c.triple = t := by
      intro c hc
      simpa [mintsOf] using hc
    have hsublist : (mintsOf t (runFrom crypto db requests).2).Sublist
        (runFrom crypto db requests).2 := List.filter_sublist
    apply length_le_one_of_ids crypto (honce.nodup.sublist (hsublist.map _))
    intro c hc c' hc'
    obtain ⟨hc, ht⟩ := hmem c hc
    obtain ⟨hc', ht'⟩ := hmem c' hc'
    obtain ⟨r, hr, hclaim⟩ := mint_presented crypto db requests hc
    obtain ⟨r', hr', hclaim'⟩ := mint_presented crypto db requests hc'
    rw [Claim.id, Claim.id, hkey r hr r' hr' c c' hclaim hclaim' ht ht']
  · obtain hsame | ⟨c, -, hmints, -⟩ := exec_cases crypto (runFrom crypto db requests) r
    · rw [hsame]
    · rw [hmints] at hnone
      exact absurd (congrArg List.length hnone) (by simp)

/-! ## A sample device -/

/-- A public key of the smallest size. -/
def sampleKey (b : UInt8) : List UInt8 := List.replicate 1312 b

/-- A signature of the matching size. -/
def sampleSignature : List UInt8 := List.replicate 2420 0x55

/-- The identities of two sample devices. -/
def sampleDevice : Word := 0x50d86a41c4b55cf4ca1e830af542e6b98164fd0b82819d4c59f0a8484288b88a

@[inherit_doc sampleDevice]
def otherDevice : Word := 0xa39d004e448ca4588bae03aacb2af7ea0acb0a6dee8df1849cc0f9f261eb6abd

/-- The hash on the byte strings of the samples. -/
def sampleHashes : List (List UInt8 × Word) :=
  [(sampleKey 0xA1, sampleDevice),
   (sampleKey 0xB1, otherDevice),
   (workIdBytes (hashBytes sampleDevice) (descriptorNonce 1 1) 1,
    0xdff94aea70727b72ab3b2beed001ecc9432c5de5f5d91ad540153f292ab588a8),
   (spentKeyBytes 0xdff94aea70727b72ab3b2beed001ecc9432c5de5f5d91ad540153f292ab588a8,
    0x071082ffb7255e453c00e511b98ae31484f7965bb7f16ff3e13b6781138fccc1),
   (workIdBytes (hashBytes sampleDevice) (descriptorNonce 1 1) 2,
    0x5856c8f665bd690967797eb33e66c6028c0417a67f91455441f8cbfe2b0bc897),
   (spentKeyBytes 0x5856c8f665bd690967797eb33e66c6028c0417a67f91455441f8cbfe2b0bc897,
    0x6bb90cee6dfec95e313a84c577d9069bcd239d6fcb344b9605492a5b5b13077a),
   (workIdBytes (hashBytes sampleDevice) (natToBytes 32 1) 1,
    0xa23015fc2bd4d79d5c0f9400464d9ec1370e3f99ae94cc782af92ab61f4133fa),
   (spentKeyBytes 0xa23015fc2bd4d79d5c0f9400464d9ec1370e3f99ae94cc782af92ab61f4133fa,
    0xca3ccad3cecf4c31d4a64c272763e73e03081876b8b12f6059edfd734ccf88ee),
   (sovereignKeyBytes sampleDevice,
    0xe684a261e34ecda7eecf1fb54d15e6e191b48f298fc87a6bf86f73c050c56e69),
   (sovereignKeyBytes otherDevice,
    0x627b9612ef29bad32e49dec64f3a9212b7aa9220055709e7027d2ea8a1d86cb1)]

/-- The libraries on the samples: the devices are certified and their signatures
valid. -/
def sampleCrypto : Crypto where
  blake3 bs := ((sampleHashes.find? fun entry => entry.1 = bs).map Prod.snd).getD 0
  mldsa _ _ signature := some (decide (signature = sampleSignature))
  certifies _ _ _ := some true

/-- The attestation envelope of a device. -/
def sampleEnvelope (device : Word) : List UInt8 :=
  [0, 0, 0, 1, 7] ++ hashBytes device ++ natToBytes 16 0 ++ [0]

/-- An hour of public work by the sample device. -/
def sampleProof (nonce : List UInt8) : List UInt8 :=
  hashBytes sampleDevice ++ nonce ++ natToBytes 8 0 ++ natToBytes 2 1 ++ natToBytes 4 60 ++
    sampleEnvelope sampleDevice

/-- A length-prefixed blob. -/
def prefixed (bs : List UInt8) : List UInt8 := natToBytes 4 bs.length ++ bs

/-- A mint call. -/
def mintCall (selector : ℕ) (payload pubkey : List UInt8) (chainId : ℕ) : Request where
  caller := 7
  input := natToBytes 4 selector ++ prefixed payload ++ prefixed pubkey ++
    prefixed sampleSignature ++ natToBytes 8 chainId
  gas := 20000
  readOnly := false

/-- A length-prefixed blob is read back with what follows it. -/
theorem blob_prefixed {bs rest : List UInt8} (h : bs.length < 256 ^ 4) :
    blob (prefixed bs ++ rest) = .ok (bs, rest) := by
  have hcount : (natToBytes 4 bs.length).length = 4 := natToBytes_length _ _
  have hdrop : (prefixed bs ++ rest).drop 4 = bs ++ rest := by
    rw [prefixed, List.append_assoc, List.drop_left' hcount]
  have hread : bytesToNat ((prefixed bs ++ rest).take 4) = bs.length := by
    rw [prefixed, List.append_assoc, List.take_left' hcount, bytesToNat_natToBytes h]
  have hlong : ¬ (prefixed bs ++ rest).length < 4 := by
    rw [prefixed, List.length_append, List.length_append, hcount]
    omega
  have hthere : ¬ (bs ++ rest).length < bs.length := by
    rw [List.length_append]
    omega
  rw [blob, if_neg hlong]
  simp only [hdrop, hread]
  rw [if_neg hthere, List.take_left' rfl, List.drop_left' rfl]

section MintCall

variable {crypto : Crypto} {payload pubkey : List UInt8} {chainId : ℕ}

/-- A mint call presents the claim that it is made for. -/
theorem mintCall_parse (selector : ℕ) (kind : Kind) (hpayload : payload.length < 256 ^ 4)
    (hpubkey : pubkey.length < 256 ^ 4) (hchain : chainId < 256 ^ 8) :
    parseTriple kind ((mintCall selector payload pubkey chainId).input.drop 4) =
      .ok ⟨kind, payload, pubkey, sampleSignature, chainId⟩ := by
  have hdrop : (mintCall selector payload pubkey chainId).input.drop 4 =
      prefixed payload ++ (prefixed pubkey ++ (prefixed sampleSignature ++
        natToBytes 8 chainId)) := by
    simp only [mintCall, List.append_assoc]
    exact List.drop_left' (natToBytes_length _ _)
  have hsignature : sampleSignature.length < 256 ^ 4 := by
    rw [sampleSignature, List.length_replicate]
    norm_num
  have hword : (natToBytes 8 chainId).length = 8 := natToBytes_length _ _
  rw [hdrop, parseTriple]
  refine bind_eq_ok.mpr ⟨_, blob_prefixed hpayload, ?_⟩
  refine bind_eq_ok.mpr ⟨_, blob_prefixed hpubkey, ?_⟩
  refine bind_eq_ok.mpr ⟨_, blob_prefixed hsignature, ?_⟩
  dsimp only
  rw [if_neg (by omega), List.take_of_length_le (le_of_eq hword), bytesToNat_natToBytes hchain]

theorem mintCall_selector {selector : ℕ} (hselector : selector < 256 ^ 4) :
    bytesToNat ((mintCall selector payload pubkey chainId).input.take 4) = selector := by
  have hfour : (natToBytes 4 selector).length = 4 := natToBytes_length _ _
  simp only [mintCall, List.append_assoc]
  rw [List.take_left' hfour, bytesToNat_natToBytes hselector]

/-- A mint call settles the claim that it is made for. -/
theorem run_mintCall {selector : ℕ} {kind : Kind}
    (hselector : kind = .work ∧ selector = selVerifyAndMintWork ∨
      kind = .data ∧ selector = selVerifyAndMintData)
    (hpayload : payload.length < 256 ^ 4) (hpubkey : pubkey.length < 256 ^ 4)
    (hchain : chainId < 256 ^ 8) (db : Storage) :
    run crypto db (mintCall selector payload pubkey chainId) =
      (settle crypto db ⟨kind, payload, pubkey, sampleSignature, chainId⟩).map fun out =>
        (out.1, ⟨uintWord out.2, 6000,
          some ⟨kind, payload, pubkey, sampleSignature, chainId⟩⟩) := by
  have hlong : ¬ (mintCall selector payload pubkey chainId).input.length < 4 := by
    simp only [mintCall, List.length_append, natToBytes_length]
    omega
  have hrun : run crypto db (mintCall selector payload pubkey chainId) =
      runVerifyAndMint crypto kind db ((mintCall selector payload pubkey chainId).input.drop 4)
        20000 false := by
    rw [run, if_neg hlong]
    dsimp only
    rcases hselector with ⟨rfl, rfl⟩ | ⟨rfl, rfl⟩
    · rw [mintCall_selector (by decide)]
      rfl
    · rw [mintCall_selector (by decide)]
      rfl
  have hgas : chargeGas Error.outOfGas 20000 gasVerifyAndMint = .ok 6000 := by decide
  rw [hrun, runVerifyAndMint, if_neg (by simp), hgas,
    mintCall_parse selector kind hpayload hpubkey hchain]
  change (settle crypto db _ >>= _) = _
  rcases settle crypto db ⟨kind, payload, pubkey, sampleSignature, chainId⟩ with e | out
  · rfl
  · rfl

end MintCall

/-- The sample work claim, presented for a chain. -/
def sampleMint (chainId : ℕ) : Request :=
  mintCall selVerifyAndMintWork (sampleProof (descriptorNonce 1 1)) (sampleKey 0xA1) chainId

/-- What the sample device signed. -/
def sampleTriple : List UInt8 × List UInt8 × List UInt8 :=
  (sampleProof (descriptorNonce 1 1), sampleKey 0xA1, sampleSignature)

/-- Presented twice for one chain, the sample claim is minted once. -/
theorem minted_at_most_once_sample :
    OneKey [sampleMint 1, sampleMint 1] sampleTriple ∧
    (mintsOf sampleTriple
      (runFrom sampleCrypto (fun _ => 0) [sampleMint 1, sampleMint 1]).2).length ≤ 1 := by
  have hkey : OneKey [sampleMint 1, sampleMint 1] sampleTriple := by
    intro r hr r' hr' c c' hc hc' _ _
    have hr1 : r = sampleMint 1 := by simpa using hr
    have hr2 : r' = sampleMint 1 := by simpa using hr'
    rw [hr1] at hc
    rw [hr2, hc] at hc'
    rw [Option.some.inj hc']
  exact ⟨hkey, (minted_at_most_once sampleCrypto (fun _ => 0) [sampleMint 1, sampleMint 1]).1
    sampleTriple hkey⟩

theorem deviceIdOf_sample :
    deviceIdOf sampleCrypto (sampleKey 0xA1) = hashBytes sampleDevice ∧
      deviceIdOf sampleCrypto (sampleKey 0xB1) = hashBytes otherDevice := by
  have hsample : sampleCrypto.blake3 (sampleKey 0xA1) = sampleDevice := by decide +kernel
  have hother : sampleCrypto.blake3 (sampleKey 0xB1) = otherDevice := by decide +kernel
  rw [deviceIdOf, deviceIdOf, hsample, hother]
  exact ⟨rfl, rfl⟩

/-- The envelope of a device binds a key of that device. -/
theorem verifyDeviceBinding_sample {pubkey : List UInt8} {device : Word}
    (hdevice : deviceIdOf sampleCrypto pubkey = hashBytes device) :
    verifyDeviceBinding sampleCrypto pubkey (sampleEnvelope device) = .ok () := by
  have hlength : (hashBytes device).length = 32 := hashBytes_length device
  have hbody : (sampleEnvelope device).drop 5 = hashBytes device ++ (natToBytes 16 0 ++ [0]) := by
    simp [sampleEnvelope]
  have hcount : bytesToNat ((sampleEnvelope device).take 4) = 1 := rfl
  have henvelope : (sampleEnvelope device).length = 54 := by
    simp [sampleEnvelope, hlength]
  have hreceipt : (hashBytes device ++ (natToBytes 16 0 ++ [0])).length = 49 := by
    simp [hlength]
  have htrusted : verifyAttestation sampleCrypto (hashBytes device ++ (natToBytes 16 0 ++ [0]))
      (slice (sampleEnvelope device) 4 5) = .ok true := by
    have hsignature : (slice (sampleEnvelope device) 4 5).length = 1 := rfl
    rw [verifyAttestation, hreceipt, hsignature, List.length_drop, hreceipt]
    rfl
  rw [verifyDeviceBinding, henvelope, hcount]
  dsimp only
  rw [if_neg (by decide), if_neg (by decide), hbody]
  refine bind_eq_ok.mpr ⟨true, htrusted, ?_⟩
  rw [if_neg (by simp), List.take_left' hlength, if_neg (not_not.mpr hdevice.symm)]

theorem checkSignature_sample (kind : Kind) (payload : List UInt8) (b : UInt8) (chainId : ℕ) :
    checkSignature sampleCrypto ⟨kind, payload, sampleKey b, sampleSignature, chainId⟩ =
      .ok () := by
  have hsize : signatureSize (sampleKey b).length = some 2420 := by
    rw [sampleKey, List.length_replicate]
    rfl
  have hlength : sampleSignature.length = 2420 := List.length_replicate
  have hvalid : verifyMldsa sampleCrypto (sampleKey b) payload sampleSignature = .ok true := by
    rw [verifyMldsa, hsize]
    simp [hlength, sampleCrypto]
  rw [checkSignature]
  exact bind_eq_ok.mpr ⟨true, hvalid, rfl⟩

/-- The sample claim, for a chain. -/
def sampleClaim (chainId : ℕ) : Claim :=
  ⟨.work, sampleProof (descriptorNonce 1 1), sampleKey 0xA1, sampleSignature, chainId⟩

theorem sampleClaim_payload (chainId : ℕ) :
    (sampleClaim chainId).payload = sampleProof (descriptorNonce 1 1) := rfl

theorem sampleClaim_idBytes (chainId : ℕ) : (sampleClaim chainId).idBytes =
    workIdBytes (hashBytes sampleDevice) (descriptorNonce 1 1) chainId := by
  have hdevice : slice (sampleProof (descriptorNonce 1 1)) 0 32 = hashBytes sampleDevice := by
    decide
  have hnonce : slice (sampleProof (descriptorNonce 1 1)) 32 64 = descriptorNonce 1 1 := by
    decide
  rw [Claim.idBytes]
  dsimp only [sampleClaim]
  rw [hdevice, hnonce]

/-- The sample claim passes its checks. -/
theorem settle_sampleClaim (db : Storage) (chainId : ℕ) :
    settle sampleCrypto db (sampleClaim chainId) =
      mintWork sampleCrypto db (sampleClaim chainId) := by
  have hlength : ¬ (sampleProof (descriptorNonce 1 1)).length < workProofMinSize := by
    decide +kernel
  have hdevice : slice (sampleProof (descriptorNonce 1 1)) 0 32 =
      deviceIdOf sampleCrypto (sampleKey 0xA1) := by
    rw [deviceIdOf_sample.1]
    decide
  have hgate : trustGate sampleCrypto db (sampleClaim chainId)
      (proofPrivacy (sampleProof (descriptorNonce 1 1))) workProofMinSize = .ok () := by
    have hpublic : proofPrivacy (sampleProof (descriptorNonce 1 1)) = 1 := by decide
    have hlong : ¬ (sampleProof (descriptorNonce 1 1)).length ≤ workProofMinSize := by
      decide +kernel
    have henvelope : (sampleProof (descriptorNonce 1 1)).drop workProofMinSize =
        sampleEnvelope sampleDevice := by
      decide
    rw [trustGate, hpublic, if_neg (by decide), sampleClaim, if_neg hlong, henvelope]
    exact verifyDeviceBinding_sample deviceIdOf_sample.1
  have hsigned := checkSignature_sample .work (sampleProof (descriptorNonce 1 1)) 0xA1 chainId
  rw [settle, sampleClaim]
  dsimp only
  rw [settleWork, hsigned]
  simp only [bind, Except.bind]
  rw [if_neg hlength]
  rw [sampleClaim] at hgate
  rw [hgate]
  dsimp only
  rw [if_neg (not_not.mpr hdevice)]

/-- Where its id is not spent, the sample claim is minted. -/
theorem mintWork_sampleClaim {db : Storage} {chainId : ℕ}
    (hspent : isSpent sampleCrypto db ((sampleClaim chainId).id sampleCrypto) = false) :
    mintWork sampleCrypto db (sampleClaim chainId) = .ok (Function.update db
      (spentKey sampleCrypto ((sampleClaim chainId).id sampleCrypto)) setValue, 15 * 10 ^ 18) := by
  have hlength : ¬ (sampleProof (descriptorNonce 1 1)).length < workProofMinSize := by
    decide +kernel
  have hreward : calculateReward (sampleProof (descriptorNonce 1 1)) = .ok (15 * 10 ^ 18) := by
    decide +kernel
  have hmark : markSpent sampleCrypto db ((sampleClaim chainId).id sampleCrypto) =
      .ok (Function.update db
        (spentKey sampleCrypto ((sampleClaim chainId).id sampleCrypto)) setValue) := by
    rw [markSpent, hspent, if_neg (by simp)]
  rw [mintWork, sampleClaim_payload, if_neg hlength, hspent, if_neg (by simp)]
  refine bind_eq_ok.mpr ⟨_, hreward, ?_⟩
  exact bind_eq_ok.mpr ⟨_, hmark, rfl⟩

theorem sampleKey_length (b : UInt8) : (sampleKey b).length < 256 ^ 4 := by
  rw [sampleKey, List.length_replicate]
  norm_num

theorem run_sampleMint {chainId : ℕ} (hchain : chainId < 256 ^ 8) (db : Storage) :
    run sampleCrypto db (sampleMint chainId) =
      (mintWork sampleCrypto db (sampleClaim chainId)).map fun out =>
        (out.1, ⟨uintWord out.2, 6000, some (sampleClaim chainId)⟩) := by
  have hpayload : (sampleProof (descriptorNonce 1 1)).length < 256 ^ 4 := by decide +kernel
  have hclaim : (⟨.work, sampleProof (descriptorNonce 1 1), sampleKey 0xA1, sampleSignature,
      chainId⟩ : Claim) = sampleClaim chainId := rfl
  rw [sampleMint, run_mintCall (.inl ⟨rfl, rfl⟩) hpayload (sampleKey_length _) hchain, hclaim,
    settle_sampleClaim]

theorem exec_sampleMint {s : Execution} {chainId : ℕ} (hchain : chainId < 256 ^ 8)
    (hspent : isSpent sampleCrypto s.1 ((sampleClaim chainId).id sampleCrypto) = false) :
    exec sampleCrypto s (sampleMint chainId) =
      (Function.update s.1 (spentKey sampleCrypto ((sampleClaim chainId).id sampleCrypto))
        setValue, sampleClaim chainId :: s.2) := by
  have hrun : run sampleCrypto s.1 (sampleMint chainId) = .ok (Function.update s.1
      (spentKey sampleCrypto ((sampleClaim chainId).id sampleCrypto)) setValue,
        ⟨uintWord (15 * 10 ^ 18 : ℕ), 6000, some (sampleClaim chainId)⟩) := by
    rw [run_sampleMint hchain, mintWork_sampleClaim hspent]
    dsimp only [Except.map]
  exact exec_of_ok hrun

/-- Presented for two chains, it is minted twice. -/
theorem minted_twice :
    (mintsOf sampleTriple
      (runFrom sampleCrypto (fun _ => 0) [sampleMint 1, sampleMint 2]).2).length = 2 := by
  have hfirst : exec sampleCrypto (fun _ => 0, []) (sampleMint 1) =
      (Function.update (fun _ => 0) (spentKey sampleCrypto ((sampleClaim 1).id sampleCrypto))
        setValue, [sampleClaim 1]) := exec_sampleMint (by norm_num) rfl
  have hslot : spentKey sampleCrypto ((sampleClaim 2).id sampleCrypto) ≠
      spentKey sampleCrypto ((sampleClaim 1).id sampleCrypto) := by
    rw [Claim.id, Claim.id, sampleClaim_idBytes, sampleClaim_idBytes]
    decide
  have hspent : isSpent sampleCrypto (Function.update (fun _ => 0)
      (spentKey sampleCrypto ((sampleClaim 1).id sampleCrypto)) setValue)
        ((sampleClaim 2).id sampleCrypto) = false := by
    rw [isSpent, Function.update_of_ne hslot]
    rfl
  rw [runFrom, List.foldl_cons, List.foldl_cons, List.foldl_nil, hfirst,
    exec_sampleMint (by norm_num) hspent]
  simp [mintsOf, Claim.triple, sampleClaim, sampleTriple]

end LuxPrecompile.Ai
