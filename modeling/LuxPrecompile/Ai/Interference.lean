import LuxPrecompile.Ai.Replay

/-!
# Interference between miners

What a mint of one miner can do to a later work mint of another.  A work mint reads
two words of storage, the spent entry of its id and the authorisation of its key,
and a mint writes one, the spent entry of its own id.  Ids of work mints start with
the miner's device; ids of data mints start with a hash their signer chooses, so
they are kept apart from a work id only by its nonce.
-/

namespace LuxPrecompile.Ai

open Evm Support

/-! ## What a work mint reads -/

/-- Two storages agree on what the settlement of a work claim reads: whether its key
is authorised and, for a proof that names its own device, whether its id is spent. -/
structure Agree (crypto : Crypto) (c : Claim) (db db' : Storage) : Prop where
  sovereign : db' (sovereignKey crypto (crypto.blake3 c.pubkey)) =
    db (sovereignKey crypto (crypto.blake3 c.pubkey))
  spent : workProofMinSize ≤ c.payload.length →
    slice c.payload 0 32 = deviceIdOf crypto c.pubkey →
    db' (spentKey crypto (c.id crypto)) = db (spentKey crypto (c.id crypto))

/-- The result of a call without the storage it leaves. -/
def outcome {α : Type} (x : Except Error (Storage × α)) : Except Error α := x.map Prod.snd

theorem outcome_bind {α β : Type} (x : Except Error α) (f : α → Except Error (Storage × β)) :
    outcome (x >>= f) = x >>= fun a => outcome (f a) := by
  cases x with
  | error e => rfl
  | ok a => rfl

theorem outcome_bind_congr {α β : Type} {x y : Except Error α}
    {f g : α → Except Error (Storage × β)} (hxy : x = y)
    (h : ∀ a, outcome (f a) = outcome (g a)) : outcome (x >>= f) = outcome (y >>= g) := by
  rw [hxy, outcome_bind, outcome_bind]
  cases y with
  | error e => rfl
  | ok a => exact h a

theorem outcome_reply {α β : Type} (x : Except Error (Storage × α)) (f : α → β) :
    outcome (do
      let (db, a) ← x
      .ok (db, f a)) = (outcome x).map f := by
  cases x with
  | error e => rfl
  | ok p => rfl

theorem mintWork_congr {crypto : Crypto} {c : Claim} {db db' : Storage}
    (h : db' (spentKey crypto (c.id crypto)) = db (spentKey crypto (c.id crypto))) :
    outcome (mintWork crypto db' c) = outcome (mintWork crypto db c) := by
  have hspent : isSpent crypto db' (c.id crypto) = isSpent crypto db (c.id crypto) := by
    unfold isSpent
    rw [h]
  unfold mintWork
  rw [hspent]
  split_ifs
  · rfl
  · rfl
  · apply outcome_bind_congr rfl
    intro reward
    unfold markSpent
    rw [hspent]
    split_ifs
    rfl

theorem settleWork_congr {crypto : Crypto} {c : Claim} {db db' : Storage}
    (h : Agree crypto c db db') :
    outcome (settleWork crypto db' c) = outcome (settleWork crypto db c) := by
  have hgate : trustGate crypto db' c (proofPrivacy c.payload) workProofMinSize =
      trustGate crypto db c (proofPrivacy c.payload) workProofMinSize := by
    unfold trustGate isSovereignAuthorized
    rw [h.sovereign]
  unfold settleWork
  apply outcome_bind_congr rfl
  intro _
  by_cases hlength : c.payload.length < workProofMinSize
  · rw [if_pos hlength, if_pos hlength]
  rw [if_neg hlength, if_neg hlength]
  apply outcome_bind_congr hgate
  intro _
  by_cases hdevice : slice c.payload 0 32 = deviceIdOf crypto c.pubkey
  · rw [if_neg (not_not.mpr hdevice), if_neg (not_not.mpr hdevice)]
    exact mintWork_congr (h.spent (not_lt.mp hlength) hdevice)
  · rw [if_pos hdevice, if_pos hdevice]

/-- A request that presents a work claim has the same outcome on storages that agree
on it. -/
theorem run_congr {crypto : Crypto} {r : Request} {c : Claim} (hclaim : r.claim = some c)
    (hkind : c.kind = .work) {db db' : Storage} (h : Agree crypto c db db') :
    outcome (run crypto db' r) = outcome (run crypto db r) := by
  have hselector : bytesToNat (r.input.take 4) = selVerifyAndMintWork ∧
      parseTriple .work (r.input.drop 4) = .ok c := by
    unfold Request.claim at hclaim
    simp only at hclaim
    split_ifs at hclaim with hwork hdata
    · cases hparse : parseTriple .work (r.input.drop 4) with
      | error e => simp [hparse, Except.toOption] at hclaim
      | ok c' =>
          simp only [hparse, Except.toOption, Option.some.injEq] at hclaim
          exact ⟨hwork, by rw [hclaim]⟩
    · cases hparse : parseTriple .data (r.input.drop 4) with
      | error e => simp [hparse, Except.toOption] at hclaim
      | ok c' =>
          simp only [hparse, Except.toOption, Option.some.injEq] at hclaim
          rw [← hclaim, parseTriple_kind hparse] at hkind
          cases hkind
  have hmint : ∀ db, run crypto db r =
      if r.input.length < 4 then .error .inputTooShort
      else runVerifyAndMint crypto .work db (r.input.drop 4) r.gas r.readOnly := by
    intro db
    simp [run, hselector.1, selVerifyAndMintWork, selVerifyMldsa, selCalculateReward,
      selVerifyTee, selIsSpent, selMarkSpent, selComputeWorkId]
  rw [hmint, hmint]
  by_cases hshort : r.input.length < 4
  · rw [if_pos hshort, if_pos hshort]
  rw [if_neg hshort, if_neg hshort]
  unfold runVerifyAndMint
  by_cases hreadOnly : r.readOnly = true
  · rw [if_pos hreadOnly, if_pos hreadOnly]
  rw [if_neg hreadOnly, if_neg hreadOnly]
  apply outcome_bind_congr rfl
  intro gas
  have hsettle : ∀ db, settle crypto db c = settleWork crypto db c := by
    intro db
    simp only [settle, hkind]
  rw [hselector.2]
  refine (outcome_reply (settle crypto db' c)
    (fun reward : ℕ => (⟨uintWord reward, gas, some c⟩ : Reply))).trans ?_
  refine Eq.trans ?_ (outcome_reply (settle crypto db c)
    (fun reward : ℕ => (⟨uintWord reward, gas, some c⟩ : Reply))).symm
  rw [hsettle, hsettle, settleWork_congr h]

/-! ## What a mint writes -/

/-- The byte strings the settlement of a claim hashes. -/
def Claim.hashed (crypto : Crypto) (c : Claim) : List (List UInt8) :=
  [c.pubkey, c.idBytes, spentKeyBytes (c.id crypto),
    sovereignKeyBytes (crypto.blake3 c.pubkey)]

/-- The hash has no collision among the byte strings these requests make it hash. -/
def CollisionFree (crypto : Crypto) (requests : List Request) : Prop :=
  NoCollisions crypto.blake3 ((requests.filterMap Request.claim).flatMap (Claim.hashed crypto))

/-- The nonce reads as the size and privacy level of an admitted descriptor. -/
def DescriptorShaped (nonce : List UInt8) : Prop :=
  ∃ size privacy, size ≤ maxDataSize ∧ (privacyMultiplier privacy).isSome ∧
    nonce = descriptorNonce size privacy

section Separation

variable {crypto : Crypto} {c b : Claim}

theorem workIdBytes_inj {d d' n n' : List UInt8} {i j : ℕ} (hd : d.length = d'.length)
    (hn : n.length = n'.length) (h : workIdBytes d n i = workIdBytes d' n' j) :
    d = d' ∧ n = n' := by
  unfold workIdBytes at h
  have hcut := (List.append_inj h (by simp [hd, hn])).1
  exact List.append_inj hcut hd

theorem spentKeyBytes_inj {i j : Word} (h : spentKeyBytes i = spentKeyBytes j) : i = j := by
  have hbytes := List.append_cancel_left h
  have hnat := natToBytes_inj (by have := i.isLt; omega) (by have := j.isLt; omega) hbytes
  exact BitVec.eq_of_toNat_eq hnat

theorem spentKeyBytes_ne (i j : Word) : spentKeyBytes i ≠ sovereignKeyBytes j := by
  intro h
  have htag := (List.append_inj h (by rfl)).1
  exact absurd htag (by decide)

theorem deviceIdOf_inj {k k' : List UInt8} (h : deviceIdOf crypto k = deviceIdOf crypto k') :
    crypto.blake3 k = crypto.blake3 k' :=
  BitVec.eq_of_toNat_eq (natToBytes_inj (by have := (crypto.blake3 k).isLt; omega)
    (by have := (crypto.blake3 k').isLt; omega) h)

theorem slice_length {bs : List UInt8} {i j : ℕ} (h : j ≤ bs.length) :
    (slice bs i j).length = j - i := by
  unfold slice
  rw [List.length_take, List.length_drop]
  omega

/-- A settled claim of another key has another id than a work claim whose nonce does
not read as a descriptor. -/
theorem Settled.idBytes_ne {db db' : Storage} (hb : Settled crypto db db' b)
    (hkey : crypto.blake3 b.pubkey ≠ crypto.blake3 c.pubkey) (hkind : c.kind = .work)
    (hlength : workProofMinSize ≤ c.payload.length)
    (hdevice : slice c.payload 0 32 = deviceIdOf crypto c.pubkey)
    (hnonce : ¬DescriptorShaped (slice c.payload 32 64)) : b.idBytes ≠ c.idBytes := by
  intro hid
  have hc0 : (slice c.payload 0 32).length = 32 := slice_length (by
    unfold workProofMinSize at hlength; omega)
  have hc1 : (slice c.payload 32 64).length = 32 := slice_length (by
    unfold workProofMinSize at hlength; omega)
  cases hb' : b.kind with
  | work =>
      obtain ⟨hlong, hown⟩ := hb.proof hb'
      unfold workProofMinSize at hlong
      simp only [Claim.idBytes, hb', hkind] at hid
      obtain ⟨hd, -⟩ := workIdBytes_inj
        (by rw [hc0, slice_length (by omega)])
        (by rw [hc1, slice_length (by omega)]) hid
      rw [hown, hdevice] at hd
      exact hkey (deviceIdOf_inj hd)
  | data =>
      obtain ⟨hlong, hsize, hprivacy⟩ := hb.descriptor hb'
      unfold dataContributionSize at hlong
      simp only [Claim.idBytes, hb', hkind] at hid
      obtain ⟨-, hn⟩ := workIdBytes_inj
        (by rw [hc0, slice_length (by omega)])
        (by rw [hc1]; simp [descriptorNonce]) hid
      exact hnonce ⟨_, _, hsize, hprivacy, hn.symm⟩

end Separation

/-! ## A later mint is not affected -/

theorem CollisionFree.apply {crypto : Crypto} {requests : List Request}
    (h : CollisionFree crypto requests) {r r' : Request} (hr : r ∈ requests)
    (hr' : r' ∈ requests) {c c' : Claim} (hc : r.claim = some c) (hc' : r'.claim = some c')
    {x y : List UInt8} (hx : x ∈ c.hashed crypto) (hy : y ∈ c'.hashed crypto)
    (hxy : x ≠ y) : crypto.blake3 x ≠ crypto.blake3 y := by
  intro hhash
  refine hxy (h x ?_ y ?_ hhash)
  · exact List.mem_flatMap.mpr ⟨c, List.mem_filterMap.mpr ⟨r, hr, hc⟩, hx⟩
  · exact List.mem_flatMap.mpr ⟨c', List.mem_filterMap.mpr ⟨r', hr', hc'⟩, hy⟩

/-- A mint by another key leaves what a work claim reads as it was. -/
theorem Settled.agree {crypto : Crypto} {requests : List Request}
    (hfree : CollisionFree crypto requests) {r r' : Request} (hr : r ∈ requests)
    (hr' : r' ∈ requests) {b c : Claim} (hb : r.claim = some b) (hc : r'.claim = some c)
    (hkey : b.pubkey ≠ c.pubkey) (hkind : c.kind = .work)
    (hnonce : ¬DescriptorShaped (slice c.payload 32 64)) {db db' : Storage}
    (hsettled : Settled crypto db db' b) : Agree crypto c db db' := by
  have hdevice : crypto.blake3 b.pubkey ≠ crypto.blake3 c.pubkey :=
    hfree.apply hr hr' hb hc (by simp [Claim.hashed]) (by simp [Claim.hashed]) hkey
  constructor
  · have hslot : sovereignKey crypto (crypto.blake3 c.pubkey) ≠
        spentKey crypto (b.id crypto) :=
      hfree.apply hr' hr hc hb (by simp [Claim.hashed]) (by simp [Claim.hashed])
        (spentKeyBytes_ne _ _).symm
    rw [hsettled.storage, Function.update_of_ne hslot]
  · intro hlength hown
    have hbytes := hsettled.idBytes_ne hdevice hkind hlength hown hnonce
    have hid : b.id crypto ≠ c.id crypto :=
      hfree.apply hr hr' hb hc (by simp [Claim.hashed]) (by simp [Claim.hashed]) hbytes
    have hslot : spentKey crypto (c.id crypto) ≠ spentKey crypto (b.id crypto) :=
      hfree.apply hr' hr hc hb (by simp [Claim.hashed]) (by simp [Claim.hashed])
        (fun heq => hid (spentKeyBytes_inj heq).symm)
    rw [hsettled.storage, Function.update_of_ne hslot]

theorem Agree.trans {crypto : Crypto} {c : Claim} {db db' db'' : Storage}
    (h : Agree crypto c db db') (h' : Agree crypto c db' db'') : Agree crypto c db db'' where
  sovereign := h'.sovereign.trans h.sovereign
  spent hlength hdevice := (h'.spent hlength hdevice).trans (h.spent hlength hdevice)

/-- Whatever calls signed by another key come first, a work claim whose nonce does not
read as the size and privacy level of a data descriptor has the same outcome. -/
theorem mint_unaffected (crypto : Crypto) (db : Storage) (requests : List Request)
    (r : Request) {c : Claim} (hclaim : r.claim = some c) (hkind : c.kind = .work)
    (other : List UInt8) (hother : other ≠ c.pubkey)
    (hsigned : ∀ r' ∈ requests, ∀ b, r'.claim = some b → b.pubkey = other)
    (hfree : CollisionFree crypto (r :: requests))
    (hnonce : ¬DescriptorShaped (slice c.payload 32 64)) :
    outcome (run crypto (runFrom crypto db requests).1 r) = outcome (run crypto db r) := by
  apply run_congr hclaim hkind
  apply foldl_invariant_mem (P := fun s : Execution => Agree crypto c db s.1)
  · intro s r' hr' hs
    obtain hsame | ⟨b, hb, -, hsettled⟩ := exec_cases crypto s r'
    · rw [hsame]
      exact hs
    · have hkey : b.pubkey ≠ c.pubkey := by
        rw [hsigned r' hr' b hb]
        exact hother
      exact hs.trans (hsettled.agree hfree (List.mem_cons_of_mem r hr') List.mem_cons_self hb
        hclaim hkey hkind hnonce)
  · exact ⟨rfl, fun _ _ => rfl⟩

/-! ## A sample of interference -/

/-- A work claim of the sample device with the given nonce. -/
def sampleWork (nonce : List UInt8) : Request :=
  mintCall selVerifyAndMintWork (sampleProof nonce) (sampleKey 0xA1) 1

/-- A data claim of the other device: one byte of public data whose hash it chose to
be the identity of the sample device. -/
def otherData : Request :=
  mintCall selVerifyAndMintData
    (hashBytes sampleDevice ++ natToBytes 8 1 ++ natToBytes 2 1 ++ sampleEnvelope otherDevice)
    (sampleKey 0xB1) 1

theorem sampleWork_claim : (sampleWork (natToBytes 32 1)).claim =
    some ⟨.work, sampleProof (natToBytes 32 1), sampleKey 0xA1, sampleSignature, 1⟩ := by
  have hpayload : (sampleProof (natToBytes 32 1)).length < 256 ^ 4 := by decide +kernel
  rw [sampleWork, Request.claim, mintCall_selector (by decide), if_pos rfl,
      mintCall_parse _ _ hpayload (sampleKey_length _) (by norm_num)]
  rfl

/-- What the other device presents. -/
def otherClaim : Claim :=
  ⟨.data, hashBytes sampleDevice ++ natToBytes 8 1 ++ natToBytes 2 1 ++
    sampleEnvelope otherDevice, sampleKey 0xB1, sampleSignature, 1⟩

theorem otherClaim_payload : otherClaim.payload = hashBytes sampleDevice ++ natToBytes 8 1 ++
    natToBytes 2 1 ++ sampleEnvelope otherDevice := rfl

theorem otherData_claim : otherData.claim = some otherClaim := by
  have hpayload : otherClaim.payload.length < 256 ^ 4 := by decide
  rw [otherData, Request.claim, mintCall_selector (by decide), if_neg (by decide), if_pos rfl,
    ← otherClaim_payload, mintCall_parse _ _ hpayload (sampleKey_length _) (by norm_num)]
  rfl

theorem descriptorNonce_last (size privacy : ℕ) :
    (descriptorNonce size privacy).drop 31 = [0] := by
  have hsize : (natToBytes 8 size).drop 31 = [] := List.drop_eq_nil_of_le (by simp)
  have hprivacy : (natToBytes 2 privacy).drop 23 = [] := List.drop_eq_nil_of_le (by simp)
  simp [descriptorNonce, List.drop_append, hsize, hprivacy]

theorem sampleNonce_not_shaped :
    ¬DescriptorShaped (slice (sampleProof (natToBytes 32 1)) 32 64) := by
  rintro ⟨size, privacy, -, -, h⟩
  have hlast := congrArg (List.drop 31) h
  rw [descriptorNonce_last] at hlast
  exact absurd hlast (by decide)

/-- The two claims make the precompile hash eight strings, with eight different hashes. -/
theorem sampleHashed_nodup :
    (([⟨.work, sampleProof (natToBytes 32 1), sampleKey 0xA1, sampleSignature, 1⟩,
      otherClaim].flatMap (Claim.hashed sampleCrypto)).map sampleCrypto.blake3).Nodup := by
  have hwords : ([⟨.work, sampleProof (natToBytes 32 1), sampleKey 0xA1, sampleSignature, 1⟩,
      otherClaim].flatMap (Claim.hashed sampleCrypto)).map sampleCrypto.blake3 =
        [sampleDevice,
          0xa23015fc2bd4d79d5c0f9400464d9ec1370e3f99ae94cc782af92ab61f4133fa,
          0xca3ccad3cecf4c31d4a64c272763e73e03081876b8b12f6059edfd734ccf88ee,
          0xe684a261e34ecda7eecf1fb54d15e6e191b48f298fc87a6bf86f73c050c56e69,
          otherDevice,
          0xdff94aea70727b72ab3b2beed001ecc9432c5de5f5d91ad540153f292ab588a8,
          0x071082ffb7255e453c00e511b98ae31484f7965bb7f16ff3e13b6781138fccc1,
          0x627b9612ef29bad32e49dec64f3a9212b7aa9220055709e7027d2ea8a1d86cb1] := by
    decide +kernel
  rw [hwords]
  decide

/-- A nonce that is no descriptor: the data mint of the other device does not show. -/
theorem mint_unaffected_sample :
    outcome (run sampleCrypto (runFrom sampleCrypto (fun _ => 0) [otherData]).1
        (sampleWork (natToBytes 32 1))) =
      outcome (run sampleCrypto (fun _ => 0) (sampleWork (natToBytes 32 1))) := by
  refine mint_unaffected sampleCrypto (fun _ => 0) [otherData] (sampleWork (natToBytes 32 1))
    sampleWork_claim rfl (sampleKey 0xB1) ?_ ?_ ?_ sampleNonce_not_shaped
  · intro hkey
    exact absurd (congrArg List.head? hkey) (by decide)
  · intro r' hr' b hb
    obtain rfl := List.mem_singleton.mp hr'
    rw [otherData_claim] at hb
    rw [← Option.some.inj hb]
    rfl
  · intro x hx y hy hxy
    have hclaims : [sampleWork (natToBytes 32 1), otherData].filterMap Request.claim =
        [⟨.work, sampleProof (natToBytes 32 1), sampleKey 0xA1, sampleSignature, 1⟩,
          otherClaim] := by
      rw [List.filterMap_cons_some sampleWork_claim, List.filterMap_cons_some otherData_claim,
        List.filterMap_nil]
    rw [hclaims] at hx hy
    exact List.inj_on_of_nodup_map sampleHashed_nodup hx hy hxy

/-- The data claim of the other device passes its checks. -/
theorem settle_otherClaim (db : Storage) :
    settle sampleCrypto db otherClaim = mintData sampleCrypto db otherClaim := by
  have hlength : ¬ otherClaim.payload.length < dataContributionSize := by decide
  have hgate : trustGate sampleCrypto db otherClaim (descriptorPrivacy otherClaim.payload)
      dataContributionSize = .ok () := by
    have hpublic : descriptorPrivacy otherClaim.payload = 1 := by decide
    have hlong : ¬ otherClaim.payload.length ≤ dataContributionSize := by decide
    have henvelope : otherClaim.payload.drop dataContributionSize = sampleEnvelope otherDevice := by
      decide
    rw [trustGate, hpublic, if_neg (by decide), if_neg hlong, henvelope]
    exact verifyDeviceBinding_sample deviceIdOf_sample.2
  have hsigned : checkSignature sampleCrypto otherClaim = .ok () :=
    checkSignature_sample .data _ 0xB1 1
  have hkind : otherClaim.kind = .data := rfl
  rw [settle, hkind]
  dsimp only
  rw [settleData, hsigned]
  simp only [bind, Except.bind]
  rw [if_neg hlength, hgate]

theorem otherClaim_id : otherClaim.id sampleCrypto = (sampleClaim 1).id sampleCrypto := by
  rw [Claim.id, Claim.id, sampleClaim_idBytes]
  have hbytes : otherClaim.idBytes =
      workIdBytes (hashBytes sampleDevice) (descriptorNonce 1 1) 1 := by
    decide
  rw [hbytes]

/-- It is minted, and the id is spent. -/
theorem exec_otherData : exec sampleCrypto (fun _ => 0, []) otherData =
    (Function.update (fun _ => 0)
      (spentKey sampleCrypto ((sampleClaim 1).id sampleCrypto)) setValue, [otherClaim]) := by
  have hlength : ¬ otherClaim.payload.length < dataContributionSize := by decide
  have hpayload : otherClaim.payload.length < 256 ^ 4 := by decide
  have hsize : ¬ maxDataSize < descriptorSize otherClaim.payload := by decide
  have hpublic : privacyMultiplier (descriptorPrivacy otherClaim.payload) = some 2500 := by
    decide
  have hunspent : isSpent sampleCrypto (fun _ => 0) ((sampleClaim 1).id sampleCrypto) = false := rfl
  have hmark : markSpent sampleCrypto (fun _ => 0) ((sampleClaim 1).id sampleCrypto) =
      .ok (Function.update (fun _ => 0)
        (spentKey sampleCrypto ((sampleClaim 1).id sampleCrypto)) setValue) := by
    rw [markSpent, hunspent, if_neg (by simp)]
  have hmint : settle sampleCrypto (fun _ => 0) otherClaim = .ok (Function.update (fun _ => 0)
      (spentKey sampleCrypto ((sampleClaim 1).id sampleCrypto)) setValue,
        scaledReward (descriptorSize otherClaim.payload) 2500) := by
    rw [settle_otherClaim, mintData, if_neg hlength, if_neg hsize, hpublic]
    dsimp only
    rw [otherClaim_id, hunspent, if_neg (by simp), hmark]
    rfl
  have hrun : run sampleCrypto (fun _ => 0) otherData = .ok (Function.update (fun _ => 0)
      (spentKey sampleCrypto ((sampleClaim 1).id sampleCrypto)) setValue,
        ⟨uintWord (scaledReward (descriptorSize otherClaim.payload) 2500), 6000,
          some otherClaim⟩) := by
    have hclaim : (⟨.data, otherClaim.payload, sampleKey 0xB1, sampleSignature, 1⟩ : Claim) =
        otherClaim := rfl
    rw [otherData, ← otherClaim_payload, run_mintCall (.inr ⟨rfl, rfl⟩) hpayload
      (sampleKey_length 0xB1) (by norm_num), hclaim, hmint]
    dsimp only [Except.map]
  have hexec := exec_of_ok (s := (fun _ => 0, [])) hrun
  rw [List.append_nil] at hexec
  exact hexec

/-- The work mint of the sample device goes through, but not after the other device's
data mint. -/
theorem mint_blocked :
    (outcome (run sampleCrypto (fun _ => 0) (sampleWork (descriptorNonce 1 1)))).toOption.isSome ∧
    (runFrom sampleCrypto (fun _ => 0) [otherData]).2.length = 1 ∧
    outcome (run sampleCrypto (runFrom sampleCrypto (fun _ => 0) [otherData]).1
      (sampleWork (descriptorNonce 1 1))) = .error .workAlreadySpent := by
  have hafter : runFrom sampleCrypto (fun _ => 0) [otherData] = (Function.update (fun _ => 0)
      (spentKey sampleCrypto ((sampleClaim 1).id sampleCrypto)) setValue, [otherClaim]) := by
    rw [runFrom, List.foldl_cons, List.foldl_nil, exec_otherData]
  have hrun (db : Storage) : run sampleCrypto db (sampleWork (descriptorNonce 1 1)) =
      (mintWork sampleCrypto db (sampleClaim 1)).map fun out =>
        (out.1, ⟨uintWord out.2, 6000, some (sampleClaim 1)⟩) := by
    rw [← run_sampleMint (by norm_num)]
    rfl
  refine ⟨?_, by rw [hafter]; rfl, ?_⟩
  · rw [hrun, mintWork_sampleClaim rfl]
    simp only [outcome, Except.map, Except.toOption, Option.isSome_some]
  · have hlength : ¬ (sampleProof (descriptorNonce 1 1)).length < workProofMinSize := by
      decide +kernel
    have hspent : isSpent sampleCrypto (Function.update (fun _ => 0)
        (spentKey sampleCrypto ((sampleClaim 1).id sampleCrypto)) setValue)
          ((sampleClaim 1).id sampleCrypto) = true := by
      rw [isSpent, Function.update_self]
      exact decide_eq_true setValue_ne_zero
    rw [hafter, hrun, mintWork, sampleClaim_payload, if_neg hlength, hspent, if_pos rfl]
    rfl

end LuxPrecompile.Ai
