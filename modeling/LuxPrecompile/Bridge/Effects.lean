import LuxPrecompile.Bridge.Registrar
import LuxPrecompile.Support.Runs

/-!
# What a registrar call does

A call either executes the write its call data decodes to, with the nonce advanced,
or leaves the storage alone.  What is written is read from the signed bytes.
-/

namespace LuxPrecompile.Bridge

open Evm Support

/-! ## Requests -/

/-- A decoded write. -/
inductive Request
  | register (chain : Chain)
  | unregister (id : ChainID)
  | setGateway (id : ChainID) (gw : Address)
deriving DecidableEq

def Request.selector : Request → UInt8
  | .register _ => selectorRegisterChain
  | .unregister _ => selectorUnregisterChain
  | .setGateway _ _ => selectorSetGateway

def Request.cost : Request → ℕ
  | .register _ => gasRegisterChain
  | .unregister _ => gasUnregisterChain
  | .setGateway _ _ => gasSetGateway

/-- The registry a write leaves, if it is not refused. -/
def Request.apply (st : Storage) : Request → Except Error (Storage × UInt64)
  | .register chain => registerChain st chain
  | .unregister id => unregisterChain st id
  | .setGateway id gw => Bridge.setGateway st id gw

/-- Decoded arguments as a request. -/
def Signed.toRequest {α : Type} (mk : α → Request) (signed : Signed α) : Signed Request :=
  ⟨mk signed.args, signed.payload, signed.sigs⟩

/-- The signed write a call's input decodes to. -/
def signedRequest (input : List UInt8) : Option (Signed Request) :=
  match input with
  | [] => none
  | sel :: args =>
      if sel = selectorRegisterChain then
        (decodeRegisterChainArgs args).toOption.map (Signed.toRequest .register)
      else if sel = selectorUnregisterChain then
        (decodeUnregisterChainArgs args).toOption.map (Signed.toRequest .unregister)
      else if sel = selectorSetGateway then
        (decodeSetGatewayArgs args).toOption.map
          (Signed.toRequest fun arg => .setGateway arg.1 arg.2)
      else none

/-! ## Decoding -/

/-- The write that signed bytes stand for. -/
def payloadRequest (sel : UInt8) (payload : List UInt8) : Request :=
  if sel = selectorRegisterChain then .register (argChain payload)
  else if sel = selectorUnregisterChain then .unregister (argChainID payload)
  else .setGateway (argChainID payload) (argGateway payload)

theorem slice_take {args : List UInt8} {i j size : ℕ} (h : j ≤ size) :
    slice (args.take size) i j = slice args i j := by
  rw [slice, slice, List.drop_take, List.take_take, Nat.min_eq_left (by omega)]

theorem getD_take {args : List UInt8} {i size : ℕ} (h : i < size) :
    (args.take size).getD i 0 = args.getD i 0 := by
  rw [List.getD_eq_getElem?_getD, List.getD_eq_getElem?_getD, List.getElem?_take_of_lt h]

theorem argChain_take {args : List UInt8} {size : ℕ} (h : size = 26 + argNameLen args) :
    argChain (args.take size) = argChain args := by
  have hlen : argNameLen (args.take size) = argNameLen args := by
    rw [argNameLen, getD_take (by omega), argNameLen]
  have hid : argChainID (args.take size) = argChainID args :=
    congrArg bytesToUint32 (slice_take (by simp only [argChainIDSize]; omega))
  simp only [argChain, argEVMFlagSize, argAddressSize, hlen, hid]
  rw [slice_take (by omega), slice_take (by omega), getD_take (by omega)]

theorem name_length_argChain (args : List UInt8) :
    (argChain args).name.length ≤ argNameLen args := by
  simp only [argChain, slice, List.length_take]
  omega

/-- What a decoded write is made of. -/
structure Decoded (input : List UInt8) (signed : Signed Request) (args : List UInt8)
    (size : ℕ) : Prop where
  input_eq : input = signed.args.selector :: args
  size_le : size ≤ args.length
  sigs_eq : decodeSigs (args.drop size) = .ok signed.sigs
  payload_eq : signed.payload = args.take size
  args_eq : signed.args = payloadRequest signed.args.selector signed.payload
  name_le : ∀ chain, signed.args = .register chain → chain.name.length ≤ maxChainNameSize

theorem decodeSigned_eq_ok {α : Type} {args : List UInt8} {size : ℕ} {value : α}
    {signed : Signed α} (h : decodeSigned args size value = .ok signed) :
    signed.args = value ∧ signed.payload = args.take size ∧
      decodeSigs (args.drop size) = .ok signed.sigs := by
  obtain ⟨sigs, hsigs, hpure⟩ := bind_eq_ok.mp h
  obtain rfl := Except.ok.inj hpure
  exact ⟨rfl, rfl, hsigs⟩

theorem toOption_eq_some {ε α : Type} {x : Except ε α} {a : α} (h : x.toOption = some a) :
    x = .ok a := by
  cases x with
  | error e => cases h
  | ok b => exact congrArg _ (Option.some.inj h)

/-- Call data that decodes to a signed write. -/
theorem decoded_of_signedRequest {input : List UInt8} {signed : Signed Request}
    (h : signedRequest input = some signed) : ∃ args size, Decoded input signed args size := by
  cases input with
  | nil => cases h
  | cons sel args =>
      rw [signedRequest] at h
      by_cases hregister : sel = selectorRegisterChain
      · rw [if_pos hregister, Option.map_eq_some_iff] at h
        obtain ⟨decoded, hdecode, rfl⟩ := h
        obtain ⟨-, hdecode⟩ := refuse_eq_ok.mp (toOption_eq_some hdecode)
        obtain ⟨hname, hdecode⟩ := refuse_eq_ok.mp hdecode
        obtain ⟨hlength, hdecode⟩ := refuse_eq_ok.mp hdecode
        obtain ⟨hargs, hpayload, hsigs⟩ := decodeSigned_eq_ok hdecode
        have hsize : 5 + argNameLen args + argEVMFlagSize + argAddressSize =
            26 + argNameLen args := by
          simp only [argEVMFlagSize, argAddressSize]
          omega
        rw [Signed.toRequest]
        refine ⟨args, _, by rw [hregister]; rfl, Nat.not_lt.mp hlength, hsigs, hpayload, ?_, ?_⟩
        · have htake := argChain_take hsize
          simp only [hpayload, hargs, Request.selector, payloadRequest, if_true, htake]
        · rintro chain hchain
          obtain rfl := Request.register.inj hchain
          rw [hargs]
          exact (name_length_argChain args).trans (Nat.not_lt.mp hname)
      · rw [if_neg hregister] at h
        by_cases hunregister : sel = selectorUnregisterChain
        · rw [if_pos hunregister, Option.map_eq_some_iff] at h
          obtain ⟨decoded, hdecode, rfl⟩ := h
          obtain ⟨hlength, hdecode⟩ := refuse_eq_ok.mp (toOption_eq_some hdecode)
          obtain ⟨hargs, hpayload, hsigs⟩ := decodeSigned_eq_ok hdecode
          have hid : argChainID (args.take argChainIDSize) = argChainID args :=
            congrArg bytesToUint32 (slice_take (le_refl _))
          rw [Signed.toRequest]
          refine ⟨args, _, by rw [hunregister]; rfl, Nat.not_lt.mp hlength, hsigs, hpayload,
            ?_, fun chain hchain => by cases hchain⟩
          simp only [hpayload, hargs, Request.selector, payloadRequest, hid]
          rfl
        · rw [if_neg hunregister] at h
          by_cases hset : sel = selectorSetGateway
          · rw [if_pos hset, Option.map_eq_some_iff] at h
            obtain ⟨decoded, hdecode, rfl⟩ := h
            obtain ⟨hlength, hdecode⟩ := refuse_eq_ok.mp (toOption_eq_some hdecode)
            obtain ⟨hargs, hpayload, hsigs⟩ := decodeSigned_eq_ok hdecode
            have hid : argChainID (args.take (argChainIDSize + argAddressSize)) =
                argChainID args := congrArg bytesToUint32 (slice_take (by omega))
            have hgw : argGateway (args.take (argChainIDSize + argAddressSize)) =
                argGateway args := congrArg bytesToAddress (slice_take (le_refl _))
            rw [Signed.toRequest]
            refine ⟨args, _, by rw [hset]; rfl, Nat.not_lt.mp hlength, hsigs, hpayload,
              ?_, fun chain hchain => by cases hchain⟩
            simp only [hpayload, hargs, Request.selector, payloadRequest, hid, hgw]
            rfl
          · rw [if_neg hset] at h
            cases h

section Calls

variable (crypto : Crypto)

/-- A call whose write is paid for and verified. -/
structure Accepted (st : Storage) (c : Call) (signed : Signed Request) : Prop where
  decoded : signedRequest c.input = some signed
  writable : c.readOnly = false
  paid : signed.args.cost + signed.sigs.length * gasPerSignature ≤ c.gas
  verified : verifyMultisig crypto st signed.args.selector signed.payload signed.sigs = .ok ()

/-- A call that executes a write. -/
structure Executes (st : Storage) (c : Call) (signed : Signed Request) (st' : Storage) : Prop
    where
  accepted : Accepted crypto st c signed
  applied : ∃ idx, signed.args.apply st = .ok (st', idx)
  storage_eq : (run crypto st c).storage = bumpNonce st'
  succeeds : (run crypto st c).result.isOk = true

/-- A call that executes no write. -/
structure Idle (st : Storage) (c : Call) : Prop where
  storage_eq : (run crypto st c).storage = st
  refused : (run crypto st c).result.isOk = true → signedRequest c.input = none
  rejected : ∀ signed, Accepted crypto st c signed → ∃ e, signed.args.apply st = .error e

variable {crypto}

/-- A write of the family either executes or is refused. -/
theorem runWrite_cases {α : Type} {cost : ℕ} {decode : List UInt8 → Except Error (Signed α)}
    {write : Storage → α → Except Error (Storage × UInt64)} (mk : α → Request)
    {st : Storage} {sel : UInt8} {args : List UInt8} {c : Call}
    (hrun : run crypto st c = runWrite crypto cost decode write st sel args c.gas c.readOnly)
    (hdecode : signedRequest c.input = (decode args).toOption.map (Signed.toRequest mk))
    (hcost : ∀ a, (mk a).cost = cost) (hsel : ∀ a, (mk a).selector = sel)
    (hwrite : ∀ st a, (mk a).apply st = write st a) :
    (∃ signed st', Executes crypto st c signed st') ∨ Idle crypto st c := by
  have hidle : ∀ e gas, run crypto st c = fail st e gas →
      (∀ signed, Accepted crypto st c signed → ∃ e, signed.args.apply st = .error e) →
      Idle crypto st c := by
    intro e gas h hrejected
    refine ⟨by rw [h]; rfl, fun hok => ?_, hrejected⟩
    rw [h] at hok
    cases hok
  by_cases hread : c.readOnly = true
  · rw [runWrite, if_pos hread] at hrun
    refine .inr (hidle _ _ hrun fun signed h => ?_)
    rw [h.writable] at hread
    cases hread
  · rw [runWrite, if_neg hread] at hrun
    cases hargs : decode args with
    | error e =>
        have hnone : ∀ signed, ¬ Accepted crypto st c signed := by
          intro signed h
          have hdecoded := h.decoded
          rw [hdecode, hargs] at hdecoded
          cases hdecoded
        rw [hargs] at hrun
        by_cases hgas : c.gas < cost
        · rw [if_pos hgas] at hrun
          exact .inr (hidle _ _ hrun fun signed h => absurd h (hnone signed))
        · rw [if_neg hgas] at hrun
          exact .inr (hidle _ _ hrun fun signed h => absurd h (hnone signed))
    | ok decoded =>
        have hdecoded : signedRequest c.input = some (decoded.toRequest mk) := by
          rw [hdecode, hargs]
          rfl
        have haccepted : ∀ signed, Accepted crypto st c signed → signed = decoded.toRequest mk :=
          fun signed h => Option.some.inj (h.decoded.symm.trans hdecoded)
        rw [hargs] at hrun
        dsimp only at hrun
        by_cases htotal : c.gas < cost + decoded.sigs.length * gasPerSignature
        · have hrejected : ∀ signed, Accepted crypto st c signed →
              ∃ e, signed.args.apply st = .error e := by
            intro signed h
            have hpaid := h.paid
            rw [haccepted signed h, Signed.toRequest, hcost] at hpaid
            exact absurd htotal (Nat.not_lt.mpr hpaid)
          by_cases hgas : c.gas < cost
          · rw [if_pos hgas] at hrun
            exact .inr (hidle _ _ hrun hrejected)
          · rw [if_neg hgas, if_pos htotal] at hrun
            exact .inr (hidle _ _ hrun hrejected)
        · rw [if_neg (by omega), if_neg htotal] at hrun
          cases hverify : verifyMultisig crypto st sel decoded.payload decoded.sigs with
          | error e =>
              rw [hverify] at hrun
              refine .inr (hidle _ _ hrun fun signed h => ?_)
              have hverified := h.verified
              rw [haccepted signed h, Signed.toRequest, hsel, hverify] at hverified
              cases hverified
          | ok u =>
              rw [hverify] at hrun
              cases happly : write st decoded.args with
              | error e =>
                  rw [happly] at hrun
                  refine .inr (hidle _ _ hrun fun signed h => ⟨e, ?_⟩)
                  rw [haccepted signed h, Signed.toRequest, hwrite, happly]
              | ok written =>
                  obtain ⟨st', idx⟩ := written
                  rw [happly] at hrun
                  refine .inl ⟨decoded.toRequest mk, st', ?_, ⟨idx, ?_⟩, ?_, ?_⟩
                  · refine ⟨hdecoded, by simpa using hread, ?_, ?_⟩
                    · rw [Signed.toRequest, hcost]
                      exact Nat.not_lt.mp htotal
                    · rw [Signed.toRequest, hsel, hverify]
                  · rw [Signed.toRequest, hwrite, happly]
                  · rw [hrun]
                  · rw [hrun]
                    rfl

theorem idle_of_signedRequest {st : Storage} {c : Call} (hnone : signedRequest c.input = none)
    (hrun : (run crypto st c).storage = st) : Idle crypto st c where
  storage_eq := hrun
  refused _ := hnone
  rejected signed h := by
    have hdecoded := h.decoded
    rw [hnone] at hdecoded
    cases hdecoded

theorem runGetCount_storage (st : Storage) (gas : ℕ) : (runGetCount st gas).storage = st := by
  unfold runGetCount
  split_ifs <;> rfl

theorem runGetChain_storage (st : Storage) (args : List UInt8) (gas : ℕ) :
    (runGetChain st args gas).storage = st := by
  unfold runGetChain
  dsimp only
  split_ifs <;> rfl

theorem runGetNonce_storage (st : Storage) (gas : ℕ) : (runGetNonce st gas).storage = st := by
  unfold runGetNonce
  split_ifs <;> rfl

/-- Every call executes a write or is idle. -/
theorem run_cases (crypto : Crypto) (st : Storage) (c : Call) :
    (∃ signed st', Executes crypto st c signed st') ∨ Idle crypto st c := by
  cases hinput : c.input with
  | nil =>
      refine .inr (idle_of_signedRequest (by rw [hinput]; rfl) ?_)
      rw [run, hinput]
      rfl
  | cons sel args =>
      by_cases hregister : sel = selectorRegisterChain
      · have hrun : run crypto st c =
            runRegisterChain crypto st sel args c.gas c.readOnly := by
          rw [run, hinput, hregister]
          rfl
        have hdecode : signedRequest c.input =
            (decodeRegisterChainArgs args).toOption.map (Signed.toRequest .register) := by
          rw [hinput, hregister]
          rfl
        exact runWrite_cases .register hrun hdecode (fun _ => rfl) (fun _ => hregister.symm)
          (fun _ _ => rfl)
      · by_cases hunregister : sel = selectorUnregisterChain
        · have hrun : run crypto st c =
              runUnregisterChain crypto st sel args c.gas c.readOnly := by
            rw [run, hinput, hunregister]
            rfl
          have hdecode : signedRequest c.input =
              (decodeUnregisterChainArgs args).toOption.map (Signed.toRequest .unregister) := by
            rw [hinput, hunregister]
            rfl
          exact runWrite_cases .unregister hrun hdecode (fun _ => rfl)
            (fun _ => hunregister.symm) (fun _ _ => rfl)
        · by_cases hset : sel = selectorSetGateway
          · have hrun : run crypto st c = runSetGateway crypto st sel args c.gas c.readOnly := by
              rw [run, hinput, hset]
              rfl
            have hdecode : signedRequest c.input = (decodeSetGatewayArgs args).toOption.map
                (Signed.toRequest fun arg => .setGateway arg.1 arg.2) := by
              rw [hinput, hset]
              rfl
            exact runWrite_cases _ hrun hdecode (fun _ => rfl) (fun _ => hset.symm)
              (fun _ _ => rfl)
          · have hnone : signedRequest c.input = none := by
              rw [hinput, signedRequest, if_neg hregister, if_neg hunregister, if_neg hset]
            refine .inr (idle_of_signedRequest hnone ?_)
            rw [run, hinput]
            dsimp only
            rw [if_neg hregister, if_neg hunregister, if_neg hset]
            split_ifs
            · exact runGetCount_storage st c.gas
            · exact runGetChain_storage st args c.gas
            · exact runGetNonce_storage st c.gas
            · rfl

/-- An accepted write that is not refused executes. -/
theorem Accepted.executes {st : Storage} {c : Call} {signed : Signed Request}
    (h : Accepted crypto st c signed) {st' : Storage} {idx : UInt64}
    (happly : signed.args.apply st = .ok (st', idx)) : Executes crypto st c signed st' := by
  rcases run_cases crypto st c with ⟨signed', st'', hexec⟩ | hidle
  · obtain rfl : signed' = signed :=
      Option.some.inj (hexec.accepted.decoded.symm.trans h.decoded)
    obtain ⟨idx', happly'⟩ := hexec.applied
    rw [happly] at happly'
    obtain ⟨rfl, -⟩ := Prod.mk.inj (Except.ok.inj happly')
    exact hexec
  · obtain ⟨e, he⟩ := hidle.rejected signed h
    rw [happly] at he
    cases he

end Calls

end LuxPrecompile.Bridge
