import LuxPrecompile.Evm.Bytes
import LuxPrecompile.Inference.Safety
import LuxPrecompile.Support.Chunks
import LuxPrecompile.Support.Runs

/-!
# The precompile

`Run` of `inference/module.go` over the built-in model.  The prompt it reads is
admissible, so the model never panics under it.
-/

namespace LuxPrecompile.Inference

open LuxPrecompile.Evm LuxPrecompile.Support LuxPrecompile.Buffers

/-- The errors of `Run`. -/
inductive RunError where
  | outOfGas (need supplied : UInt64)
  | inputTooShort
  | unknownSelector (selector : UInt32)
  | inputTooShortForGenerate
  | promptNotMultiple
  | emptyPrompt
  | tooManyNewTokens (nNew max : UInt32)
  | sequenceTooLong (length max : ℕ)
  | tokenOutOfVocab (token vocab : UInt32)
deriving DecidableEq, Repr

def selectorGenerate : UInt32 := 0x01000000
def gasBaseInference : UInt64 := 100000
def gasPerNewToken : UInt64 := 50000
def maxNewTokens : UInt32 := 64
def maxSeqLen : ℕ := 256

def requiredGas (input : List UInt8) : UInt64 :=
  if input.length < 8 then gasBaseInference
  else
    let nNew := bytesToUint32 (slice input 4 8)
    gasBaseInference + (if nNew > maxNewTokens then maxNewTokens else nNew).toUInt64 *
      gasPerNewToken

/-- The first `n` tokens of the prompt. -/
def readPrompt (vocab : UInt32) (body : List UInt8) : ℕ → Except RunError (List Int32)
  | 0 => .ok []
  | n + 1 => do
      let prompt ← readPrompt vocab body n
      let tok := bytesToUint32 (slice body (n * 4) (n * 4 + 4))
      if tok ≥ vocab then .error (.tokenOutOfVocab tok vocab) else .ok (prompt ++ [tok.toInt32])

/-- The bytes of a sequence of tokens. -/
def encodeTokens (tokens : List Int32) : List UInt8 :=
  tokens.flatMap fun token => uint32Bytes token.toUInt32

theorem encodeTokens_append (a b : List Int32) :
    encodeTokens (a ++ b) = encodeTokens a ++ encodeTokens b :=
  List.flatMap_append

/-- `Run`: the result and the remaining gas. -/
def run (input : List UInt8) (suppliedGas : UInt64) :
    Option (Except RunError (List UInt8) × UInt64) :=
  let gas := requiredGas input
  if suppliedGas < gas then some (.error (.outOfGas gas suppliedGas), 0)
  else
    let remainingGas := suppliedGas - gas
    let selector := bytesToUint32 (slice input 0 4)
    let nNew := bytesToUint32 (slice input 4 8)
    let body := input.drop 8
    let promptLen := body.length / 4
    if input.length < 4 then some (.error .inputTooShort, remainingGas)
    else if selector ≠ selectorGenerate then some (.error (.unknownSelector selector), remainingGas)
    else if input.length < 12 then some (.error .inputTooShortForGenerate, remainingGas)
    else if body.length % 4 ≠ 0 then some (.error .promptNotMultiple, remainingGas)
    else if promptLen < 1 then some (.error .emptyPrompt, remainingGas)
    else if nNew > maxNewTokens then
      some (.error (.tooManyNewTokens nNew maxNewTokens), remainingGas)
    else if promptLen + nNew.toNat > maxSeqLen then
      some (.error (.sequenceTooLong (promptLen + nNew.toNat) maxSeqLen), remainingGas)
    else
      match readPrompt fixtureModel.cfg.vocab body promptLen with
      | .error e => some (.error e, remainingGas)
      | .ok prompt => do
          let out ← fixtureModel.generate prompt nNew.toNat
          some (.ok (encodeTokens out), remainingGas)

/-- The tokens of a prompt are below the vocabulary, and encode to the bytes they were read from. -/
theorem readPrompt_ok {vocab : UInt32} {body : List UInt8} {n : ℕ} {prompt : List Int32}
    (h : readPrompt vocab body n = .ok prompt) (hlen : n * 4 ≤ body.length) :
    prompt.length = n ∧ (∀ token ∈ prompt, tokenRow token < vocab.toNat) ∧
      encodeTokens prompt = body.take (n * 4) := by
  induction n generalizing prompt with
  | zero =>
      obtain rfl := Except.ok.inj h
      simp [encodeTokens]
  | succ n ih =>
      obtain ⟨tokens, htokens, hrest⟩ := bind_eq_ok.mp h
      obtain ⟨hlow, hprompt⟩ := refuse_eq_ok.mp hrest
      obtain ⟨hcount, hbelow, hbytes⟩ := ih htokens (by omega)
      obtain rfl := Except.ok.inj hprompt
      have hslice : slice body (n * 4) (n * 4 + 4) = (body.drop (n * 4)).take 4 := by
        rw [slice, Nat.add_sub_cancel_left]
      refine ⟨by rw [List.length_append, hcount]; rfl, ?_, ?_⟩
      · intro token htoken
        rcases List.mem_append.mp htoken with htoken | htoken
        · exact hbelow token htoken
        · rw [List.mem_singleton.mp htoken, tokenRow, UInt32.toUInt32_toInt32]
          exact UInt32.lt_iff_toNat_lt.mp (UInt32.not_le.mp hlow)
      · rw [encodeTokens_append, hbytes, encodeTokens, List.flatMap_singleton,
          UInt32.toUInt32_toInt32, hslice,
          uint32Bytes_bytesToUint32 (by rw [List.length_take, List.length_drop]; omega),
          Nat.succ_mul, List.take_add]

/-- The prompt that `Run` hands to the model is admissible, and so is what the model adds. -/
theorem generate_readPrompt {body : List UInt8} {n nNew : ℕ} {prompt : List Int32}
    (h : readPrompt fixtureModel.cfg.vocab body n = .ok prompt) (hlen : n * 4 ≤ body.length)
    (hpos : 0 < n) (hmax : n + nNew ≤ maxSeqLen) :
    ∃ out, fixtureModel.generate prompt nNew = some out ∧ prompt <+: out ∧
      out.length = n + nNew ∧ fixtureModel.Admits out := by
  obtain ⟨rfl, hbelow, -⟩ := readPrompt_ok h hlen
  have hfit : ∀ k : ℕ, k ≤ 64 → (prompt.length + nNew) * k < 2 ^ 32 := by
    intro k hk
    calc
      (prompt.length + nNew) * k ≤ 256 * 64 := Nat.mul_le_mul hmax hk
      _ < 2 ^ 32 := by norm_num
  have hdim : fixtureModel.cfg.dim.toNat ≤ 64 := by decide
  have hhidden : fixtureModel.cfg.hidden.toNat ≤ 64 := by decide
  have hprompt : ∀ k : ℕ, k ≤ 64 → prompt.length * k < 2 ^ 32 := fun k hk =>
    (Nat.mul_le_mul_right k (Nat.le_add_right _ _)).trans_lt (hfit k hk)
  have hadmits : fixtureModel.Admits prompt :=
    ⟨List.ne_nil_of_length_pos hpos, hbelow, hprompt _ hdim, hprompt _ hhidden⟩
  exact (Model.causalAndSafe Model.fixtureModel_wellFormed (.inr (by decide))).generate_admits
    prompt nNew hadmits (hfit _ hdim) (hfit _ hhidden)

theorem run_total (input : List UInt8) (suppliedGas : UInt64) :
    ∃ result, run input suppliedGas = some result := by
  unfold run
  dsimp only
  split_ifs with _ _ _ _ _ _ _ hmax
  all_goals try exact ⟨_, rfl⟩
  cases hread : readPrompt fixtureModel.cfg.vocab (input.drop 8) ((input.drop 8).length / 4) with
  | error e => exact ⟨_, rfl⟩
  | ok prompt =>
      obtain ⟨out, hout, -⟩ := generate_readPrompt hread (Nat.div_mul_le_self _ 4) (by omega)
        (not_lt.mp hmax)
      exact ⟨_, by simp only [hout, Option.bind_eq_bind, Option.bind_some]; rfl⟩

theorem refuse_eq_some {c : Prop} [Decidable c] {e : RunError} {gas gas' : UInt64}
    {rest : Option (Except RunError (List UInt8) × UInt64)} {ret : List UInt8} :
    (if c then some (.error e, gas) else rest) = some (.ok ret, gas') ↔
      ¬ c ∧ rest = some (.ok ret, gas') := by
  by_cases hc : c
  · simp [hc]
  · simp [hc]

/-- An answer repeats the prompt and adds the tokens that were asked for. -/
theorem run_answer {input ret : List UInt8} {suppliedGas remainingGas : UInt64}
    (h : run input suppliedGas = some (.ok ret, remainingGas)) :
    input.drop 8 <+: ret ∧
      ret.length = (input.drop 8).length + 4 * (bytesToUint32 (slice input 4 8)).toNat := by
  simp only [run, refuse_eq_some] at h
  obtain ⟨-, -, -, -, hmultiple, hpos, -, hmax, hrun⟩ := h
  cases hread : readPrompt fixtureModel.cfg.vocab (input.drop 8) ((input.drop 8).length / 4) with
  | error e =>
      simp only [hread, Option.some.injEq, Prod.mk.injEq, reduceCtorEq, false_and] at hrun
  | ok prompt =>
      have hwhole : (input.drop 8).length / 4 * 4 = (input.drop 8).length := by omega
      obtain ⟨out, hout, ⟨added, rfl⟩, hlen, -⟩ := generate_readPrompt hread hwhole.le
        (Nat.pos_of_ne_zero fun h0 => hpos (by omega)) (not_lt.mp hmax)
      obtain ⟨-, -, hbytes⟩ := readPrompt_ok hread hwhole.le
      simp only [hread, hout, Option.bind_eq_bind, Option.bind_some, Option.some.injEq,
        Prod.mk.injEq, Except.ok.injEq] at hrun
      obtain ⟨rfl, -⟩ := hrun
      refine ⟨⟨encodeTokens added, ?_⟩, ?_⟩
      · rw [hwhole, List.take_length] at hbytes
        rw [encodeTokens_append, hbytes]
      · rw [encodeTokens, length_flatMap_of_length fun _ => uint32Bytes_length _, hlen]
        omega

end LuxPrecompile.Inference
