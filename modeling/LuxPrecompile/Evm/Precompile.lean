import LuxPrecompile.Evm.Bank

/-!
# Precompiles on their host

The host moves the value attached to a call before the precompile runs, and keeps nothing of a
call that fails.  While a precompile calls a token, the token's code may act on the world and
enter the precompile again, to any depth the host allows.  A run is a list of such actions from
outside.
-/

namespace LuxPrecompile.Evm

/-- The host during one top-level call, and what the code of each token does when
it runs, by remaining call depth and by the world it sees. -/
structure Environment (Host World Interaction : Type) where
  host : Host
  reactions : ℕ → Address → World → List Interaction

/-- One step of a run. -/
structure Action (Host World Interaction : Type) where
  env : Environment Host World Interaction
  depth : ℕ
  interaction : Interaction

/-- A precompile as its host runs it. -/
structure Precompile (Host World Request Interaction ε ρ : Type) where
  /-- The host moves the attached value before the precompile runs. -/
  deliver : World → Request → Option World
  /-- The world after an interaction, by what a call does. -/
  interact : (World → Request → Except ε (World × ρ)) → World → Interaction → World
  /-- The code of the precompile, by what the code of a token does to the world. -/
  body : Host → (Address → World → World) → World → Request → Except ε (World × ρ)
  insufficientBalance : ε
  depth : ε

namespace Precompile

variable {Host World Request Interaction ε ρ : Type}
  (p : Precompile Host World Request Interaction ε ρ)

/-- A call under a given meaning of the precompile. -/
def callWith (run : World → Request → Except ε (World × ρ)) (w : World) (r : Request) :
    Except ε (World × ρ) :=
  match p.deliver w r with
  | none => .error p.insufficientBalance
  | some w' => run w' r

/-- `Run`, with the call depth the host has left. -/
def run (env : Environment Host World Interaction) :
    ℕ → World → Request → Except ε (World × ρ)
  | 0, _, _ => .error p.depth
  | depth + 1, w, r =>
      let react := p.interact (p.callWith (run env depth))
      p.body env.host (fun token w => (env.reactions depth token w).foldl react w) w r

/-- A call as the host executes it. -/
def call (env : Environment Host World Interaction) (depth : ℕ) :
    World → Request → Except ε (World × ρ) :=
  p.callWith (p.run env depth)

/-- What the code of a token does to the world while it runs. -/
def callback (env : Environment Host World Interaction) (depth : ℕ) (token : Address)
    (w : World) : World :=
  (env.reactions depth token w).foldl (p.interact (p.call env depth)) w

/-- The world after an action. -/
def exec (w : World) (a : Action Host World Interaction) : World :=
  p.interact (p.call a.env a.depth) w a.interaction

/-- The world after a run. -/
def runFrom (w : World) (actions : List (Action Host World Interaction)) : World :=
  actions.foldl p.exec w

variable {p}

theorem call_eq_ok {env : Environment Host World Interaction} {depth : ℕ} {w w' : World}
    {r : Request} {reply : ρ} :
    p.call env depth w r = .ok (w', reply) ↔
      ∃ delivered, p.deliver w r = some delivered ∧
        p.run env depth delivered r = .ok (w', reply) := by
  unfold call callWith
  cases p.deliver w r with
  | none => simp
  | some delivered => simp

theorem run_eq_ok {env : Environment Host World Interaction} {depth : ℕ} {w w' : World}
    {r : Request} {reply : ρ} (h : p.run env depth w r = .ok (w', reply)) :
    ∃ d, depth = d + 1 ∧ p.body env.host (p.callback env d) w r = .ok (w', reply) := by
  cases depth with
  | zero => cases h
  | succ d => exact ⟨d, rfl, h⟩

theorem runFrom_append (w : World) (actions later : List (Action Host World Interaction)) :
    p.runFrom w (actions ++ later) = p.runFrom (p.runFrom w actions) later :=
  List.foldl_append

end Precompile

end LuxPrecompile.Evm
