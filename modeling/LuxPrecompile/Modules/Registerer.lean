import LuxPrecompile.Evm.Word
import LuxPrecompile.Support.KeyedList
import Mathlib.Data.List.Sort

/-!
# The module registry

`modules/registerer.go`.  Every precompile package registers its module when the program
starts, in an order the build decides; the registry keeps the modules by address.  A
registration is refused for an address outside the reserved ranges and for an address or a
config key that is taken.
-/

namespace LuxPrecompile.Modules

open Evm Support

/-- `AddressRange`, with its end. -/
structure AddressRange where
  start : Address
  stop : Address

/-- `Contains`: addresses are compared as big-endian numbers. -/
def AddressRange.contains (a : AddressRange) (addr : Address) : Bool :=
  decide (a.start ≤ addr ∧ addr ≤ a.stop)

def blackholeAddr : Address := 0x0100000000000000000000000000000000000000

def reservedRanges : List AddressRange :=
  [⟨0x0100000000000000000000000000000000000000, 0x01000000000000000000000000000000000000ff⟩,
    ⟨0x0200000000000000000000000000000000000000, 0x02000000000000000000000000000000000000ff⟩,
    ⟨0x0300000000000000000000000000000000000000, 0x03000000000000000000000000000000000000ff⟩,
    ⟨0x0400000000000000000000000000000000000000, 0x04000000000000000000000000000000000000ff⟩,
    ⟨0x0500000000000000000000000000000000000000, 0x05000000000000000000000000000000000000ff⟩,
    ⟨0x0600000000000000000000000000000000000000, 0x06000000000000000000000000000000000000ff⟩,
    ⟨0x0700000000000000000000000000000000000000, 0x07000000000000000000000000000000000000ff⟩,
    ⟨0x0800000000000000000000000000000000000000, 0x08000000000000000000000000000000000000ff⟩,
    ⟨0x0900000000000000000000000000000000000000, 0x09000000000000000000000000000000000000ff⟩,
    ⟨0x0A00000000000000000000000000000000000000, 0x0A000000000000000000000000000000000000ff⟩,
    ⟨0x2000, 0x2fff⟩, ⟨0x3000, 0x3fff⟩, ⟨0x4000, 0x4fff⟩, ⟨0x5000, 0x5fff⟩,
    ⟨0x6000, 0x6fff⟩, ⟨0x7000, 0x7fff⟩, ⟨0x9000, 0x9fff⟩, ⟨0x12000, 0x12fff⟩,
    ⟨0x8000, 0x8fff⟩, ⟨0xa000, 0xafff⟩, ⟨0xb000, 0xbfff⟩, ⟨0x01, 0xff⟩, ⟨0x100, 0x1ff⟩,
    ⟨0x3200000000000000000000000000000000000000, 0x32ff000000000000000000000000000000000000⟩,
    ⟨0, 0⟩, ⟨0xdEaD, 0xdEaD⟩,
    ⟨0xdEaD000000000000000000000000000000000000, 0xdEaD000000000000000000000000000000000000⟩]

def reservedAddress (addr : Address) : Bool :=
  reservedRanges.any fun reservedRange => reservedRange.contains addr

/-- The errors of `RegisterModule`, with what their texts name. -/
inductive RegisterError
  | blackhole (address : Address)
  | notReserved (address : Address)
  /-- The key with the address it is registered at. -/
  | keyCollision (key : String) (address : Address)
  /-- The address with the key that uses it and the key that asked for it. -/
  | addressCollision (address : Address) (key newKey : String)
deriving DecidableEq

section Registry

variable {Impl : Type}

/-- `Module`; the contract and its configurator are not looked at. -/
structure Module (Impl : Type) where
  configKey : String
  address : Address
  impl : Impl
  alwaysOn : Bool
deriving DecidableEq

/-- The order of the registry. -/
def addressLe (a b : Module Impl) : Prop := a.address ≤ b.address

instance decidable_addressLe (a b : Module Impl) : Decidable (addressLe a b) :=
  inferInstanceAs (Decidable (a.address ≤ b.address))

def insertSortedByAddress (data : List (Module Impl)) (stm : Module Impl) :
    List (Module Impl) :=
  (data ++ [stm]).insertionSort addressLe

/-- What a registered module has in common with a new one: the key is compared first. -/
def collision (stm registeredModule : Module Impl) : Option RegisterError :=
  if registeredModule.configKey = stm.configKey then
    some (.keyCollision stm.configKey registeredModule.address)
  else if registeredModule.address = stm.address then
    some (.addressCollision stm.address registeredModule.configKey stm.configKey)
  else none

/-- `RegisterModule`: the registry afterwards, and the error if there is one. -/
def registerModule (registeredModules : List (Module Impl)) (stm : Module Impl) :
    List (Module Impl) × Option RegisterError :=
  if stm.address = blackholeAddr then (registeredModules, some (.blackhole stm.address))
  else if !reservedAddress stm.address then
    (registeredModules, some (.notReserved stm.address))
  else
    match registeredModules.findSome? (collision stm) with
    | some e => (registeredModules, some e)
    | none => (insertSortedByAddress registeredModules stm, none)

def getPrecompileModuleByAddress (registeredModules : List (Module Impl)) (address : Address) :
    Option (Module Impl) :=
  lookup Module.address registeredModules address

def getPrecompileModule (registeredModules : List (Module Impl)) (key : String) :
    Option (Module Impl) :=
  lookup Module.configKey registeredModules key

def alwaysOnModules (registeredModules : List (Module Impl)) : List (Module Impl) :=
  registeredModules.filter Module.alwaysOn

/-- A sequence of registrations: the registry afterwards, and the modules whose
registration succeeded. -/
def registerModules : List (Module Impl) → List (Module Impl) →
    List (Module Impl) × List (Module Impl)
  | registeredModules, [] => (registeredModules, [])
  | registeredModules, stm :: rest =>
      let outcome := registerModule registeredModules stm
      let later := registerModules outcome.1 rest
      match outcome.2 with
      | some _ => later
      | none => (later.1, stm :: later.2)

/-! ## One registration -/

/-- What `RegisterModule` asks of a module alone. -/
def Admitted (stm : Module Impl) : Prop :=
  stm.address ≠ blackholeAddr ∧ reservedAddress stm.address = true

/-- Neither the key nor the address of a module is taken. -/
def Fresh (registeredModules : List (Module Impl)) (stm : Module Impl) : Prop :=
  ∀ registeredModule ∈ registeredModules,
    registeredModule.configKey ≠ stm.configKey ∧ registeredModule.address ≠ stm.address

theorem findSome_collision_eq_none {registeredModules : List (Module Impl)} {stm : Module Impl} :
    registeredModules.findSome? (collision stm) = none ↔ Fresh registeredModules stm := by
  rw [List.findSome?_eq_none_iff]
  refine forall₂_congr fun registeredModule _ => ?_
  unfold collision
  split_ifs with hkey haddress
  · simp [hkey]
  · simp [haddress]
  · simp [hkey, haddress]

/-- A registration either fails and changes nothing, or admits a fresh module. -/
theorem registerModule_cases (registeredModules : List (Module Impl)) (stm : Module Impl) :
    (¬(Admitted stm ∧ Fresh registeredModules stm) ∧
      ∃ e, registerModule registeredModules stm = (registeredModules, some e)) ∨
    (Admitted stm ∧ Fresh registeredModules stm) ∧
      registerModule registeredModules stm =
        (insertSortedByAddress registeredModules stm, none) := by
  unfold registerModule
  split_ifs with hblackhole hreserved
  · exact Or.inl ⟨fun h => h.1.1 hblackhole, _, rfl⟩
  · refine Or.inl ⟨fun h => ?_, _, rfl⟩
    rw [h.1.2] at hreserved
    cases hreserved
  · cases hfind : registeredModules.findSome? (collision stm) with
    | some e =>
        refine Or.inl ⟨fun h => ?_, e, rfl⟩
        rw [findSome_collision_eq_none.mpr h.2] at hfind
        cases hfind
    | none =>
        refine Or.inr ⟨⟨⟨hblackhole, by simpa using hreserved⟩, ?_⟩, rfl⟩
        exact findSome_collision_eq_none.mp hfind

theorem registerModule_error {registeredModules registeredModules' : List (Module Impl)}
    {stm : Module Impl} {e : RegisterError}
    (h : registerModule registeredModules stm = (registeredModules', some e)) :
    registeredModules' = registeredModules := by
  rcases registerModule_cases registeredModules stm with ⟨-, e', hcase⟩ | ⟨-, hcase⟩
  · rw [h, Prod.mk.injEq] at hcase
    exact hcase.1
  · rw [h, Prod.mk.injEq] at hcase
    cases hcase.2

/-! ## The order -/

/-- The modules stand in ascending order of their addresses, with keys of their own. -/
structure InOrder (registeredModules : List (Module Impl)) : Prop where
  ascending : registeredModules.Pairwise fun a b => a.address < b.address
  keys : DistinctKeys Module.configKey registeredModules

theorem InOrder.addresses {registeredModules : List (Module Impl)}
    (h : InOrder registeredModules) : DistinctKeys Module.address registeredModules := by
  rw [DistinctKeys, List.Nodup, List.pairwise_map]
  exact h.ascending.imp fun hlt => hlt.ne

theorem InOrder.eq_of_perm {registeredModules registeredModules' : List (Module Impl)}
    (h : InOrder registeredModules) (h' : InOrder registeredModules')
    (hperm : registeredModules.Perm registeredModules') :
    registeredModules = registeredModules' := by
  refine List.Perm.eq_of_pairwise ?_ h.ascending h'.ascending hperm
  intro a b _ _ hab hba
  exact absurd hab hba.asymm

theorem insertSortedByAddress_perm (data : List (Module Impl)) (stm : Module Impl) :
    (insertSortedByAddress data stm).Perm (stm :: data) :=
  (List.perm_insertionSort addressLe _).trans (List.perm_append_singleton _ _)

/-- Sorting puts a fresh module in its place. -/
theorem InOrder.insert {registeredModules : List (Module Impl)} {stm : Module Impl}
    (h : InOrder registeredModules) (hfresh : Fresh registeredModules stm) :
    InOrder (insertSortedByAddress registeredModules stm) := by
  have hperm := insertSortedByAddress_perm registeredModules stm
  have hkeys : DistinctKeys Module.configKey (stm :: registeredModules) := by
    rw [DistinctKeys, List.map_cons, List.nodup_cons]
    refine ⟨fun hmem => ?_, h.keys⟩
    obtain ⟨registeredModule, hin, hkey⟩ := List.mem_map.mp hmem
    exact (hfresh registeredModule hin).1 hkey
  have haddresses : DistinctKeys Module.address (stm :: registeredModules) := by
    rw [DistinctKeys, List.map_cons, List.nodup_cons]
    refine ⟨fun hmem => ?_, h.addresses⟩
    obtain ⟨registeredModule, hin, haddress⟩ := List.mem_map.mp hmem
    exact (hfresh registeredModule hin).2 haddress
  have htotal : Std.Total (@addressLe Impl) :=
    ⟨fun a b => le_total a.address b.address⟩
  have htrans : IsTrans (Module Impl) addressLe :=
    ⟨fun _ _ _ hab hbc => le_trans (α := Address) hab hbc⟩
  refine ⟨?_, hkeys.perm hperm⟩
  have hsorted : (insertSortedByAddress registeredModules stm).Pairwise addressLe :=
    List.pairwise_insertionSort addressLe _
  have hdistinct : (insertSortedByAddress registeredModules stm).Pairwise
      fun a b => a.address ≠ b.address := by
    have hnodup := haddresses.perm hperm
    rwa [DistinctKeys, List.Nodup, List.pairwise_map] at hnodup
  exact hsorted.imp₂ (fun a b hle hne => lt_of_le_of_ne hle hne) hdistinct

theorem InOrder.registerModule {registeredModules : List (Module Impl)}
    (h : InOrder registeredModules) (stm : Module Impl) :
    InOrder (registerModule registeredModules stm).1 := by
  rcases registerModule_cases registeredModules stm with ⟨-, e, hcase⟩ | ⟨⟨-, hfresh⟩, hcase⟩
  · rw [hcase]
    exact h
  · rw [hcase]
    exact h.insert hfresh

/-! ## Sequences of registrations -/

/-- After any registrations the registry is in order and holds, besides what it held, the
modules that succeeded. -/
theorem registerModules_spec (stms : List (Module Impl)) :
    ∀ {registeredModules : List (Module Impl)}, InOrder registeredModules →
      InOrder (registerModules registeredModules stms).1 ∧
      (registerModules registeredModules stms).1.Perm
        (registeredModules ++ (registerModules registeredModules stms).2) := by
  induction stms with
  | nil =>
      intro registeredModules h
      exact ⟨h, by simp [registerModules]⟩
  | cons stm rest ih =>
      intro registeredModules h
      have hnext := h.registerModule stm
      rcases registerModule_cases registeredModules stm with ⟨-, e, hcase⟩ | ⟨-, hcase⟩
      · rw [registerModules, hcase]
        exact ih h
      · rw [hcase] at hnext
        obtain ⟨horder, hperm⟩ := ih hnext
        rw [registerModules, hcase]
        refine ⟨horder, hperm.trans ?_⟩
        have hinsert := insertSortedByAddress_perm registeredModules stm
        exact (hinsert.append_right _).trans List.perm_middle.symm

/-- Modules that are admitted alone and do not collide with each other are all
registered. -/
theorem registerModules_distinct (stms : List (Module Impl)) :
    ∀ {registeredModules : List (Module Impl)}, InOrder registeredModules →
      (∀ stm ∈ stms, Admitted stm) →
      DistinctKeys Module.address (registeredModules ++ stms) →
      DistinctKeys Module.configKey (registeredModules ++ stms) →
      (registerModules registeredModules stms).2 = stms := by
  induction stms with
  | nil => intro _ _ _ _ _; rfl
  | cons stm rest ih =>
      intro registeredModules h hadmitted haddresses hkeys
      have hfresh : Fresh registeredModules stm := by
        intro registeredModule hin
        rw [DistinctKeys, List.map_append] at haddresses hkeys
        have hmem : ∀ {κ : Type} (key : Module Impl → κ),
            key registeredModule ∈ registeredModules.map key ∧
              key stm ∈ (stm :: rest).map key := fun key =>
          ⟨List.mem_map_of_mem hin, List.mem_map_of_mem List.mem_cons_self⟩
        exact ⟨(List.nodup_append.mp hkeys).2.2 _ (hmem _).1 _ (hmem _).2,
          (List.nodup_append.mp haddresses).2.2 _ (hmem _).1 _ (hmem _).2⟩
      have hperm : (insertSortedByAddress registeredModules stm ++ rest).Perm
          (registeredModules ++ stm :: rest) :=
        ((insertSortedByAddress_perm registeredModules stm).append_right rest).trans
          List.perm_middle.symm
      rcases registerModule_cases registeredModules stm with ⟨hnot, -⟩ | ⟨-, hcase⟩
      · exact absurd ⟨hadmitted stm List.mem_cons_self, hfresh⟩ hnot
      · rw [registerModules, hcase]
        have hrest := ih (h.insert hfresh)
          (fun stm' hin => hadmitted stm' (List.mem_cons_of_mem _ hin))
          (haddresses.perm hperm) (hkeys.perm hperm)
        simp only [hrest]

theorem inOrder_nil : InOrder ([] : List (Module Impl)) :=
  ⟨List.Pairwise.nil, List.nodup_nil⟩

theorem InOrder.get {registeredModules : List (Module Impl)} (h : InOrder registeredModules)
    (stm : Module Impl) :
    (getPrecompileModuleByAddress registeredModules stm.address = some stm ↔
      stm ∈ registeredModules) ∧
    (getPrecompileModule registeredModules stm.configKey = some stm ↔
      stm ∈ registeredModules) := by
  refine ⟨?_, ?_⟩
  · rw [getPrecompileModuleByAddress, lookup_eq_some h.addresses]
    exact and_iff_left rfl
  · rw [getPrecompileModule, lookup_eq_some h.keys]
    exact and_iff_left rfl

theorem InOrder.alwaysOnModules {registeredModules : List (Module Impl)}
    (h : InOrder registeredModules) : InOrder (alwaysOnModules registeredModules) :=
  ⟨h.ascending.filter _, (List.filter_sublist.map _).nodup h.keys⟩

/-- Modules admitted alone, with addresses and keys of their own, are registered in any
order with one result; whatever is registered, the registry is ascending and holds exactly
the modules whose registration succeeded, and a failure changes nothing. -/
theorem registry_order_independent (Impl : Type) :
    (∀ stms stms' : List (Module Impl), (∀ stm ∈ stms, (registerModule [] stm).2 = none) →
      DistinctKeys Module.address stms → DistinctKeys Module.configKey stms →
      stms'.Perm stms →
      (registerModules [] stms').2 = stms' ∧
      (registerModules [] stms').1 = (registerModules [] stms).1) ∧
    (∀ stms : List (Module Impl),
      ((registerModules [] stms).1.Pairwise fun a b => a.address < b.address) ∧
      DistinctKeys Module.address (registerModules [] stms).1 ∧
      DistinctKeys Module.configKey (registerModules [] stms).1 ∧
      (registerModules [] stms).1.Perm (registerModules [] stms).2) ∧
    ∀ (registeredModules : List (Module Impl)) (stm : Module Impl),
      (registerModule registeredModules stm).2 ≠ none →
      (registerModule registeredModules stm).1 = registeredModules := by
  refine ⟨fun stms stms' hadmits haddresses hkeys hperm => ?_, fun stms => ?_,
    fun registeredModules stm hfailed => ?_⟩
  · have hadmitted : ∀ stm ∈ stms, Admitted stm := by
      intro stm hin
      rcases registerModule_cases [] stm with ⟨-, e, hcase⟩ | ⟨h, -⟩
      · have hnone := hadmits stm hin
        rw [hcase] at hnone
        cases hnone
      · exact h.1
    have hall := registerModules_distinct stms inOrder_nil hadmitted haddresses hkeys
    have hall' := registerModules_distinct stms' inOrder_nil
      (fun stm hin => hadmitted stm (hperm.subset hin)) (haddresses.perm hperm)
      (hkeys.perm hperm)
    obtain ⟨horder, hsame⟩ := registerModules_spec stms inOrder_nil
    obtain ⟨horder', hsame'⟩ := registerModules_spec stms' inOrder_nil
    rw [hall, List.nil_append] at hsame
    rw [hall', List.nil_append] at hsame'
    exact ⟨hall', horder'.eq_of_perm horder (hsame'.trans (hperm.trans hsame.symm))⟩
  · obtain ⟨horder, hperm⟩ := registerModules_spec stms inOrder_nil
    rw [List.nil_append] at hperm
    exact ⟨horder.ascending, horder.addresses, horder.keys, hperm⟩
  · obtain ⟨e, he⟩ := Option.ne_none_iff_exists'.mp hfailed
    exact registerModule_error (Prod.ext rfl he)

end Registry

/-- Three modules of the repository, registered in two orders. -/
def anchorModule : Module Unit :=
  ⟨"anchorConfig", 0x0700000000000000000000000000000000000010, (), false⟩

def computeMarketModule : Module Unit :=
  ⟨"computeMarketConfig", 0x0300000000000000000000000000000000000010, (), false⟩

def x25519Module : Module Unit := ⟨"x25519Config", 0x9203, (), false⟩

theorem registry_order_independent_three :
    (registerModules [] [anchorModule, computeMarketModule, x25519Module]).1 =
      [x25519Module, computeMarketModule, anchorModule] ∧
    (registerModules [] [x25519Module, anchorModule, computeMarketModule]).2 =
      [x25519Module, anchorModule, computeMarketModule] ∧
    (registerModules [] [x25519Module, anchorModule, computeMarketModule]).1 =
      (registerModules [] [anchorModule, computeMarketModule, x25519Module]).1 := by
  refine ⟨by decide, (registry_order_independent Unit).1 _ _ ?_ ?_ ?_ ?_⟩
  · decide
  · rw [DistinctKeys]
    decide
  · rw [DistinctKeys]
    decide
  · decide

end LuxPrecompile.Modules
