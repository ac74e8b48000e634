import Mathlib.Logic.Function.Basic
import Ark.GovTimelock.Acts
import Ark.GovTimelock.Genesis

/- The registered upgrade handlers (`app/upgrades/v8_4`, `app/upgrades/v8_5`,
   `app/app.go`).

   The module manager is not in this repository. `Manager.Lawful` is what the
   handlers rely on: `RunMigrations` initializes a module with genesis that is
   absent from the version map it is given, from that module's default genesis,
   leaves a module of the current version alone, and returns a version map with
   every registered module. `x/upgrade` stores the version map a handler returns
   over the one that was stored.

   What is proved: the v8.5.0 handler sets the activation height to its own height
   and does not run `InitGenesis` (`v8_5.handler_ok`), and the other handlers leave
   the activation height unset exactly when the stored version map already has
   govtimelock (`activation_unset_iff`). -/
namespace Ark.GovTimelock
open Ark.Lib Ark.Gov Effect

/-- `ConsensusVersion`. -/
def consensusVersion : Nat := 1

/-- `module.VersionMap`. -/
abbrev VersionMap := String → Option Nat

/-- The keepers an upgrade handler reads: whether `GovTimelockKeeper` is not `nil`. -/
structure UpgradeKeepers where
  govTimelockKeeper : Bool

/-- `upgradetypes.UpgradeHandler`. -/
abbrev UpgradeHandler (Any Rest : Type) := Ctx → VersionMap → M Any Rest VersionMap

/-- `module.Manager`, of which handlers call `RunMigrations`. -/
structure Manager (Any Rest : Type) where
  runMigrations : Ctx → VersionMap → M Any Rest VersionMap

structure Upgrade (Any Rest : Type) where
  upgradeName : String
  createUpgradeHandler : Manager Any Rest → UpgradeKeepers → UpgradeHandler Any Rest

variable {Any Msg Rest : Type}

namespace v8_4

def upgradeName : String := "v8.4.0"

def createUpgradeHandler (mm : Manager Any Rest) (_keepers : UpgradeKeepers) :
    UpgradeHandler Any Rest := fun ctx vm => do
  let vm ← mm.runMigrations ctx vm
  pure vm

def upgrade : Upgrade Any Rest := ⟨upgradeName, createUpgradeHandler⟩

end v8_4

namespace v8_5

def upgradeName : String := "v8.5.0"

def createUpgradeHandler (mm : Manager Any Rest) (keepers : UpgradeKeepers) :
    UpgradeHandler Any Rest := fun ctx vm => do
  let vm := if keepers.govTimelockKeeper then
    Function.update vm moduleName (some consensusVersion) else vm
  let vm ← mm.runMigrations ctx vm
  runIf keepers.govTimelockKeeper (setActivationHeight ctx.height)
  pure vm

def upgrade : Upgrade Any Rest := ⟨upgradeName, createUpgradeHandler⟩

end v8_5

/-- `Upgrades`. -/
def Upgrades : List (Upgrade Any Rest) := [v8_4.upgrade, v8_5.upgrade]

/-- `setupUpgradeHandlers`: every name with its handler; the timelock's keeper goes to the
handler of v8.5.0 only. -/
def setupUpgradeHandlers (mm : Manager Any Rest) : List (String × UpgradeHandler Any Rest) :=
  Upgrades.map fun upgrade => (upgrade.upgradeName,
    upgrade.createUpgradeHandler mm ⟨decide (upgrade.upgradeName = v8_5.upgradeName)⟩)

/-- What `x/upgrade` stores after a handler: the returned versions over the stored ones. -/
def setModuleVersionMap (stored updated : VersionMap) : VersionMap := fun name =>
  (updated name).orElse fun _ => stored name

/-- The documented behaviour of `RunMigrations`, as far as govtimelock goes. -/
structure Manager.Lawful (mm : Manager Any Rest) : Prop where
  skips : ∀ {ctx vm vm' s s'}, mm.runMigrations ctx vm s = .ok vm' s' → vm moduleName ≠ none →
    s'.timelock = s.timelock ∧ s'.log = s.log
  inits : ∀ {ctx vm vm' s s'}, mm.runMigrations ctx vm s = .ok vm' s' → vm moduleName = none →
    ∃ (bz : RawMessage) (s₁ s₂ : St Any Rest), defaultGenesis = .ok bz ∧
      s₁.timelock = s.timelock ∧ s₁.log = s.log ∧ initGenesis true bz s₁ = .ok () s₂ ∧ s'.timelock = s₂.timelock ∧ s'.log = s₂.log
  returns : ∀ {ctx vm vm' s s'}, mm.runMigrations ctx vm s = .ok vm' s' →
    vm' moduleName = some consensusVersion

/-- The default genesis decodes to itself: no entries, active from height 1. -/
theorem defaultGenesis_ok {bz : RawMessage} (h : defaultGenesis = .ok bz) :
    unmarshalGenesis bz = .ok GenesisState.default := by
  have hbz : bz = .object (some []) (some 1) (some 0) := (Except.ok.inj h).symm
  rw [hbz]
  rfl

section Handlers
variable {mm : Manager Any Rest} {ctx : Ctx} {vm vm' : VersionMap} {s s' : St Any Rest}

theorem mem_setupUpgradeHandlers {name : String} {handler : UpgradeHandler Any Rest} :
    (name, handler) ∈ setupUpgradeHandlers mm ↔
      (name = v8_4.upgradeName ∧ handler = v8_4.createUpgradeHandler mm ⟨false⟩) ∨
      (name = v8_5.upgradeName ∧ handler = v8_5.createUpgradeHandler mm ⟨true⟩) := by
  have h4 : decide (v8_4.upgradeName = v8_5.upgradeName) = false := by decide
  simp [setupUpgradeHandlers, Upgrades, v8_4.upgrade, v8_5.upgrade, h4]

/-- The v8.5.0 handler sets the activation height to the block's and nothing else of the
timelock's store, and `InitGenesis` does not run. -/
theorem v8_5.handler_ok (hmm : mm.Lawful)
    (h : v8_5.createUpgradeHandler mm ⟨true⟩ ctx vm s = .ok vm' s') :
    s'.timelock = s.timelock.setActivationHeight ctx.height ∧ s'.log = s.log ∧
      vm' moduleName = some consensusVersion := by
  simp only [v8_5.createUpgradeHandler, if_true, runIf_true, bind_ok, setActivationHeight_ok,
    pure_ok] at h
  obtain ⟨_, s₁, hrun, _, _, rfl, rfl, rfl⟩ := h
  obtain ⟨ht, hl⟩ := hmm.skips hrun (by simp)
  exact ⟨by rw [ht], hl, hmm.returns hrun⟩

/-- The v8.4.0 handler on a version map that has govtimelock leaves the timelock's store. -/
theorem v8_4.handler_skips (hmm : mm.Lawful) {keepers : UpgradeKeepers}
    (h : v8_4.createUpgradeHandler mm keepers ctx vm s = .ok vm' s') (hvm : vm moduleName ≠ none) :
    s'.timelock = s.timelock := (hmm.skips h hvm).1

/-- The v8.4.0 handler on a version map without govtimelock initializes it, which activates
the timelock from height 1. -/
theorem v8_4.handler_inits (hmm : mm.Lawful) {keepers : UpgradeKeepers}
    (h : v8_4.createUpgradeHandler mm keepers ctx vm s = .ok vm' s') (hvm : vm moduleName = none) :
    s'.timelock.activationHeight = some 1 := by
  obtain ⟨bz, s₁, s₂, hbz, _, _, hinit, ht, _⟩ := hmm.inits h hvm
  obtain ⟨gs, hgs, _, _, rfl⟩ := initGenesis_ok.mp hinit
  rw [defaultGenesis_ok hbz] at hgs
  cases hgs
  rw [ht]
  rfl

theorem v8_4.handler_returns (hmm : mm.Lawful) {keepers : UpgradeKeepers}
    (h : v8_4.createUpgradeHandler mm keepers ctx vm s = .ok vm' s') : vm' moduleName ≠ none := by
  rw [hmm.returns h]
  exact nofun

end Handlers

/-! ## Sequences of upgrades -/

/-- One upgrade of a chain, by block and name: the registered handler runs on a state the
chain reached since the last one, in which the activation height was not written, and the
version map is stored. -/
def UpgradeStep (mm : Manager Any Rest) (c : St Any Rest × VersionMap) (l : Ctx × String)
    (c' : St Any Rest × VersionMap) : Prop :=
  ∃ handler s vm, (l.2, handler) ∈ setupUpgradeHandlers mm ∧
    s.timelock.activationHeight = c.1.timelock.activationHeight ∧
    handler l.1 c.2 s = .ok vm c'.1 ∧ c'.2 = setModuleVersionMap c.2 vm

section Sequences
variable {mm : Manager Any Rest} {c c' : St Any Rest × VersionMap} {l : Ctx × String}
  {L : List (Ctx × String)}

theorem UpgradeStep.v8_4 {ctx : Ctx} {vm : VersionMap} {s' : St Any Rest}
    (h : v8_4.createUpgradeHandler mm ⟨false⟩ ctx c.2 c.1 = .ok vm s') :
    UpgradeStep mm c (ctx, v8_4.upgradeName) (s', setModuleVersionMap c.2 vm) :=
  ⟨_, _, _, mem_setupUpgradeHandlers.mpr (.inl ⟨rfl, rfl⟩), rfl, h, rfl⟩

/-- An upgrade other than v8.5.0 stores a version map with govtimelock. -/
theorem UpgradeStep.versionMap (hmm : mm.Lawful) (h : UpgradeStep mm c l c')
    (hl : l.2 ≠ v8_5.upgradeName) : c'.2 moduleName ≠ none := by
  obtain ⟨handler, s, vm, hmem, _, hrun, hvm⟩ := h
  rcases mem_setupUpgradeHandlers.mp hmem with ⟨_, rfl⟩ | ⟨hname, _⟩
  · have hne := v8_4.handler_returns hmm hrun
    rw [hvm]
    unfold setModuleVersionMap
    cases hv : vm moduleName with
    | none => exact absurd hv hne
    | some v => exact nofun
  · exact absurd hname hl

/-- An upgrade other than v8.5.0 keeps the activation height when the stored version map has
govtimelock. -/
theorem UpgradeStep.skips (hmm : mm.Lawful) (h : UpgradeStep mm c l c')
    (hl : l.2 ≠ v8_5.upgradeName) (hvm : c.2 moduleName ≠ none) :
    c'.1.timelock.activationHeight = c.1.timelock.activationHeight := by
  obtain ⟨handler, s, vm, hmem, hs, hrun, _⟩ := h
  rcases mem_setupUpgradeHandlers.mp hmem with ⟨_, rfl⟩ | ⟨hname, _⟩
  · rw [v8_4.handler_skips hmm hrun hvm, hs]
  · exact absurd hname hl

/-- Otherwise it activates the timelock from height 1. -/
theorem UpgradeStep.inits (hmm : mm.Lawful) (h : UpgradeStep mm c l c')
    (hl : l.2 ≠ v8_5.upgradeName) (hvm : c.2 moduleName = none) :
    c'.1.timelock.activationHeight = some 1 := by
  obtain ⟨handler, s, vm, hmem, _, hrun, _⟩ := h
  rcases mem_setupUpgradeHandlers.mp hmem with ⟨_, rfl⟩ | ⟨hname, _⟩
  · exact v8_4.handler_inits hmm hrun hvm
  · exact absurd hname hl

/-- A sequence of upgrades other than v8.5.0 keeps the activation height when the stored
version map has govtimelock. -/
theorem upgrades_skip (hmm : mm.Lawful) (h : Steps (UpgradeStep mm) c L c')
    (hL : ∀ l ∈ L, l.2 ≠ v8_5.upgradeName) (hvm : c.2 moduleName ≠ none) :
    c'.1.timelock.activationHeight = c.1.timelock.activationHeight := by
  induction h with
  | nil => rfl
  | @cons c d c' l L hl _ ih =>
    have hname := hL l (by simp)
    rw [ih (fun m hm => hL m (by simp [hm])) (hl.versionMap hmm hname), hl.skips hmm hname hvm]

/-- **Which upgrades activate.** On a chain with no activation height, a sequence of registered
upgrades other than v8.5.0 leaves the timelock inactive exactly when it is empty or the stored
version map has govtimelock; the v8.5.0 handler sets the activation height to its own height
and does not run `InitGenesis`. -/
theorem activation_unset_iff (mm : Manager Any Rest) (hmm : mm.Lawful)
    {c c' : St Any Rest × VersionMap} {L : List (Ctx × String)}
    (hunset : c.1.timelock.activationHeight = none) (h : Steps (UpgradeStep mm) c L c')
    (hL : ∀ l ∈ L, l.2 ≠ v8_5.upgradeName) :
    ((c'.1.timelock.activationHeight = none ∧ ∀ height, c'.1.timelock.isActive height = false) ↔
      (L = [] ∨ c.2 moduleName ≠ none)) ∧
    ∀ handler ctx vm vm' s s', (v8_5.upgradeName, handler) ∈ setupUpgradeHandlers mm →
      handler ctx vm s = .ok vm' s' →
      s'.timelock = s.timelock.setActivationHeight ctx.height ∧ s'.log = s.log := by
  refine ⟨⟨fun hinactive => ?_, fun hcond => ?_⟩, ?_⟩
  · cases h with
    | nil => exact .inl rfl
    | @cons _ d _ l L hl hrest =>
      -- the first upgrade would have run `InitGenesis`, and no later one unsets the height
      refine .inr fun hvm => ?_
      have hname := hL l (by simp)
      have hkeep := upgrades_skip hmm hrest (fun m hm => hL m (by simp [hm]))
        (hl.versionMap hmm hname)
      rw [hl.inits hmm hname hvm, hinactive.1] at hkeep
      cases hkeep
  · have hnone : c'.1.timelock.activationHeight = none := by
      rcases hcond with rfl | hvm
      · rw [Steps.nil_iff.mp h]
        exact hunset
      · rw [upgrades_skip hmm h hL hvm, hunset]
    refine ⟨hnone, fun height => ?_⟩
    unfold Timelock.isActive
    rw [hnone]
  · intro handler ctx vm vm' s s' hmem hrun
    rcases mem_setupUpgradeHandlers.mp hmem with ⟨hname, _⟩ | ⟨_, rfl⟩
    · exact absurd hname (by decide)
    · obtain ⟨ht, hlog, _⟩ := v8_5.handler_ok hmm hrun
      exact ⟨ht, hlog⟩

/-- The manager of a chain whose only module with genesis is govtimelock. -/
def govtimelockManager : Manager Any Rest where
  runMigrations _ vm := do
    runIf (decide (vm moduleName = none)) do
      match defaultGenesis with
      | .ok bz => initGenesis true bz
      | .error e => throw e
    pure (Function.update vm moduleName (some consensusVersion))

theorem defaultGenesis_eq : defaultGenesis = .ok (.object (some []) (some 1) (some 0)) := rfl

theorem govtimelockManager_lawful : (govtimelockManager : Manager Any Rest).Lawful where
  skips := by
    intro ctx vm vm' s s' h hvm
    simp only [govtimelockManager, hvm, decide_false, runIf_false, bind_ok, pure_ok] at h
    obtain ⟨_, _, ⟨_, rfl⟩, rfl, rfl⟩ := h
    exact ⟨rfl, rfl⟩
  inits := by
    intro ctx vm vm' s s' h hvm
    simp only [govtimelockManager, hvm, decide_true, runIf_true, defaultGenesis_eq, bind_ok,
      pure_ok] at h
    obtain ⟨_, s₂, hinit, rfl, rfl⟩ := h
    exact ⟨_, s, s₂, defaultGenesis_eq, rfl, rfl, hinit, rfl, rfl⟩
  returns := by
    intro ctx vm vm' s s' h
    simp only [govtimelockManager, bind_ok, pure_ok] at h
    obtain ⟨_, _, _, rfl, rfl⟩ := h
    simp

end Sequences

def firstBlock : Ctx := blockAt 1 0 (by decide)

/-- A chain that stored versions without govtimelock, and its state after v8.4.0. -/
theorem v8_4_activates : (govtimelockManager : Manager Unit Unit).Lawful ∧
    ∃ c' : St Unit Unit × VersionMap,
    Steps (UpgradeStep govtimelockManager) (⟨World.empty (), Timelock.fresh, []⟩, fun _ => none)
      [(firstBlock, v8_4.upgradeName)] c' ∧
    c'.1.timelock.activationHeight = some 1 ∧ c'.1.timelock.isActive 1 = true := by
  refine ⟨govtimelockManager_lawful, _, .cons (.v8_4 rfl) (.nil _), ?_, ?_⟩ <;> rfl

/-- v8.4.0 on a chain that stored a version for govtimelock. -/
theorem v8_4_skips_stored : ∃ c' : St Unit Unit × VersionMap,
    Steps (UpgradeStep govtimelockManager) (⟨World.empty (), Timelock.fresh, []⟩, fun _ => some 1)
      [(firstBlock, v8_4.upgradeName)] c' ∧ c'.1.timelock.activationHeight = none := by
  have h : Steps (UpgradeStep govtimelockManager)
      ((⟨World.empty (), Timelock.fresh, []⟩, fun _ => some 1) : St Unit Unit × VersionMap)
      [(firstBlock, v8_4.upgradeName)] _ := .cons (.v8_4 rfl) (.nil _)
  exact ⟨_, h, ((activation_unset_iff govtimelockManager govtimelockManager_lawful rfl h
    (by decide)).1.mpr (.inr nofun)).1⟩

end Ark.GovTimelock
