import Ark.Export.Reset
import Ark.GovTimelock.Delay
import Ark.GovTimelock.RoundTrip

/- A new chain from the export of an old one (`app/export.go`,
   `ExportAppStateAndValidators`).

   For zero height the state is prepared first, and the modules are exported after. The
   new chain starts at height 1 from the exported genesis, with x/gov's proposals in it.
   What the old chain had scheduled is not scheduled there (`prepForZeroHeightGenesis_timelock`); its
   proposals have passed and stand in no queue, so that nothing brings them back
   (`forked_idle`); the timelock is on in every block (`forked_active`), and whatever the
   new chain executes waited for the delay on the new chain (`fork_starts_clean`).

   Correspondence (Go ↔ Lean):
     `ExportGenesisForModules`  ↔ `Exporters.exportGenesisForModules`, a parameter; what
                                   the code relies on is `Exporters.Lawful`
     `staking.WriteValidators`  ↔ `Exporters.writeValidators`
     `json.MarshalIndent`       ↔ left out: it only lays the genesis out -/
namespace Ark.Export
open Ark.Lib Ark.Lib.Effect Ark.Gov Ark.GovTimelock Ark.Sdk

/-! ## The export -/

/-- The genesis of one module. -/
inductive ModuleGenesis (Genesis : Type) where
  | govtimelock (bz : RawMessage)
  | other (bz : Genesis)

/-- What the export calls beside the keepers, at the height of the last block. -/
structure Exporters (Rest Genesis Validators Params : Type) where
  /-- `OrderExportGenesis`. -/
  moduleNames : List String
  /-- The module manager's. -/
  exportGenesisForModules : List String → St Rest →
    Except Fault (List (String × ModuleGenesis Genesis))
  writeValidators : Rest → Validators × Option String
  getConsensusParams : Rest → Params

/-- The modules that an export is asked for: all of them where none is named. -/
def Exporters.asked {Rest Genesis Validators Params : Type}
    (x : Exporters Rest Genesis Validators Params) (modulesToExport : List String) : List String :=
  if modulesToExport.length = 0 then x.moduleNames else modulesToExport

/-- The genesis of the timelock is what its `ExportGenesis` returns, wherever it is asked for. -/
structure Exporters.Lawful {Rest Genesis Validators Params : Type}
    (x : Exporters Rest Genesis Validators Params) : Prop where
  govtimelock : ∀ modulesToExport s appState,
    x.exportGenesisForModules modulesToExport s = .ok appState →
    "govtimelock" ∈ x.asked modulesToExport →
      ∃ bz, exportGenesis s.timelock = .ok bz ∧
        appState.lookup "govtimelock" = some (.govtimelock bz)

/-- `servertypes.ExportedApp`. -/
structure ExportedApp (Genesis Validators Params : Type) where
  appState : List (String × ModuleGenesis Genesis)
  validators : Validators
  height : Int
  consensusParams : Params

section
variable {Rest Genesis Validators Params : Type} (k : Keepers Rest)
  (x : Exporters Rest Genesis Validators Params)

/-- The height of the export, with the state prepared for it. -/
def exportHeight (lastBlockHeight : Int) (forZeroHeight : Bool) (jailAllowedAddrs : List String) :
    ExportM Rest Int :=
  if forZeroHeight then do
    prepForZeroHeightGenesis k lastBlockHeight jailAllowedAddrs
    pure 0
  else pure (lastBlockHeight + 1)

/-- `ExportAppStateAndValidators`: the state of the application and the error that is returned
with it. -/
def exportAppStateAndValidators (lastBlockHeight : Int) (forZeroHeight : Bool)
    (jailAllowedAddrs modulesToExport : List String) :
    ExportM Rest (Option (ExportedApp Genesis Validators Params) × Option String) := do
  let height ← exportHeight k lastBlockHeight forZeroHeight jailAllowedAddrs
  let s ← get
  match x.exportGenesisForModules modulesToExport s with
  | .error (.err err) => pure (none, some err)
  | .error (.panic value) => throw (.panic value)
  | .ok appState =>
    let (validators, err) := x.writeValidators s.rest
    pure (some ⟨appState, validators, height, x.getConsensusParams s.rest⟩, err)

end

section
variable {Rest Genesis Validators Params : Type} {k : Keepers Rest}
  {x : Exporters Rest Genesis Validators Params} {s s' : St Rest}

/-- What an export returns: its height, and the geneses of the modules. -/
theorem exportAppStateAndValidators_ok {height : Int} {forZeroHeight : Bool}
    {jailAllowedAddrs modulesToExport : List String}
    {app : ExportedApp Genesis Validators Params} {err : Option String}
    (h : exportAppStateAndValidators k x height forZeroHeight jailAllowedAddrs modulesToExport s =
      .ok (some app, err) s') :
    exportHeight k height forZeroHeight jailAllowedAddrs s = .ok app.height s' ∧
      x.exportGenesisForModules modulesToExport s' = .ok app.appState := by
  obtain ⟨_, u, hheight, h⟩ := bind_ok.mp h
  obtain ⟨_, v, hget, h⟩ := bind_ok.mp h
  cases hget
  cases hmodules : x.exportGenesisForModules modulesToExport u with
  | error fault =>
    rw [hmodules] at h
    cases fault with
    | err err => cases h
    | panic value => cases h
  | ok appState =>
    rw [hmodules] at h
    cases h
    exact ⟨hheight, hmodules⟩

/-! ## What a zero-height export holds -/

/-- The reset leaves the delay. -/
theorem prepForZeroHeightGenesis_timelock (hclose : k.closeErr = none) {height : Int}
    {jailAllowedAddrs : List String} {u : Unit}
    (h : prepForZeroHeightGenesis k height jailAllowedAddrs s = .ok u s') :
    s'.timelock = ⟨KeySet.empty, some 1, s.timelock.executionDelay⟩ := by
  unfold prepForZeroHeightGenesis at h
  obtain ⟨_, t, hsteps, hend⟩ := bind_ok.mp h
  have hkept := handleFeesAndStaking_keeps k height jailAllowedAddrs s _ t hsteps
  rw [hclose] at hend
  obtain ⟨r, t₁, hupdates, hend⟩ := bind_ok.mp hend
  obtain ⟨_, t₂, hfatal, hend⟩ := bind_ok.mp hend
  obtain ⟨_, t₃, hinfos, hend⟩ := bind_ok.mp hend
  have hinfos' : Keeps St.timelock (resetSigningInfos k height) := by
    apply Keeps.bind' _ orFatal_keeps
    apply iterate_keeps
    intro item
    exact dropCall_keeps _
  unfold resetTimelock at hend
  rw [← bind_assoc] at hend
  obtain ⟨_, t₄, hactivation, hclear⟩ := bind_ok.mp hend
  rw [writeOrPanic_ok hclear, writeOrPanic_ok hactivation]
  show (⟨KeySet.empty, some 1, t₃.timelock.executionDelay⟩ : Timelock) = _
  rw [hinfos' _ _ _ hinfos, orFatal_keeps r _ _ _ hfatal, call_keeps _ _ _ _ hupdates, hkept]

/-- A store that was reset can be exported, whatever was scheduled. -/
theorem exportable_reset {t : Timelock} (h : t.Exportable) :
    Timelock.Exportable ⟨KeySet.empty, some 1, t.executionDelay⟩ where
  times := fun he => absurd he (KeySet.not_mem_empty _)
  ids_pos := fun he => absurd he (KeySet.not_mem_empty _)
  activated := fun he => absurd he (KeySet.not_mem_empty _)
  activation := by
    intro a ha
    cases ha
    decide
  delay := h.delay

end

/-! ## The new chain -/

section
variable {Any Msg Rest : Type} {k : GovKeeper Any Msg Rest} {mm : Manager Any Rest}
  {s s' : GovTimelock.St Any Rest} {Bs : List Block}

/-- Active at height 1 when it starts, active in every block. -/
theorem forked_active (hmm : mm.Lawful) (hactivation : s.timelock.activationHeight = some 1)
    (h : Run k mm Ruled s Bs s') {b : Block} (hb : b ∈ Bs) : b.active = true := by
  obtain ⟨pre, post, rfl⟩ := List.append_of_mem hb
  obtain ⟨u, v, hpre, hstep, _⟩ := h.split_at
  have hlower := (List.pairwise_append.mp h.ordered).2.2
  -- the upgrade may record a height again, which is one that the chain has passed
  have hreached : ∃ a, u.timelock.activationHeight = some a ∧ a ≤ b.ctx.height :=
    hpre.steps.invariant
      (fun u => ∃ a, u.timelock.activationHeight = some a ∧ a ≤ b.ctx.height)
      (fun _ c _ hc ⟨a, ha, hle⟩ hc' => by
        rcases (hc'.activation hmm).1 with hsame | hset
        · exact ⟨a, hsame.trans ha, hle⟩
        · exact ⟨_, hset, (hlower c hc b List.mem_cons_self).1.le⟩)
      ⟨1, hactivation, b.ctx.height_pos⟩
  obtain ⟨hact, hb⟩ := hstep.activation hmm
  rw [hb, Timelock.isActive_iff]
  rcases hact with hsame | hset
  · obtain ⟨a, ha, hle⟩ := hreached
    exact ⟨a, hsame.trans ha, hle⟩
  · exact ⟨_, hset, le_refl _⟩

/-- Every block of a run has the delay that was in force when the run started. -/
theorem forked_delay (hmm : mm.Lawful) (h : Run k mm Ruled s Bs s') {b : Block} (hb : b ∈ Bs) :
    b.delay = s.timelock.getExecutionDelay minimumDelay := by
  obtain ⟨pre, post, rfl⟩ := List.append_of_mem hb
  obtain ⟨u, v, hpre, hstep, _⟩ := h.split_at
  rw [(hstep.delay_eq hmm).1]
  exact hpre.steps.invariant (fun u => u.timelock.getExecutionDelay minimumDelay =
      s.timelock.getExecutionDelay minimumDelay)
    (fun _ _ _ _ hu hc => (hc.delay_eq hmm).2.trans hu) rfl

/-- On a chain that starts without entries, nothing happens to a proposal that has passed. -/
theorem forked_idle (hk : k.Lawful) (hmm : mm.Lawful) (hwf : s.world.WF)
    (hno : ∀ id e, ¬ s.timelock.Entry id e) (h : Run k mm Ruled s Bs s') {id : Nat}
    {p : Proposal Any} (hp : s.world.getProposal id = .found p) (hst : p.status = .passed) :
    Idle id Bs := by
  have hclosed : Holds s id .closed :=
    ⟨hno id, fun q t hslot => (hwf.proposal id).undecided hslot hp (.inl hst),
      (hwf.proposal id).record_id (World.stored_of_found hp)⟩
  have hsim : Sim s (Function.update (fun _ => .unresolved false) id .closed) := by
    refine ⟨hwf, fun i => ?_⟩
    by_cases hi : i = id
    · subst hi
      rw [Function.update_self]
      exact hclosed
    · rw [Function.update_of_ne hi]
      exact ⟨hno i, nofun⟩
  obtain ⟨φ', _, hhist⟩ := h.histories hk hmm hsim
  have hid := hhist id
  rw [Function.update_self] at hid
  exact hid.of_closed.1

/-- A run of a new chain that owes nothing to the schedule of the old one. -/
structure StartsClean (delay : Duration) (waited : Nat → Prop) (Bs : List Block) : Prop where
  active : ∀ b ∈ Bs, b.active = true ∧ b.delay = delay
  idle : ∀ id, waited id → Idle id Bs
  deferred : ∀ b ∈ Bs, ∀ id i, .delivered id i ∈ b.log →
    ∃ a ∈ Bs, .tallied id true ∈ a.log ∧ a.ctx.time + delay ≤ b.ctx.time

/-- A run from a store that was reset is one. -/
theorem forked_startsClean (hk : k.Lawful) (hmm : mm.Lawful) (hwf : s.world.WF)
    (hno : ∀ id e, ¬ s.timelock.Entry id e) (hactivation : s.timelock.activationHeight = some 1)
    {waited : Nat → Prop}
    (hpassed : ∀ id, waited id → ∃ p, s.world.getProposal id = .found p ∧ p.status = .passed)
    (h : Run k mm Ruled s Bs s') :
    StartsClean (s.timelock.getExecutionDelay minimumDelay) waited Bs where
  active := fun b hb => ⟨forked_active hmm hactivation h hb, forked_delay hmm h hb⟩
  idle := fun id hid => by
    obtain ⟨p, hp, hst⟩ := hpassed id hid
    exact forked_idle hk hmm hwf hno h hp hst
  deferred := fun b hb id i hd => by
    rcases h.runs_origin hmm hb hd (.inr ⟨i, rfl⟩) with ⟨hinactive, _⟩ | ⟨_, ⟨t, he, _⟩ | ⟨a, ha, _, ht, hle⟩⟩
    · rw [forked_active hmm hactivation h hb] at hinactive
      cases hinactive
    · exact absurd he (hno id t)
    · exact ⟨a, ha, ht, hle⟩

end

/-- **A fork starts clean.** When a chain is exported for zero height after any run, with its
timelock, and the export goes through, the new chain's timelock imports from it over the same proposals; in every
run of the new chain the timelock is on in every block with the old delay, nothing happens to a
proposal that was waiting on the old chain, and no message runs before the delay after a passing
tally on the new chain. What was exported is valid when the delay is. -/
theorem fork_starts_clean {Any Msg Rest RestE Genesis Validators Params : Type}
    {gov gov' : GovKeeper Any Msg Rest} {mm mm' : Manager Any Rest} (hgov : gov.Lawful)
    (hmm : mm.Lawful) (hgov' : gov'.Lawful) (hmm' : mm'.Lawful)
    {s s' : GovTimelock.St Any Rest} {Bs : List Block} (hstart : Initial s) (hwf : s.world.WF)
    (h : Run gov mm Ruled s Bs s')
    {k : Keepers RestE} (hclose : k.closeErr = none) {x : Exporters RestE Genesis Validators Params}
    (hx : x.Lawful) {height : Int} {jailAllowedAddrs modulesToExport : List String}
    (hasked : "govtimelock" ∈ x.asked modulesToExport)
    {rest : RestE} {app : ExportedApp Genesis Validators Params} {err : Option String} {u : St RestE}
    (hexport : exportAppStateAndValidators k x height true jailAllowedAddrs modulesToExport
      ⟨rest, s'.timelock⟩ = .ok (some app, err) u)
    (hdecodes : ∀ id e, s'.timelock.Entry id e → ∃ p, s'.world.getProposal id = .found p)
    {w : World Any Rest} (hw : w.WF)
    (hproposals : ∀ id p, s'.world.getProposal id = .found p → w.getProposal id = .found p)
    (log : List Obs) :
    app.height = 0 ∧ ∃ bz s₁, app.appState.lookup "govtimelock" = some (.govtimelock bz) ∧
      (minimumDelay ≤ s'.timelock.getExecutionDelay minimumDelay → validateGenesis bz = .ok ()) ∧
      initGenesis true bz ⟨w, Timelock.fresh, log⟩ = .ok () s₁ ∧
      ∀ Cs s₂, Run gov' mm' Ruled s₁ Cs s₂ →
        StartsClean (s'.timelock.getExecutionDelay minimumDelay)
          (fun id => ∃ e, s'.timelock.Entry id e) Cs := by
  obtain ⟨φ, hsim⟩ := hstart.sim hwf
  obtain ⟨hexp, φ', hsim'⟩ := h.exportable hgov hmm hsim hstart.exportable
  obtain ⟨hheight, hmodules⟩ := exportAppStateAndValidators_ok hexport
  unfold exportHeight at hheight
  rw [if_pos rfl] at hheight
  obtain ⟨_, u', hprep, hend⟩ := bind_ok.mp hheight
  obtain ⟨hzero, rfl⟩ := pure_ok.mp hend
  have hreset : u'.timelock = ⟨KeySet.empty, some 1, s'.timelock.executionDelay⟩ :=
    prepForZeroHeightGenesis_timelock hclose hprep
  obtain ⟨bz, hbz, hlookup⟩ := hx.govtimelock _ _ _ hmodules hasked
  rw [hreset] at hbz
  -- the genesis reads back
  have hexp' := exportable_reset hexp
  obtain ⟨bz', hbz', hread⟩ := unmarshalGenesis_marshalGenesis
    (hexp'.encodable fun id e he => absurd he (KeySet.not_mem_empty _))
  rw [exportGenesis, hbz'] at hbz
  cases hbz
  obtain ⟨hsched, hact, hdelay⟩ := hexp'.withGenesis_toGenesis
  generalize hgs : Timelock.toGenesis ⟨KeySet.empty, some 1, s'.timelock.executionDelay⟩ = gs at *
  have hempty : gs.scheduledProposals = [] := by
    rw [← hgs]
    rfl
  refine ⟨hzero.symm, bz, _, hlookup, fun hmin => ?_, initGenesis_ok.mpr ⟨gs, hread,
    fun _ => validateAgainstGov_ok.mpr (by simp [hempty]), by simp [hempty], rfl⟩,
    fun Cs s₂ hrun => ?_⟩
  · have hvalid : gs.validate = .ok () := by
      have hconsistent := hexp'.consistent fun he => absurd he (KeySet.not_mem_empty _)
      rw [← hgs]
      exact GenesisState.validate_ok.mpr (hconsistent.valid (.inr hmin))
    rw [validateGenesis, hread]
    exact hvalid
  · have hno : ∀ id e, ¬ (Timelock.fresh.withGenesis gs).Entry id e := by
      intro id e he
      unfold Timelock.Entry at he
      rw [hsched] at he
      exact KeySet.not_mem_empty _ he
    have hclean : StartsClean ((Timelock.fresh.withGenesis gs).getExecutionDelay minimumDelay)
        (fun id => ∃ e, s'.timelock.Entry id e) Cs :=
      forked_startsClean hgov' hmm' hw hno hact (fun id hwaits => by
        obtain ⟨e, he⟩ := hwaits
        obtain ⟨p, hp⟩ := hdecodes id e he
        obtain ⟨_, _, q, hq, hst⟩ := hsim'.entries he
        rw [World.stored_of_found hp] at hq
        cases hq
        exact ⟨p, hproposals id p hp, hst⟩) hrun
    have hforce : (Timelock.fresh.withGenesis gs).getExecutionDelay minimumDelay =
        s'.timelock.getExecutionDelay minimumDelay :=
      getExecutionDelay_some hdelay (Timelock.getExecutionDelay_pos Timelock.minimumDelay_pos)
    rwa [hforce] at hclean

/-! ## A small fork -/

/-- The genesis of the module `name`. -/
def exportModule (s : St Unit) (name : String) : Except Fault (ModuleGenesis Unit) :=
  if name = "govtimelock" then (exportGenesis s.timelock).map .govtimelock else .ok (.other ())

/-- The modules of a chain, less those that the fork does not need. -/
def smallExporters : Exporters Unit Unit Unit Unit where
  moduleNames := ["gov", "govtimelock"]
  exportGenesisForModules modulesToExport s :=
    let names := if modulesToExport.length = 0 then ["gov", "govtimelock"] else modulesToExport
    match names.find? fun name => name ∉ ["gov", "govtimelock"] with
    | some name => .error (.err s!"module {name} does not exist")
    | none => names.mapM fun name => do return (name, ← exportModule s name)
  writeValidators _ := ((), none)
  getConsensusParams _ := ()

/-- A list of labelled results: what stands under a label that was asked for. -/
theorem lookup_of_mapM {ε β : Type} {f : String → Except ε β} {name : String} {names : List String} :
    ∀ {l : List (String × β)}, (names.mapM fun n => do return (n, ← f n)) = .ok l →
      name ∈ names → ∃ b, f name = .ok b ∧ l.lookup name = some b := by
  induction names with
  | nil => intro l _ hmem; cases hmem
  | cons n names ih =>
    intro l h hmem
    rw [List.mapM_cons] at h
    cases hf : f n with
    | error err => rw [hf] at h; cases h
    | ok b =>
      rw [hf] at h
      cases hrest : names.mapM fun n => do return (n, ← f n) with
      | error err => rw [hrest] at h; cases h
      | ok l' =>
        rw [hrest] at h
        cases h
        by_cases hn : name = n
        · subst hn
          exact ⟨b, hf, List.lookup_cons_self⟩
        · obtain ⟨c, hc, hl⟩ := ih hrest (List.mem_of_ne_of_mem hn hmem)
          refine ⟨c, hc, ?_⟩
          rw [List.lookup_cons, beq_false_of_ne hn]
          exact hl

theorem smallExporters_lawful : smallExporters.Lawful where
  govtimelock modulesToExport s appState h hasked := by
    simp only [smallExporters] at h
    split at h
    · cases h
    · obtain ⟨b, hb, hlookup⟩ := lookup_of_mapM h hasked
      rw [exportModule, if_pos rfl] at hb
      cases hbz : exportGenesis s.timelock with
      | error fault => rw [hbz] at hb; cases hb
      | ok bz =>
        rw [hbz] at hb
        cases hb
        exact ⟨bz, rfl, hlookup⟩

/-- The chain on which proposal 7 waits. -/
def waitingState : GovTimelock.St Unit Unit := tallied (votingState [(7, 10)]) 7 10 10 tallyBlock.log

/-- The first block of the new chain, at the time at which the proposal was due. -/
def forkBlock : Block where
  ctx := blockAt 1 172800000000010 (by decide)
  active := true
  delay := minimumDelay
  log := []

/-- The exported genesis is valid; a new chain that starts from it, at a time at which the waiting
proposal was due, leaves that proposal alone. -/
theorem waiting_fork : ∃ app u, exportAppStateAndValidators (quietKeepers none) smallExporters 10
      true [] [] ⟨(), waitingState.timelock⟩ = .ok (some app, none) u ∧
    ∃ bz s₁ s₂, app.appState.lookup "govtimelock" = some (.govtimelock bz) ∧
      validateGenesis bz = .ok () ∧
      Run passingKeeper govtimelockManager Ruled s₁ [forkBlock] s₂ ∧ Idle 7 [forkBlock] := by
  have hrun : Run passingKeeper govtimelockManager Ruled
      { votingState [(7, 10)] with log := [.initGenesis] } [tallyBlock] waitingState :=
    ⟨.cons (tallyBlock_step [.initGenesis]) (.nil _), List.pairwise_singleton _ _⟩
  have hwf : (votingWorld [(7, 10)]).WF := votingWorld_wf (by decide) (by decide)
  obtain ⟨φ, hsim⟩ := (importedVoting_initial [(7, 10)]).sim hwf
  obtain ⟨_, hsim', _⟩ := hrun.histories passingKeeper_lawful govtimelockManager_lawful hsim
  obtain ⟨app, u, hexport⟩ : ∃ app u, exportAppStateAndValidators (quietKeepers none)
      smallExporters 10 true [] [] ⟨(), waitingState.timelock⟩ = .ok (some app, none) u :=
    ⟨_, _, rfl⟩
  refine ⟨app, u, hexport, ?_⟩
  obtain ⟨_, bz, s₁, hlookup, hvalid, hinit, hclean⟩ := fork_starts_clean passingKeeper_lawful
    govtimelockManager_lawful passingKeeper_lawful govtimelockManager_lawful
    (importedVoting_initial _) hwf hrun rfl smallExporters_lawful (by decide) hexport (fun id e he => by
      rcases KeySet.mem_set.mp he with hkey | he
      · cases hkey
        exact ⟨_, World.getProposal_setRecord _ (passedProposal 7 10)⟩
      · exact absurd he (KeySet.not_mem_empty _))
    hsim'.wf (fun _ _ hp => hp) []
  obtain rfl : bz = .object (some []) (some 1) (some minimumDelay) := by
    cases hexport
    cases hlookup
    rfl
  obtain rfl : s₁ = ⟨waitingState.world, ⟨KeySet.empty, some 1, some minimumDelay⟩,
      [.initGenesis]⟩ := by
    cases hinit
    rfl
  have hblock : Run passingKeeper govtimelockManager Ruled
      ⟨waitingState.world, ⟨KeySet.empty, some 1, some minimumDelay⟩, [.initGenesis]⟩ [forkBlock]
      ⟨waitingState.world, ⟨KeySet.empty, some 1, some minimumDelay⟩, []⟩ :=
    ⟨.cons (.of_endBlock ⟨id, .refl _ _ _⟩ rfl rfl rfl rfl) (.nil _), List.pairwise_singleton _ _⟩
  exact ⟨_, _, _, hlookup, hvalid (by decide), hblock, (hclean _ _ hblock).idle 7
    ⟨10 + minimumDelay, KeySet.mem_set.mpr (.inl rfl)⟩⟩

end Ark.Export
