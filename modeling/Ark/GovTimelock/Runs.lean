import Ark.GovTimelock.Maturity
import Ark.GovTimelock.Simulation
import Ark.GovTimelock.Upgrades

/- Runs of a chain.

   A block is what happens before its end blocker, which changes x/gov by a given
   relation and leaves the timelock's store except that the v8.5.0 handler may run,
   and then the end blocker, which returns no error. Heights increase and times do
   not decrease. A run starts with an empty schedule or from a genesis that both
   `ValidateGenesis` and `InitGenesis` accept.

   What is proved: when x/gov keeps its rules, every proposal has a history over the
   run, and what the blocks log about it is what the history's acts write
   (`Run.histories`); once the timelock is active in a block it is active in every
   later one (`Run.active_mono`), and an active block leaves no entry that is due
   (`Run.not_due`). -/
namespace Ark.GovTimelock
open Ark.Lib Ark.Gov World Effect

variable {Any Msg Rest : Type} {k : GovKeeper Any Msg Rest} {mm : Manager Any Rest}
  {E : Ctx → World Any Rest → World Any Rest → Prop}

/-- What a block does before its end blocker: transactions and begin blockers, and the v8.5.0
handler where the block is its upgrade's. -/
inductive BeforeEndBlock (mm : Manager Any Rest) (E : Ctx → World Any Rest → World Any Rest → Prop)
    (ctx : Ctx) (s : St Any Rest) : St Any Rest → Prop
  | transactions {w : World Any Rest} : E ctx s.world w →
      BeforeEndBlock mm E ctx s { s with world := w, log := [] }
  | upgrade {vm vm' : VersionMap} {s₁ : St Any Rest} {w : World Any Rest} :
      v8_5.createUpgradeHandler mm ⟨true⟩ ctx vm s = .ok vm' s₁ → E ctx s.world w →
      BeforeEndBlock mm E ctx s ⟨w, s₁.timelock, []⟩

/-- One block. -/
def BlockStep (k : GovKeeper Any Msg Rest) (mm : Manager Any Rest)
    (E : Ctx → World Any Rest → World Any Rest → Prop) (s : St Any Rest) (b : Block)
    (s' : St Any Rest) : Prop :=
  ∃ s₀, BeforeEndBlock mm E b.ctx s s₀ ∧ endBlock k b.ctx s₀ = .ok () s' ∧ b.log = s'.log ∧
    b.active = s₀.timelock.isActive b.ctx.height ∧
    b.delay = s₀.timelock.getExecutionDelay minimumDelay

/-- A run over the blocks `Bs`. -/
structure Run (k : GovKeeper Any Msg Rest) (mm : Manager Any Rest)
    (E : Ctx → World Any Rest → World Any Rest → Prop) (s : St Any Rest) (Bs : List Block)
    (s' : St Any Rest) : Prop where
  steps : Steps (BlockStep k mm E) s Bs s'
  ordered : Bs.Pairwise fun b c => b.ctx.height < c.ctx.height ∧ b.ctx.time ≤ c.ctx.time

/-- x/gov keeps its rules between end blockers. -/
def Ruled (ctx : Ctx) (w w' : World Any Rest) : Prop := w.Between ctx.time w'

/-- x/gov does anything between end blockers. -/
def Unruled (_ : Ctx) (_ _ : World Any Rest) : Prop := True

/-- Where a run starts: an empty schedule, or a genesis that is valid and was imported. -/
inductive Start : St Any Rest → Prop
  | empty {s : St Any Rest} : (∀ id t, ¬ s.timelock.Entry id t) → Start s
  | genesis {w : World Any Rest} {log : List Obs} {bz : RawMessage} {s : St Any Rest} :
      validateGenesis bz = .ok () → initGenesis true bz ⟨w, Timelock.fresh, log⟩ = .ok () s → Start s

/-- What an import leaves: the entries of the decoded genesis, which name passed proposals. -/
theorem imported {w : World Any Rest} {log : List Obs} {bz : RawMessage} {s : St Any Rest}
    (h : initGenesis true bz ⟨w, Timelock.fresh, log⟩ = .ok () s) :
    ∃ gs : GenesisState, unmarshalGenesis bz = .ok gs ∧ s.world = w ∧
      s.timelock = Timelock.fresh.withGenesis gs ∧
      ∀ sp ∈ gs.scheduledProposals, HasTimeKey sp.executionTime ∧
        ∃ p, w.getProposal sp.proposalID = .found p ∧ p.status = .passed := by
  obtain ⟨gs, hgs, hgov, hk, rfl⟩ := initGenesis_ok.mp h
  have hgov := validateAgainstGov_ok.mp (hgov rfl)
  exact ⟨gs, hgs, rfl, rfl, fun sp hsp => ⟨hk sp hsp, hgov sp hsp⟩⟩

/-- What a genesis that was validated and imported leaves. -/
theorem genesis_imported {w : World Any Rest} {log : List Obs} {bz : RawMessage} {s : St Any Rest}
    (hv : validateGenesis bz = .ok ())
    (hi : initGenesis true bz ⟨w, Timelock.fresh, log⟩ = .ok () s) :
    ∃ gs : GenesisState, unmarshalGenesis bz = .ok gs ∧ gs.Valid ∧
      s.timelock = Timelock.fresh.withGenesis gs := by
  obtain ⟨gs, hgs, _, htl, _⟩ := imported hi
  rw [validateGenesis, hgs] at hv
  exact ⟨gs, hgs, GenesisState.validate_ok.mp hv, htl⟩

/-- The entries of an imported genesis are those of its list. -/
theorem entry_withGenesis {gs : GenesisState} {id : Nat} {t : Time} :
    (Timelock.fresh.withGenesis gs).Entry id t ↔ ⟨id, t⟩ ∈ gs.scheduledProposals := by
  rw [Timelock.Entry, Timelock.mem_withGenesis]
  constructor
  · rintro (h | ⟨sp, hsp, he⟩)
    · exact absurd h (KeySet.not_mem_empty _)
    · cases sp
      cases he
      exact hsp
  · intro h
    exact .inr ⟨_, h, rfl⟩

/-- When the entries wait, every proposal is in its phase: those with an entry wait, the others
are unresolved. -/
theorem Sim.of_entries {s : St Any Rest} (hwf : s.world.WF)
    (hwaiting : ∀ id t, s.timelock.Entry id t → Holds s id (.waiting t)) :
    ∃ φ, Sim s φ ∧ (∀ id, (∃ e, φ id = .waiting e ∧ s.timelock.Entry id e) ∨
      (φ id = .unresolved false ∧ ∀ t, ¬ s.timelock.Entry id t)) := by
  classical
  have hone : ∀ id, ∃ P, Holds s id P ∧ ((∃ e, P = .waiting e ∧ s.timelock.Entry id e) ∨
      (P = .unresolved false ∧ ∀ t, ¬ s.timelock.Entry id t)) := by
    intro id
    by_cases he : ∃ t, s.timelock.Entry id t
    · obtain ⟨t, ht⟩ := he
      exact ⟨.waiting t, hwaiting id t ht, .inl ⟨t, rfl, ht⟩⟩
    · have hno : ∀ t, ¬ s.timelock.Entry id t := fun t ht => he ⟨t, ht⟩
      exact ⟨.unresolved false, ⟨hno, nofun⟩, .inr ⟨rfl, hno⟩⟩
  obtain ⟨φ, hφ⟩ := Classical.axiomOfChoice hone
  exact ⟨φ, ⟨hwf, fun id => (hφ id).1⟩, fun id => (hφ id).2⟩

/-- The entries of an import wait, when the genesis gives each proposal one time. -/
theorem imported_waiting {w : World Any Rest} {log : List Obs} {bz : RawMessage} {s : St Any Rest}
    (h : initGenesis true bz ⟨w, Timelock.fresh, log⟩ = .ok () s) (hwf : w.WF)
    (hone : ∀ {id t t'}, s.timelock.Entry id t → s.timelock.Entry id t' → t = t') (id : Nat)
    (t : Time) (ht : s.timelock.Entry id t) : Holds s id (.waiting t) := by
  obtain ⟨gs, _, rfl, htl, hgov⟩ := imported h
  have hmem := ht
  rw [htl, entry_withGenesis] at hmem
  obtain ⟨_, p, hp, hst⟩ := hgov _ hmem
  refine ⟨fun t' => ⟨fun ht' => hone ht' ht, fun he => he ▸ ht⟩, fun q t' hslot => ?_, ?_, p,
    World.stored_of_found hp, hst⟩
  · exact (hwf.proposal id).undecided hslot hp (.inl hst)
  · exact (hwf.proposal id).record_id (World.stored_of_found hp)

/-- A run starts with every proposal in its phase. -/
theorem Start.sim {s : St Any Rest} (h : Start s) (hwf : s.world.WF) :
    ∃ φ, Sim s φ ∧ (∀ id, (∃ e, φ id = .waiting e ∧ s.timelock.Entry id e) ∨
      (φ id = .unresolved false ∧ ∀ t, ¬ s.timelock.Entry id t)) := by
  cases h with
  | empty hno => exact Sim.of_entries hwf fun id t ht => absurd ht (hno id t)
  | genesis hv hi =>
    obtain ⟨gs, _, hvalid, htl⟩ := genesis_imported hv hi
    obtain ⟨_, _, hw, _⟩ := imported hi
    refine Sim.of_entries hwf (imported_waiting hi (hw ▸ hwf) fun {id t t'} ht ht' => ?_)
    rw [htl, entry_withGenesis] at ht ht'
    have hinj := List.inj_on_of_nodup_map hvalid.ids_distinct ht ht' rfl
    exact congrArg ScheduledProposal.executionTime hinj

/-! ## Histories over a run -/

section Runs
variable {s s' : St Any Rest} {Bs : List Block} {φ : Nat → Phase}

/-- What happens before an end blocker leaves the schedule and the delay. -/
theorem BeforeEndBlock.schedule_eq (hmm : mm.Lawful) {ctx : Ctx} (h : BeforeEndBlock mm E ctx s s') :
    s'.timelock.scheduledProposals = s.timelock.scheduledProposals ∧
      s'.timelock.executionDelay = s.timelock.executionDelay ∧ E ctx s.world s'.world ∧
      s'.log = [] ∧
      (s'.timelock.activationHeight = s.timelock.activationHeight ∨
        s'.timelock.activationHeight = some ctx.height) := by
  cases h with
  | transactions hE => exact ⟨rfl, rfl, hE, rfl, .inl rfl⟩
  | upgrade hup hE =>
    obtain ⟨ht, _, _⟩ := v8_5.handler_ok hmm hup
    rw [ht]
    exact ⟨rfl, rfl, hE, rfl, .inr rfl⟩

theorem Sim.before (hmm : mm.Lawful) {ctx : Ctx} (hsim : Sim s φ)
    (h : BeforeEndBlock mm Ruled ctx s s') : Sim s' φ := by
  obtain ⟨hsched, _, hE, _, _⟩ := h.schedule_eq hmm
  refine ⟨hE.1 hsim.wf, fun id => (hsim.holds id).evolve hE.2 trivial fun t => ?_⟩
  unfold Timelock.Entry
  rw [hsched]

/-- The call of a block whose log is the call's own tells every proposal's turn. -/
theorem Call.told {b : Block} {x x₁ x₂ y : Tracked Any Rest} {as₁ as₂ as₃ : List Act}
    (h : Call b x x₁ x₂ y as₁ as₂ as₃) (hlog : b.log = (as₁ ++ as₂ ++ as₃).flatMap Act.log) (id : Nat) :
    Told id (x.phase id) b (y.phase id) := by
  refine (h.turn id).told (fun act hact => ?_) ?_
  · simpa using (List.mem_filter.mp hact).2
  · rw [hlog, about_flatMap_log]

/-- One block is one turn of every proposal, and its log tells it. -/
theorem BlockStep.told (hk : k.Lawful) (hmm : mm.Lawful) {b : Block} (hsim : Sim s φ)
    (h : BlockStep k mm Ruled s b s') :
    ∃ φ', (∀ id, Told id (φ id) b (φ' id)) ∧ Sim s' φ' := by
  obtain ⟨s₀, hbefore, hend, hlog, hactive, hdelay⟩ := h
  have hsim₀ := hsim.before hmm hbefore
  obtain ⟨L₁, L₂, L₃, s₁, s₂, hS⟩ := endBlocker_steps hend
  obtain ⟨x₁, x₂, y, rfl, rfl, rfl, hcall⟩ := endBlocker_call b (x := ⟨φ, s₀, hsim₀⟩) hk hS hactive
    hdelay (hdelay ▸ Timelock.getExecutionDelay_pos Timelock.minimumDelay_pos)
  refine ⟨y.phase, hcall.told ?_, y.sim⟩
  rw [hlog, hS.log_eq, (hbefore.schedule_eq hmm).2.2.2.1, List.nil_append]

/-- **Every proposal has a history over a run.** -/
theorem Run.histories (hk : k.Lawful) (hmm : mm.Lawful) (hsim : Sim s φ)
    (h : Run k mm Ruled s Bs s') :
    ∃ φ', Sim s' φ' ∧ ∀ id, History id (φ id) Bs (φ' id) := by
  obtain ⟨φ', hS, hsim'⟩ := h.steps.simulate (f := fun b => b)
    (T := fun φ b φ' => ∀ id, Told id (φ id) b (φ' id)) (fun _ => Sim)
    (fun hsim hb => BlockStep.told hk hmm hsim hb) hsim
  rw [List.map_id'] at hS
  exact ⟨φ', hsim', fun id => hS.map (f := fun ψ : Nat → Phase => ψ id) fun hb => hb id⟩

/-- A block leaves the activation height, or sets it to the block's own height. -/
theorem BlockStep.activation (hmm : mm.Lawful) {b : Block} (h : BlockStep k mm E s b s') :
    (s'.timelock.activationHeight = s.timelock.activationHeight ∨
        s'.timelock.activationHeight = some b.ctx.height) ∧
      b.active = s'.timelock.isActive b.ctx.height := by
  obtain ⟨s₀, hbefore, hend, _, hactive, _⟩ := h
  have hitems := (endBlocker_items_eq hend).1
  obtain ⟨_, _, _, _, hact⟩ := hbefore.schedule_eq hmm
  rw [hitems]
  exact ⟨hact, hactive.trans (isActive_congr hitems _).symm⟩

theorem Run.cons_iff {b : Block} : Run k mm E s (b :: Bs) s' ↔
    ∃ u, BlockStep k mm E s b u ∧ Run k mm E u Bs s' ∧
      ∀ c ∈ Bs, b.ctx.height < c.ctx.height ∧ b.ctx.time ≤ c.ctx.time := by
  constructor
  · intro ⟨hsteps, hord⟩
    obtain ⟨u, hb, hrest⟩ := Steps.cons_iff.mp hsteps
    obtain ⟨hbc, hord⟩ := List.pairwise_cons.mp hord
    exact ⟨u, hb, ⟨hrest, hord⟩, hbc⟩
  · intro ⟨u, hb, ⟨hrest, hord⟩, hbc⟩
    exact ⟨.cons hb hrest, List.pairwise_cons.mpr ⟨hbc, hord⟩⟩

/-- A run is cut around one of its blocks. -/
theorem Run.split_at {pre post : List Block} {b : Block} (h : Run k mm E s (pre ++ b :: post) s') :
    ∃ u v, Run k mm E s pre u ∧ BlockStep k mm E u b v ∧ Run k mm E v post s' ∧
      ∀ c ∈ post, b.ctx.height < c.ctx.height ∧ b.ctx.time ≤ c.ctx.time := by
  obtain ⟨u, v, hpre, hb, hpost⟩ := h.steps.split_at
  obtain ⟨hpre', hord, _⟩ := List.pairwise_append.mp h.ordered
  obtain ⟨hbc, hord⟩ := List.pairwise_cons.mp hord
  exact ⟨u, v, ⟨hpre, hpre'⟩, hb, ⟨hpost, hord⟩, hbc⟩

/-- Active in one block, active in every later one. -/
theorem Run.active_mono (hmm : mm.Lawful) (h : Run k mm E s Bs s') :
    Bs.Pairwise fun b c => b.active = true → c.active = true := by
  -- the activation height is set, and not above `height`
  let Reached (height : Int) (u : St Any Rest) : Prop :=
    ∃ a, u.timelock.activationHeight = some a ∧ a ≤ height
  have hkeep : ∀ {height : Int} {u v : St Any Rest} {d : Block}, d.ctx.height ≤ height →
      Reached height u → BlockStep k mm E u d v → Reached height v := by
    intro height u v d hd ⟨a, ha, hle⟩ hstep
    rcases (hstep.activation hmm).1 with h | h
    · exact ⟨a, h.trans ha, hle⟩
    · exact ⟨_, h, hd⟩
  induction Bs generalizing s with
  | nil => exact .nil
  | cons b Bs ih =>
    obtain ⟨u, hb, hrest, hbc⟩ := Run.cons_iff.mp h
    refine List.pairwise_cons.mpr ⟨fun c hc hactive => ?_, ih hrest⟩
    obtain ⟨mid, post, rfl⟩ := List.append_of_mem hc
    obtain ⟨v, w, hmid, hcs, _, _⟩ := hrest.split_at
    have hu : Reached c.ctx.height u := by
      obtain ⟨a, ha, hle⟩ := Timelock.isActive_iff.mp ((hb.activation hmm).2.symm.trans hactive)
      exact ⟨a, ha, hle.trans (hbc c (by simp)).1.le⟩
    have hv : Reached c.ctx.height v := hmid.steps.invariant (Reached c.ctx.height)
      (fun _ d _ hd hI hstep => hkeep ((List.pairwise_append.mp hrest.ordered).2.2 d hd c
        List.mem_cons_self).1.le hI hstep) hu
    rw [(hcs.activation hmm).2]
    exact Timelock.isActive_iff.mpr (hkeep (le_refl _) hv hcs)

/-- An active end blocker leaves no entry that is due. -/
theorem endBlocker_not_due {ctx : Ctx} {fallbackDelay : Duration}
    (h : EndBlocker k ctx fallbackDelay s = .ok () s') (ha : s.timelock.isActive ctx.height = true)
    {id : Nat} {t : Time} (he : s'.timelock.Entry id t) : ctx.time < t := by
  obtain ⟨L₁, L₂, L₃, s₁, s₂, hS⟩ := endBlocker_steps h
  obtain ⟨hmem, hne⟩ := ((matured_steps hS.matured).2 ⟨t, id⟩).mp he
  by_contra hle
  have hdue : (⟨id, t⟩ : ScheduledProposal) ∈ s₂.timelock.due ctx.time :=
    Timelock.mem_due.mpr ⟨hmem, not_lt.mp hle⟩
  have hL := hS.matured_due
  rw [if_pos ha] at hL
  rw [← hL] at hdue
  obtain ⟨l, hl, hkey⟩ := List.mem_map.mp hdue
  exact hne l hl (by rw [hkey]; rfl)

theorem BlockStep.not_due {b : Block} (h : BlockStep k mm E s b s') (ha : b.active = true)
    {id : Nat} {t : Time} (he : s'.timelock.Entry id t) : b.ctx.time < t := by
  obtain ⟨s₀, _, hend, _, hactive, _⟩ := h
  exact endBlocker_not_due hend (hactive ▸ ha) he

/-- The entries at the end of a run are not due in any of its active blocks. -/
theorem Run.not_due (hmm : mm.Lawful) (h : Run k mm E s Bs s') {b : Block} (hb : b ∈ Bs)
    (ha : b.active = true) : ∀ id t, s'.timelock.Entry id t → b.ctx.time < t := by
  obtain ⟨pre, post, rfl⟩ := List.append_of_mem hb
  obtain ⟨u, v, _, hbs, hpost, hord⟩ := h.split_at
  have hlater := (List.pairwise_cons.mp (List.pairwise_append.mp (h.active_mono hmm)).2.1).1
  exact hpost.steps.invariant (fun v => ∀ id t, v.timelock.Entry id t → b.ctx.time < t)
    (fun _ c _ hc _ hstep _ _ he => (hord c hc).2.trans_lt (hstep.not_due (hlater c hc ha) he))
    (fun _ _ he => hbs.not_due ha he)

end Runs

/-! ## A small chain -/

/-- Proposals in their voting period on a chain that is active from height 1. -/
def votingState (ends : List (Nat × Time)) : St Unit Unit :=
  ⟨votingWorld ends, ⟨KeySet.empty, some 1, none⟩, []⟩

theorem votingState_start (ends : List (Nat × Time)) : Start (votingState ends) :=
  .empty fun _ _ => KeySet.not_mem_empty _

/-- A block in which nothing happens before the end blocker. -/
theorem BlockStep.of_endBlock {b : Block} {s s' : St Any Rest} (hE : E b.ctx s.world s.world)
    (h : endBlock k b.ctx { s with log := [] } = .ok () s') (hlog : b.log = s'.log)
    (hactive : b.active = s.timelock.isActive b.ctx.height)
    (hdelay : b.delay = s.timelock.getExecutionDelay minimumDelay) : BlockStep k mm E s b s' :=
  ⟨_, .transactions hE, h, hlog, hactive, hdelay⟩

/-- An end blocker without inactive proposals, from the turns of its two other loops. -/
theorem endBlock_of_turns {ctx : Ctx} {s s₁ s' : St Any Rest} (props : List Pair)
    (sps : List ScheduledProposal) (d : Option Duration)
    (hinactive : s.world.inactiveProposalsQueue.filter (untilPair ctx.time) = [])
    (hactive : s.world.activeProposalsQueue.filter (untilPair ctx.time) = props)
    (htallies : Steps (fun (p : Option Duration × St Any Rest) prop q =>
      processEndedVotingPeriod k (executeProposal k ctx) ctx minimumDelay true p.1 prop p.2
        = .ok q.1 q.2) (none, s) props (d, s₁))
    (hdue : s₁.timelock.due ctx.time = sps)
    (hmatured : Steps (fun u sp v => executeMaturedProposal k ctx sp u = .ok () v) s₁ sps s')
    (ha : s.timelock.isActive ctx.height = true) : endBlock k ctx s = .ok () s' := by
  simp only [endBlock, EndBlocker, processInactiveProposals, processEndedVotingPeriods,
    processEndedVotingPeriodsWith, executeMaturedProposals, bind_ok, getTimelock_ok, getWorld_ok,
    pure_ok]
  refine ⟨_, _, ⟨rfl, rfl⟩, (), s, ⟨_, _, ⟨rfl, rfl⟩, ?_⟩, (), s₁, ⟨_, _, ⟨rfl, rfl⟩, d, s₁, ?_, trivial, rfl⟩, ?_⟩
  · rw [hinactive]
    rfl
  · rw [hactive, ha]
    exact foldlM_ok.mpr htallies
  · rw [ha, runIf_true, bind_ok]
    refine ⟨_, _, getTimelock_ok.mpr ⟨rfl, rfl⟩, ?_⟩
    rw [hdue]
    exact forM_ok.mpr hmatured

/-- The record of a voting proposal after its tally has passed. -/
def passedProposalOf (messages : List Any) (id : Nat) (t : Time) : Proposal Any :=
  { votingProposalOf messages id t with
    status := .passed
    finalTallyResult := some ⟨"0", "0", "0", "0"⟩ }

abbrev passedProposal : Nat → Time → Proposal Unit := passedProposalOf [()]

/-- What the tally of proposal `id`, whose voting period ended at `t`, leaves at time `now`. -/
def tallied (s : St Unit Unit) (id : Nat) (t now : Time) (log : List Obs) : St Unit Unit where
  world := (s.world.removeActive ⟨t, id⟩).setRecord (passedProposal id t)
  timelock := { s.timelock with
    scheduledProposals := s.timelock.scheduledProposals.set ⟨now + minimumDelay, id⟩ }
  log := log

/-- What its execution leaves, when it was tallied at time `now`. -/
def executed (s : St Unit Unit) (id : Nat) (t now : Time) (log : List Obs) : St Unit Unit where
  world := s.world.setRecord (passedProposal id t)
  timelock := s.timelock.remove (now + minimumDelay) id
  log := log

/-- The block in which proposal 7 is tallied. -/
def tallyBlock : Block where
  ctx := blockAt 1 10 (by decide)
  active := true
  delay := minimumDelay
  log := (Act.scheduled 7 false (10 + minimumDelay)
    (passingKeeper.formatTime (10 + minimumDelay))).log

/-- The block 48 hours later, in which its messages are executed. -/
def executionBlock : Block where
  ctx := blockAt 2 172800000000010 (by decide)
  active := true
  delay := minimumDelay
  log := (Act.executed ⟨7, 10 + minimumDelay⟩ ⟨1, [], .passed, "passed"⟩).log

theorem tallyBlock_ends : endBlock passingKeeper tallyBlock.ctx (votingState [(7, 10)]) =
    .ok () (tallied (votingState [(7, 10)]) 7 10 10 tallyBlock.log) := rfl

theorem tallyBlock_step (log : List Obs) : BlockStep passingKeeper govtimelockManager Ruled
    { votingState [(7, 10)] with log := log } tallyBlock
    (tallied (votingState [(7, 10)]) 7 10 10 tallyBlock.log) :=
  .of_endBlock ⟨id, .refl _ _ _⟩ tallyBlock_ends rfl rfl rfl

theorem executionBlock_step : BlockStep passingKeeper govtimelockManager Ruled
    (tallied (votingState [(7, 10)]) 7 10 10 tallyBlock.log) executionBlock
    (executed (tallied (votingState [(7, 10)]) 7 10 10 tallyBlock.log) 7 10 10 executionBlock.log) :=
  .of_endBlock ⟨id, .refl _ _ _⟩ rfl rfl rfl rfl

/-- A proposal is tallied in one block and executed in the next. -/
theorem deferred_run : Run passingKeeper govtimelockManager Ruled (votingState [(7, 10)])
    [tallyBlock, executionBlock]
    (executed (tallied (votingState [(7, 10)]) 7 10 10 tallyBlock.log) 7 10 10 executionBlock.log) :=
  ⟨.cons (tallyBlock_step []) (.cons executionBlock_step (.nil _)),
    by simp [tallyBlock, executionBlock, blockAt]⟩

end Ark.GovTimelock
