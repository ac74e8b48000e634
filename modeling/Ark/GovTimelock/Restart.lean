import Ark.Lib.Commute
import Ark.Lib.Restart
import Ark.GovTimelock.RoundTrip

/- A chain that is exported and started again.

   An export writes the delay in force where none was stored, so the store of the chain
   that was started again may hold a delay where the old one holds none. Nothing that an
   end blocker does shows which (`endBlocker_blind`). -/
namespace Ark.GovTimelock
open Ark.Lib Ark.Gov World Effect Restart

variable {Any Msg Rest : Type} {k : GovKeeper Any Msg Rest} {mm : Manager Any Rest} {ctx : Ctx}
  {fallbackDelay : Duration}

/-! ## Another stored delay -/

/-- The store with another delay in it. -/
def Timelock.withDelay (d : Option Int) (t : Timelock) : Timelock := { t with executionDelay := d }

def St.withDelay (d : Option Int) (s : St Any Rest) : St Any Rest :=
  { s with timelock := s.timelock.withDelay d }

/-- The stored delay `d` is as good as the one in the store. -/
def SameDelay (fallbackDelay : Duration) (d : Option Int) (s : St Any Rest) : Prop :=
  (s.timelock.withDelay d).getExecutionDelay fallbackDelay =
    s.timelock.getExecutionDelay fallbackDelay

abbrev Blind (fallbackDelay : Duration) (d : Option Int) {α : Type} (x : M Any Rest α) : Prop :=
  Commutes (St.withDelay d) (SameDelay fallbackDelay d) x

section Steps
variable {d : Option Int} {α : Type}

theorem gov_blind (x : GovM Any Rest α) : Blind fallbackDelay d (gov x) := by
  intro s hs
  have hworld : (s.withDelay d).world = s.world := rfl
  simp only [gov, hworld]
  cases x s.world with
  | ok a w =>
    refine ⟨rfl, fun b t h => ?_⟩
    cases h
    exact hs
  | error e w => exact ⟨rfl, nofun⟩

theorem observe_blind (os : List Obs) : Blind fallbackDelay d (observe os : M Any Rest Unit) := by
  intro s hs
  refine ⟨rfl, fun b t h => ?_⟩
  cases h
  exact hs

theorem getWorld_blind : Blind fallbackDelay d (getWorld : M Any Rest (World Any Rest)) := by
  intro s hs
  refine ⟨rfl, fun b t h => ?_⟩
  cases h
  exact hs

theorem setWorld_blind (w : World Any Rest) : Blind fallbackDelay d (setWorld w) := by
  intro s hs
  refine ⟨rfl, fun b t h => ?_⟩
  cases h
  exact hs

/-- A read of the timelock, after which the two delays are not told apart. -/
theorem getTimelock_blind {g : Timelock → M Any Rest α}
    (hg : ∀ s : St Any Rest, SameDelay fallbackDelay d s →
      g (s.timelock.withDelay d) = g s.timelock)
    (hblind : ∀ t, Blind fallbackDelay d (g t)) : Blind fallbackDelay d (getTimelock >>= g) :=
  Commutes.read (fun _ => rfl) hg hblind

theorem removeScheduled_blind (e : Time) (id : Nat) :
    Blind fallbackDelay d (removeScheduled e id : M Any Rest Unit) := by
  intro s hs
  refine ⟨rfl, fun b t h => ?_⟩
  cases h
  exact hs

theorem schedule_blind (id : Nat) (e : Time) :
    Blind fallbackDelay d (schedule id e : M Any Rest Unit) := by
  intro s hs
  have hboth : ∀ u : St Any Rest, schedule id e u = if HasTimeKey e then
      .ok () { u with timelock :=
        { u.timelock with scheduledProposals := u.timelock.scheduledProposals.set ⟨e, id⟩ } }
      else .error (.panic "time has no key") u := by
    intro u
    unfold schedule
    rw [bind_eq_of_ok (show getTimelock u = .ok u.timelock u from rfl)]
    unfold Timelock.schedule
    by_cases hk : HasTimeKey e
    · simp only [if_pos hk]
      rfl
    · simp only [if_neg hk]
      rfl
  rw [hboth, hboth]
  by_cases hk : HasTimeKey e
  · rw [if_pos hk, if_pos hk]
    refine ⟨rfl, fun b t h => ?_⟩
    cases h
    exact hs
  · rw [if_neg hk, if_neg hk]
    exact ⟨rfl, nofun⟩

theorem deref_blind (o : Option α) : Blind fallbackDelay d (deref o : M Any Rest α) := by
  cases o with
  | none => exact Commutes.throw' _
  | some a => exact Commutes.pure' a

theorem runIf_blind (c : Bool) {x : M Any Rest Unit} (hx : Blind fallbackDelay d x) :
    Blind fallbackDelay d (runIf c x) := by
  cases c with
  | true => exact hx
  | false => exact Commutes.pure' _

theorem setActive_blind (key : Pair) : Blind fallbackDelay d (setActive key : M Any Rest Unit) := by
  apply Commutes.ite'
  · intro _
    exact Commutes.bind' getWorld_blind fun _ => setWorld_blind _
  · intro _
    exact Commutes.throw' _

theorem removeActive_blind (key : Pair) :
    Blind fallbackDelay d (removeActive key : M Any Rest Unit) :=
  Commutes.bind' getWorld_blind fun _ => setWorld_blind _

theorem removeInactive_blind (key : Pair) :
    Blind fallbackDelay d (removeInactive key : M Any Rest Unit) :=
  Commutes.bind' getWorld_blind fun _ => setWorld_blind _

theorem getParams_blind : Blind fallbackDelay d (getParams : M Any Rest Params) := by
  apply Commutes.bind' getWorld_blind
  intro w
  cases w.params with
  | none => exact Commutes.throw' _
  | some params => exact Commutes.pure' params

/-! ## The functions of the end blocker -/

variable (k)

theorem settleDeposits_blind (id : Nat) (burn : Bool) :
    Blind fallbackDelay d (settleDeposits k ctx id burn) :=
  Commutes.bind' (gov_blind _) fun _ => observe_blind _

theorem failUnsupportedProposal_blind (proposal : Proposal Any) (reason : String) (active : Bool) :
    Blind fallbackDelay d (failUnsupportedProposal k ctx proposal reason active) :=
  Commutes.bind' (gov_blind _) fun _ =>
    Commutes.bind' (settleDeposits_blind k _ _) fun _ => observe_blind _

/-- A hook, which runs on a cache context. -/
theorem hook_blind (os : List Obs) (hook : GovM Any Rest Unit) :
    Blind fallbackDelay d (do
      observe os
      match hook (← getWorld) with
      | .ok _ cache => setWorld cache
      | .error (.err _) _ => pure ()
      | .error (.panic v) _ => throw (.panic v)) := by
  apply Commutes.bind' (observe_blind os)
  intro _
  apply Commutes.bind' getWorld_blind
  intro w
  cases hook w with
  | ok u cache => exact setWorld_blind cache
  | error e cache =>
    cases e with
    | err e => exact Commutes.pure' _
    | panic v => exact Commutes.throw' _

theorem runVotingPeriodEndedHook_blind (id : Nat) :
    Blind fallbackDelay d (runVotingPeriodEndedHook k ctx id) := hook_blind _ _

theorem runFailedMinDepositHook_blind (id : Nat) :
    Blind fallbackDelay d (runFailedMinDepositHook k ctx id) := hook_blind _ _

theorem executeProposal_blind (proposal : Proposal Any) :
    Blind fallbackDelay d (executeProposal k ctx proposal) := by
  apply Commutes.bind' (observe_blind _)
  intro _
  cases k.getMsgs proposal.messages with
  | error err => exact Commutes.pure' _
  | ok messages =>
    apply Commutes.bind' getWorld_blind
    intro w
    apply Commutes.bind' (observe_blind _)
    intro _
    cases (runMessages k (runMessage k ctx) 0 messages [] w).outcome with
    | ok r =>
      apply Commutes.bind' (setWorld_blind _)
      intro _
      exact Commutes.bind' (observe_blind _) fun _ => Commutes.pure' _
    | error e =>
      cases e with
      | err err => exact Commutes.pure' _
      | panic v => exact Commutes.throw' _

theorem processInactiveProposals_blind :
    Blind fallbackDelay d (processInactiveProposals k ctx) := by
  apply Commutes.bind' getWorld_blind
  intro w
  apply Commutes.forM'
  intro prop
  apply Commutes.bind' getWorld_blind
  intro w
  cases w.getProposal prop.k2 with
  | errEncoding proposal err =>
    apply Commutes.bind' (failUnsupportedProposal_blind k _ _ _)
    intro _
    exact Commutes.bind' (removeInactive_blind prop) fun _ => gov_blind _
  | errNotFound => exact Commutes.throw' _
  | found proposal =>
    apply Commutes.bind' (gov_blind _)
    intro _
    apply Commutes.bind' getParams_blind
    intro params
    apply Commutes.bind' (settleDeposits_blind k _ _)
    intro _
    exact Commutes.bind' (runFailedMinDepositHook_blind k _) fun _ => observe_blind _

theorem conclude_blind (active passes : Bool) (delay : Option Duration) (proposal : Proposal Any) :
    Blind fallbackDelay d
      (conclude k (executeProposal k ctx) ctx fallbackDelay active passes delay proposal) := by
  apply Commutes.ite'
  · intro _
    exact Commutes.bind' (executeProposal_blind k _) fun _ => Commutes.pure' _
  · intro _
    apply Commutes.ite'
    · intro _
      -- the one read of the delay
      refine getTimelock_blind (fun s hs => ?_) fun t => ?_
      · simp only [show (s.timelock.withDelay d).getExecutionDelay fallbackDelay =
          s.timelock.getExecutionDelay fallbackDelay from hs]
      · apply Commutes.bind' (schedule_blind _ _)
        intro _
        exact Commutes.bind' (observe_blind _) fun _ => Commutes.pure' _
    · intro _
      apply Commutes.ite'
      · intro _
        apply Commutes.bind' getParams_blind
        intro params
        apply Commutes.bind' (deref_blind _)
        intro votingStartTime
        apply Commutes.bind' (deref_blind _)
        intro votingPeriod
        apply Commutes.bind' (setActive_blind _)
        intro _
        exact Commutes.bind' (observe_blind _) fun _ => Commutes.pure' _
      · intro _
        exact Commutes.pure' _

theorem processEndedVotingPeriods_blind (active : Bool) :
    Blind fallbackDelay d (processEndedVotingPeriods k ctx fallbackDelay active) := by
  apply Commutes.bind' getWorld_blind
  intro w
  refine Commutes.bind' (Commutes.foldlM' (fun delay prop => ?_) _ _) fun _ => Commutes.pure' _
  apply Commutes.bind' getWorld_blind
  intro w
  cases w.getProposal prop.k2 with
  | errEncoding proposal err =>
    apply Commutes.bind' (failUnsupportedProposal_blind k _ _ _)
    intro _
    exact Commutes.bind' (removeActive_blind prop) fun _ => Commutes.pure' _
  | errNotFound => exact Commutes.throw' _
  | found proposal =>
    apply Commutes.bind' (gov_blind _)
    intro tally
    apply Commutes.bind' (observe_blind _)
    intro _
    apply Commutes.bind' (runIf_blind _ (settleDeposits_blind k _ _))
    intro _
    apply Commutes.bind' (removeActive_blind prop)
    intro _
    apply Commutes.bind' (conclude_blind k _ _ _ _)
    intro c
    apply Commutes.bind' (gov_blind _)
    intro _
    apply Commutes.bind' (runIf_blind _ (runVotingPeriodEndedHook_blind k _))
    intro _
    exact Commutes.bind' (observe_blind _) fun _ => Commutes.pure' _

theorem dropScheduledEntry_blind (scheduled : ScheduledProposal) (reason : String) :
    Blind fallbackDelay d (dropScheduledEntry scheduled reason : M Any Rest Unit) :=
  Commutes.bind' (removeScheduled_blind _ _) fun _ => observe_blind _

theorem executeMaturedProposals_blind : Blind fallbackDelay d (executeMaturedProposals k ctx) := by
  apply getTimelock_blind (fun _ _ => rfl)
  intro t
  apply Commutes.forM'
  intro scheduled
  apply Commutes.bind' getWorld_blind
  intro w
  cases w.getProposal scheduled.proposalID with
  | errEncoding proposal err =>
    apply Commutes.bind' (gov_blind _)
    intro _
    exact Commutes.bind' (runVotingPeriodEndedHook_blind k _) fun _ =>
      dropScheduledEntry_blind _ _
  | errNotFound =>
    exact Commutes.bind' (runVotingPeriodEndedHook_blind k _) fun _ =>
      dropScheduledEntry_blind _ _
  | found proposal =>
    apply Commutes.ite'
    · intro _
      exact Commutes.bind' (runVotingPeriodEndedHook_blind k _) fun _ =>
        dropScheduledEntry_blind _ _
    · intro _
      apply Commutes.bind' (executeProposal_blind k _)
      intro r
      apply Commutes.bind' (gov_blind _)
      intro _
      apply Commutes.bind' (removeScheduled_blind _ _)
      intro _
      exact Commutes.bind' (runVotingPeriodEndedHook_blind k _) fun _ => observe_blind _

/-- The end blocker does not look at which delay is stored, but at the one in force. -/
theorem endBlocker_blind : Blind fallbackDelay d (EndBlocker k ctx fallbackDelay) := by
  apply getTimelock_blind (fun _ _ => rfl)
  intro t
  apply Commutes.bind' (processInactiveProposals_blind k)
  intro _
  apply Commutes.bind' (processEndedVotingPeriods_blind k _)
  intro _
  exact runIf_blind _ (executeMaturedProposals_blind k)

end Steps

/-! ## Blocks -/

/-- Two chains that their blocks do not tell apart. -/
structure Alike (s t : St Any Rest) : Prop where
  world : t.world = s.world
  scheduled : t.timelock.scheduledProposals = s.timelock.scheduledProposals
  activation : t.timelock.activationHeight = s.timelock.activationHeight
  delay : t.timelock.getExecutionDelay minimumDelay = s.timelock.getExecutionDelay minimumDelay

/-- Migrations of the other modules do not look at the timelock's store. -/
def Manager.Separate (mm : Manager Any Rest) : Prop :=
  ∀ {ctx vm vm' s u}, vm moduleName ≠ none → mm.runMigrations ctx vm s = .ok vm' u →
    ∀ t : St Any Rest, t.world = s.world →
      ∃ v, mm.runMigrations ctx vm t = .ok vm' v ∧ v.world = u.world

section Blocks
variable {E : Ctx → World Any Rest → World Any Rest → Prop} {s s' t t' : St Any Rest}

theorem Alike.refl (s : St Any Rest) : Alike s s := ⟨rfl, rfl, rfl, rfl⟩

theorem Alike.symm (h : Alike s t) : Alike t s :=
  ⟨h.world.symm, h.scheduled.symm, h.activation.symm, h.delay.symm⟩

theorem Alike.trans {u : St Any Rest} (h : Alike s t) (h' : Alike t u) : Alike s u :=
  ⟨h'.world.trans h.world, h'.scheduled.trans h.scheduled, h'.activation.trans h.activation,
    h'.delay.trans h.delay⟩

theorem Alike.sim {φ : Nat → Phase} (h : Alike s t) (hsim : Sim s φ) : Sim t φ := by
  refine ⟨h.world ▸ hsim.wf, fun id => ?_⟩
  have hentry : ∀ e, t.timelock.Entry id e ↔ s.timelock.Entry id e := fun e => by
    unfold Timelock.Entry
    rw [h.scheduled]
  have hP := hsim.holds id
  cases hφ : φ id with
  | unresolved c =>
    rw [hφ] at hP
    unfold Holds
    rw [h.world]
    exact ⟨fun e => mt (hentry e).mp (hP.1 e), hP.2⟩
  | waiting e =>
    rw [hφ] at hP
    unfold Holds
    rw [h.world]
    exact ⟨fun e' => (hentry e').trans (hP.1 e'), hP.2⟩
  | closed =>
    rw [hφ] at hP
    unfold Holds
    rw [h.world]
    exact ⟨fun e => mt (hentry e).mp (hP.1 e), hP.2⟩

/-- What happens before the end blocker is the same on both chains. -/
theorem BeforeEndBlock.alike (hmm : mm.Lawful) (hsep : mm.Separate)
    (h : BeforeEndBlock mm E ctx s s') (hst : Alike s t) :
    ∃ t', BeforeEndBlock mm E ctx t t' ∧ t' = s'.withDelay t.timelock.executionDelay ∧
      SameDelay minimumDelay t.timelock.executionDelay s' := by
  have hsame : ∀ u : St Any Rest, u.timelock.executionDelay = s.timelock.executionDelay →
      SameDelay minimumDelay t.timelock.executionDelay u := by
    intro u hu
    calc (u.timelock.withDelay t.timelock.executionDelay).getExecutionDelay minimumDelay
        = t.timelock.getExecutionDelay minimumDelay := getExecutionDelay_congr rfl _
      _ = s.timelock.getExecutionDelay minimumDelay := hst.delay
      _ = u.timelock.getExecutionDelay minimumDelay := (getExecutionDelay_congr hu _).symm
  cases h with
  | @transactions w hE =>
    refine ⟨{ t with world := w, log := [] }, .transactions (hst.world.symm ▸ hE), ?_,
      hsame _ rfl⟩
    show (⟨w, t.timelock, []⟩ : St Any Rest) = ⟨w, ⟨_, _, _⟩, []⟩
    rw [← hst.scheduled, ← hst.activation]
  | @upgrade vm vm' s₁ w hup hE =>
    obtain ⟨ht, _, _⟩ := v8_5.handler_ok hmm hup
    simp only [v8_5.createUpgradeHandler, if_true, runIf_true, bind_ok, setActivationHeight_ok,
      pure_ok] at hup
    obtain ⟨vm₁, u, hrun, _, _, rfl, rfl, rfl⟩ := hup
    obtain ⟨v, hrun', _⟩ := hsep (by simp) hrun t hst.world
    have hup' : v8_5.createUpgradeHandler mm ⟨true⟩ ctx vm t = .ok vm₁
        { v with timelock := v.timelock.setActivationHeight ctx.height } := by
      simp only [v8_5.createUpgradeHandler, if_true, runIf_true, bind_ok, setActivationHeight_ok,
        pure_ok]
      exact ⟨_, v, hrun', (), _, rfl, rfl, rfl⟩
    obtain ⟨ht', _, _⟩ := v8_5.handler_ok hmm hup'
    simp only at ht ht'
    refine ⟨_, .upgrade hup' (hst.world.symm ▸ hE), ?_, hsame _ ?_⟩
    · show (⟨w, v.timelock.setActivationHeight ctx.height, []⟩ : St Any Rest) =
        ⟨w, (u.timelock.setActivationHeight ctx.height).withDelay _, []⟩
      rw [ht, ht']
      show (⟨w, ⟨_, _, _⟩, []⟩ : St Any Rest) = ⟨w, ⟨_, _, _⟩, []⟩
      rw [hst.scheduled]
      rfl
    · show (u.timelock.setActivationHeight ctx.height).executionDelay = _
      rw [ht]
      rfl

/-- A block of one chain is one of the other, and leaves them alike. -/
theorem BlockStep.alike (hmm : mm.Lawful) (hsep : mm.Separate) {b : Block}
    (h : BlockStep k mm E s b s') (hst : Alike s t) :
    ∃ t', BlockStep k mm E t b t' ∧ Alike s' t' := by
  obtain ⟨s₀, hbefore, hend, hlog, hactive, hdelay⟩ := h
  obtain ⟨t₀, hbefore', rfl, hsame⟩ := hbefore.alike hmm hsep hst
  have hblind : Blind minimumDelay t.timelock.executionDelay
      (EndBlocker k b.ctx minimumDelay) := endBlocker_blind k
  have hend' := hblind.ok hsame hend
  have hsame' := (hblind _ hsame).2 _ _ hend
  exact ⟨_, ⟨_, hbefore', hend', hlog, hactive, hdelay.trans hsame.symm⟩, rfl, rfl, rfl, hsame'⟩

end Blocks

/-! ## Restarts -/

/-- The timelock's genesis is exported and imported on a fresh store, over the same x/gov. -/
def Restarted (s t : St Any Rest) : Prop :=
  ∃ bz log, exportGenesis s.timelock = .ok bz ∧
    initGenesis true bz ⟨s.world, Timelock.fresh, log⟩ = .ok () t

/-- The chain could be restarted here, and goes on: every proposal that waits can be read. -/
def Paused (s t : St Any Rest) : Prop :=
  t = s ∧ ∀ id e, s.timelock.Entry id e → ∃ p, s.world.getProposal id = .found p

section Restarts
variable {s s' t t' : St Any Rest} {φ : Nat → Phase}

/-- A restart leaves a chain that cannot be told from the one before, with every entry naming a
proposal that x/gov has. -/
theorem Restarted.alike (h : Restarted t t') (ht : t.timelock.Exportable) (hsim : Sim t φ) :
    Alike t t' ∧ t'.timelock.Exportable ∧
      ∀ id e, t.timelock.Entry id e → ∃ p, t.world.getProposal id = .found p := by
  obtain ⟨bz, log, hexp, hinit⟩ := h
  obtain ⟨bz', hbz, hread⟩ := unmarshalGenesis_marshalGenesis
    (ht.encodable fun id e he => (hsim.entries he).2.1)
  simp only [exportGenesis, hbz] at hexp
  cases hexp
  obtain ⟨gs, hgs, hw, htl, hgov⟩ := imported hinit
  rw [hread] at hgs
  cases hgs
  obtain ⟨hsched, hact, hdelay⟩ := ht.withGenesis_toGenesis
  rw [← htl] at hsched hact hdelay
  have hpos : 0 < t.timelock.getExecutionDelay minimumDelay :=
    Timelock.getExecutionDelay_pos Timelock.minimumDelay_pos
  have hentry : ∀ {id e}, t'.timelock.Entry id e → t.timelock.Entry id e := fun he => by
    unfold Timelock.Entry at he ⊢
    rwa [hsched] at he
  refine ⟨⟨hw, hsched, hact, getExecutionDelay_some hdelay hpos⟩, ?_, fun id e he => ?_⟩
  · refine ⟨fun he => ht.times (hentry he), fun he => ht.ids_pos (hentry he),
      fun he => hact ▸ ht.activated (hentry he), fun ha => ht.activation (hact ▸ ha), fun hd => ?_⟩
    rw [hdelay] at hd
    cases hd
    exact ⟨hpos, (ht.encodable fun id e he => (hsim.entries he).2.1).delay.2⟩
  · obtain ⟨_, p, hp, _⟩ := hgov _ (Timelock.mem_toGenesis.mpr he)
    exact ⟨p, hp⟩

/-- A chain whose waiting proposals can be read can be restarted. -/
theorem restarted_of_found (ht : t.timelock.Exportable) (hsim : Sim t φ)
    (hfound : ∀ id e, t.timelock.Entry id e → ∃ p, t.world.getProposal id = .found p) :
    ∃ t', Restarted t t' := by
  obtain ⟨bz, hbz, hread⟩ := unmarshalGenesis_marshalGenesis
    (ht.encodable fun id e he => (hsim.entries he).2.1)
  have hcheck : validateAgainstGov t.world t.timelock.toGenesis = .ok () := by
    refine validateAgainstGov_ok.mpr fun sp hsp => ?_
    have he := Timelock.mem_toGenesis.mp hsp
    obtain ⟨p, hp⟩ := hfound _ _ he
    obtain ⟨_, _, q, hq, hst⟩ := hsim.entries he
    rw [World.stored_of_found hp] at hq
    cases hq
    exact ⟨p, hp, hst⟩
  refine ⟨_, bz, [], ?_, initGenesis_ok.mpr ⟨_, hread, fun _ => hcheck, fun sp hsp =>
    (ht.times (Timelock.mem_toGenesis.mp hsp)).1, rfl⟩⟩
  rw [exportGenesis, hbz]

/-- Two chains that are alike, after any run of both. -/
structure Twins (s t : St Any Rest) : Prop where
  alike : Alike s t
  left : s.timelock.Exportable
  right : t.timelock.Exportable
  sim : ∃ φ, Sim s φ

theorem Twins.symm (h : Twins s t) : Twins t s := by
  obtain ⟨φ, hsim⟩ := h.sim
  exact ⟨h.alike.symm, h.right, h.left, φ, h.alike.sim hsim⟩

theorem Twins.block (hk : k.Lawful) (hmm : mm.Lawful) (hsep : mm.Separate) {b : Block}
    (h : Twins s t) (hb : BlockStep k mm Ruled s b s') :
    ∃ t', BlockStep k mm Ruled t b t' ∧ Twins s' t' := by
  obtain ⟨φ, hsim⟩ := h.sim
  obtain ⟨t', hb', hst'⟩ := hb.alike hmm hsep h.alike
  obtain ⟨ψ, _, hsim'⟩ := hb.told hk hmm hsim
  exact ⟨t', hb', hst', hb.exportable hk hmm hsim h.left,
    hb'.exportable hk hmm (h.alike.sim hsim) h.right, ψ, hsim'⟩

/-- A twin of a chain that pauses can be restarted. -/
theorem Twins.restarted (h : Twins s t) (hp : Paused s s') :
    ∃ t', Restarted t t' ∧ Twins s' t' := by
  obtain ⟨rfl, hfound⟩ := hp
  obtain ⟨φ, hsim⟩ := h.sim
  have hsim' := h.alike.sim hsim
  obtain ⟨t', hre⟩ := restarted_of_found h.right hsim' fun id e he => by
    unfold Timelock.Entry at he
    rw [h.alike.scheduled] at he
    rw [h.alike.world]
    exact hfound id e he
  obtain ⟨hst, ht', _⟩ := hre.alike h.right hsim'
  exact ⟨t', hre, h.alike.trans hst, h.left, ht', φ, hsim⟩

/-- A twin of a chain that is restarted could have been. -/
theorem Twins.paused (h : Twins s t) (hre : Restarted s s') :
    ∃ t', Paused t t' ∧ Twins s' t' := by
  obtain ⟨φ, hsim⟩ := h.sim
  obtain ⟨hst, hs', hfound⟩ := hre.alike h.left hsim
  refine ⟨t, ⟨rfl, fun id e he => ?_⟩, hst.symm.trans h.alike, hs', h.right, φ, hst.sim hsim⟩
  unfold Timelock.Entry at he
  rw [h.alike.scheduled] at he
  rw [h.alike.world]
  exact hfound id e he

end Restarts

/-- **Restarts cannot be noticed.** However often the chain is exported and started again, the same
blocks, with the same logs, are those of the chain that was left running, and the other way round,
and both end with the same proposals, the same entries, active from the same height and with the
same delay in force. A restart succeeds wherever x/gov can read the proposals that wait. -/
theorem node_restarts_invisible (k : GovKeeper Any Msg Rest) (mm : Manager Any Rest) (hk : k.Lawful)
    (hmm : mm.Lawful) (hsep : mm.Separate) {s : St Any Rest} (hstart : Initial s)
    (hwf : s.world.WF) (hs : List (Happening Block))
    (hord : (stepsOf hs).Pairwise fun b c => b.ctx.height < c.ctx.height ∧ b.ctx.time ≤ c.ctx.time) :
    (∀ t, Lives (BlockStep k mm Ruled) Restarted s hs t →
      ∃ s', Run k mm Ruled s (stepsOf hs) s' ∧ Alike s' t) ∧
    ∀ s', Lives (BlockStep k mm Ruled) Paused s hs s' →
      ∃ t, Lives (BlockStep k mm Ruled) Restarted s hs t ∧ Alike s' t := by
  obtain ⟨φ, hsim⟩ := hstart.sim hwf
  have htwins : Twins s s := ⟨.refl s, hstart.exportable, hstart.exportable, φ, hsim⟩
  constructor
  · intro t h
    obtain ⟨s', hlives, hts⟩ := h.simulate Paused
      (fun h hb => h.block hk hmm hsep hb) (fun h hre => h.paused hre) htwins
    exact ⟨s', ⟨hlives.steps fun h => h.1, hord⟩, hts.alike.symm⟩
  · intro s' h
    obtain ⟨t, hlives, hst⟩ := h.simulate Restarted
      (fun h hb => h.block hk hmm hsep hb) (fun h hp => h.restarted hp) htwins
    exact ⟨t, hlives, hst.alike⟩

theorem govtimelockManager_separate : (govtimelockManager : Manager Any Rest).Separate := by
  intro ctx vm vm' s u hvm h t ht
  simp only [govtimelockManager, hvm, decide_false, runIf_false, bind_ok, pure_ok] at h ⊢
  obtain ⟨_, _, ⟨_, rfl⟩, rfl, rfl⟩ := h
  exact ⟨t, ⟨(), t, ⟨trivial, rfl⟩, rfl, rfl⟩, ht⟩

/-- The chain is restarted between the tally of a proposal and its execution. -/
theorem deferred_restarted : ∃ t : St Unit Unit,
    Lives (BlockStep passingKeeper govtimelockManager Ruled) Restarted
      { votingState [(7, 10)] with log := [.initGenesis] }
      [.step tallyBlock, .restart, .step executionBlock] t ∧
    ∀ e, ¬ t.timelock.Entry 7 e := by
  have hlives : Lives (BlockStep passingKeeper govtimelockManager Ruled) Paused
      { votingState [(7, 10)] with log := [.initGenesis] }
      [.step tallyBlock, .restart, .step executionBlock]
      (executed (tallied (votingState [(7, 10)]) 7 10 10 tallyBlock.log) 7 10 10
        executionBlock.log) := by
    refine .cons (tallyBlock_step [.initGenesis]) (.cons ⟨rfl, fun id e he => ?_⟩
      (.cons executionBlock_step (.nil _)))
    rcases KeySet.mem_set.mp he with hkey | he
    · cases hkey
      exact ⟨_, getProposal_setRecord _ (passedProposal 7 10)⟩
    · exact absurd he (KeySet.not_mem_empty _)
  obtain ⟨t, ht, hst⟩ := (node_restarts_invisible passingKeeper govtimelockManager passingKeeper_lawful
    govtimelockManager_lawful govtimelockManager_separate (importedVoting_initial _)
    (votingWorld_wf (by decide) (by decide)) [.step tallyBlock, .restart, .step executionBlock]
    (by simp [stepsOf, tallyBlock, executionBlock, blockAt])).2 _ hlives
  refine ⟨t, ht, fun e he => ?_⟩
  unfold Timelock.Entry at he
  rw [hst.scheduled] at he
  obtain ⟨he, hne⟩ := KeySet.mem_remove.mp he
  rcases KeySet.mem_set.mp he with hkey | he
  · exact hne hkey
  · exact KeySet.not_mem_empty _ he

end Ark.GovTimelock
