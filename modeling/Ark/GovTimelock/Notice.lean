import Ark.GovTimelock.Delay

/- Stores that only proposals change.

   A module may have messages that only x/gov's authority sends. What x/gov itself does
   leaves its store alone (`Governed`), so an end blocker changes the store only where the
   messages of a proposal run, each with its own effect. Over a run the store is what the
   messages of the proposals that were executed make of it, in their order, and each of
   these proposals was announced (`Run.enacted`): once the timelock is active, its tally
   passed at least one delay before its messages ran, and these are the messages of the
   record as it was then. -/
namespace Ark.GovTimelock
open Ark.Lib Ark.Gov World

variable {Any Msg Rest V : Type} {k : GovKeeper Any Msg Rest} {mm : Manager Any Rest} {ctx : Ctx}
  {E : Ctx → World Any Rest → World Any Rest → Prop} {s s' : St Any Rest} {Bs : List Block}

/-! ## Records of decided proposals -/

section Records
variable {w w' w'' : World Any Rest} {id : Nat}

/-- The record of a decided proposal stays as it is. -/
def KeepsDecided (id : Nat) (w w' : World Any Rest) : Prop :=
  ∀ p, w.stored id = some p → p.status.Decided → w'.stored id = some p

theorem KeepsDecided.refl (id : Nat) (w : World Any Rest) : KeepsDecided id w w := fun _ hp _ => hp

theorem KeepsDecided.trans (h : KeepsDecided id w w') (h' : KeepsDecided id w' w'') :
    KeepsDecided id w w'' := fun p hp hd => h' p (h p hp hd) hd

theorem keepsDecided_of_agreeOff {i : Nat} (h : w.AgreeOff i w') (hi : id ≠ i) :
    KeepsDecided id w w' := fun _ hp _ => (stored_congr (h.record hi)).trans hp

theorem keepsDecided_of_sameGov (h : w.SameGov w') : KeepsDecided id w w' := fun p hp _ => by
  rw [h]
  exact hp

theorem keepsDecided_of_conforms {now : Time} (h : w.Conforms now w') : KeepsDecided id w w' :=
  fun _ hp hd => h.2.decided trivial hp hd

theorem keepsDecided_of_setProposal (hk : k.Lawful) {p : Proposal Any}
    (h : k.setProposal ctx p w = .ok () w') (hid : id ≠ p.id) : KeepsDecided id w w' :=
  keepsDecided_of_agreeOff (setProposal_agreeOff hk h).1 hid

/-- A turn of the inactive queue keeps the records of other proposals that are decided. -/
theorem InactiveStep.keepsDecided (hk : k.Lawful) {prop : Pair} {act : Act}
    (h : InactiveStep k ctx prop s act s') (hid : id ≠ act.id) :
    KeepsDecided id s.world s'.world := by
  have hdelete : ∀ {w w' : World Any Rest}, id ≠ prop.k2 →
      k.deleteProposal ctx prop.k2 w = .ok () w' → KeepsDecided id w w' := by
    intro w w' hne hd
    obtain ⟨p, _, hsame⟩ := hk.deleteProposal hd
    exact (keepsDecided_of_agreeOff (deleteRecord_agreeOff w prop.k2 p) hne).trans
      (keepsDecided_of_sameGov hsame)
  rw [h.id_eq] at hid
  cases h with
  | undecodable _ hset hsettle hd =>
    exact ((keepsDecided_of_setProposal hk hset hid).trans
      (keepsDecided_of_sameGov (hsettle.sameGov hk))).trans
      ((keepsDecided_of_agreeOff (removeInactive_agreeOff _ _) hid).trans (hdelete hid hd))
  | expired _ hd _ hsettle hhook =>
    exact ((hdelete hid hd).trans (keepsDecided_of_sameGov (hsettle.sameGov hk))).trans
      (keepsDecided_of_conforms (hhook.conforms hk.afterProposalFailedMinDeposit))

/-- So does a tally. -/
theorem TallyStep.keepsDecided (hk : k.Lawful) {fallbackDelay : Duration} {active : Bool}
    {prop : Pair} {act : Act}
    (h : TallyStep k (runMessage k ctx) ctx fallbackDelay active prop s act s')
    (hid : id ≠ act.id) : KeepsDecided id s.world s'.world := by
  have htallied : ∀ {p : Proposal Any} {passes burned : Bool} {res : TallyResult}
      {w : World Any Rest}, Tallied k ctx prop s.world p passes burned res w → id ≠ prop.k2 →
      KeepsDecided id s.world w ∧ id ≠ p.id := by
    intro p passes burned res w hT hne
    obtain ⟨hg, hagree, _⟩ := hT.world hk
    exact ⟨keepsDecided_of_agreeOff hagree hne, World.id_of_found hg ▸ hne⟩
  rw [h.id_eq] at hid
  cases h with
  | undecodable _ hset hsettle =>
    exact ((keepsDecided_of_setProposal hk hset hid).trans
      (keepsDecided_of_sameGov (hsettle.sameGov hk))).trans
      (keepsDecided_of_agreeOff (removeActive_agreeOff _ _) hid)
  | executedNow _ hT hx hset hhook =>
    obtain ⟨hkept, hne⟩ := htallied hT hid
    have hrun : KeepsDecided id _ _ :=
      keepsDecided_of_conforms (hx.conforms (runMessage_conforms hk))
    exact ((hkept.trans hrun).trans (keepsDecided_of_setProposal hk hset (hx.id_eq ▸ hne))).trans
      (keepsDecided_of_conforms (hhook.conforms hk.afterProposalVotingPeriodEnded))
  | scheduled _ hT _ _ hset =>
    obtain ⟨hkept, hne⟩ := htallied hT hid
    exact hkept.trans (keepsDecided_of_setProposal hk hset hne)
  | @converted _ _ _ _ start period _ _ _ hT _ _ _ _ _ hset hhook =>
    obtain ⟨hkept, hne⟩ := htallied hT hid
    exact ((hkept.trans (keepsDecided_of_agreeOff (setActive_agreeOff _ ⟨start + period, prop.k2⟩) hid)).trans
      (keepsDecided_of_setProposal hk hset hne)).trans
      (keepsDecided_of_conforms (hhook.conforms hk.afterProposalVotingPeriodEnded))
  | rejected hT _ hset hhook =>
    obtain ⟨hkept, hne⟩ := htallied hT hid
    exact (hkept.trans (keepsDecided_of_setProposal hk hset hne)).trans
      (keepsDecided_of_conforms (hhook.conforms hk.afterProposalVotingPeriodEnded))

/-- And a turn of the schedule. -/
theorem MaturedStep.keepsDecided (hk : k.Lawful) {sp : ScheduledProposal} {act : Act}
    (h : MaturedStep k ctx sp s act s') (hid : id ≠ act.id) :
    KeepsDecided id s.world s'.world := by
  rw [h.id_eq] at hid
  cases h with
  | executed hg _ hx hset hhook =>
    have hne : id ≠ _ := (hx.id_eq.trans (World.id_of_found hg)) ▸ hid
    exact ((keepsDecided_of_conforms (hx.conforms (runMessage_conforms hk))).trans
      (keepsDecided_of_setProposal hk hset hne)).trans
      (keepsDecided_of_conforms (hhook.conforms hk.afterProposalVotingPeriodEnded))
  | corrupt _ hset hhook =>
    exact (keepsDecided_of_setProposal hk hset hid).trans
      (keepsDecided_of_conforms (hhook.conforms hk.afterProposalVotingPeriodEnded))
  | missing _ hhook =>
    exact keepsDecided_of_conforms (hhook.conforms hk.afterProposalVotingPeriodEnded)
  | wrongStatus _ _ hhook =>
    exact keepsDecided_of_conforms (hhook.conforms hk.afterProposalVotingPeriodEnded)

/-- Turns that are not about a decided proposal keep its record. -/
theorem keepsDecided_of_turns {ι : Type} {R : ι → St Any Rest → Act → St Any Rest → Prop}
    (hR : ∀ {i u act v}, R i u act v → id ≠ act.id → KeepsDecided id u.world v.world)
    {L : List (ι × Act)} (h : Steps (fun u l v => R l.1 u l.2 v) s L s')
    (hne : actsOf id (acts L) = []) : KeepsDecided id s.world s'.world := by
  refine h.invariant (fun u => KeepsDecided id s.world u.world) (fun u l v hl hu hstep => ?_)
    (.refl _ _)
  have hid := List.filter_eq_nil_iff.mp hne l.2 (List.mem_map.mpr ⟨l, hl, rfl⟩)
  exact hu.trans (hR hstep fun he => hid (decide_eq_true he.symm))

/-- A call keeps the record of a decided proposal that it has not turned to yet. -/
theorem EndBlockSteps.keepsDecided (hk : k.Lawful) {fallbackDelay : Duration}
    {s₁ s₂ u : St Any Rest} {L₁ L₂ : List (Pair × Act)} {L₃ M : List (ScheduledProposal × Act)}
    (h : EndBlockSteps k ctx fallbackDelay s L₁ L₂ L₃ s₁ s₂ s')
    (hM : Steps (fun u l v => MaturedStep k ctx l.1 u l.2 v) s₂ M u)
    (h₁ : actsOf id (acts L₁) = []) (h₂ : actsOf id (acts L₂) = [])
    (h₃ : actsOf id (acts M) = []) : KeepsDecided id s.world u.world := by
  have hinactive : KeepsDecided id s.world s₁.world :=
    keepsDecided_of_turns (R := InactiveStep k ctx) (InactiveStep.keepsDecided hk) h.inactive h₁
  have htallies : KeepsDecided id s₁.world s₂.world :=
    keepsDecided_of_turns (R := TallyStep k (runMessage k ctx) ctx fallbackDelay _)
      (TallyStep.keepsDecided hk) h.tallies h₂
  have hmatured : KeepsDecided id s₂.world u.world :=
    keepsDecided_of_turns (R := MaturedStep k ctx) (MaturedStep.keepsDecided hk) hM h₃
  exact (hinactive.trans htallies).trans hmatured

end Records

/-! ## One turn -/

/-- What happens to a module's store: the messages of proposals have their effects, and what x/gov
itself does leaves it. -/
structure Governed (k : GovKeeper Any Msg Rest) (view : Rest → V) (effect : V → Msg → V → Prop) :
    Prop where
  handler : ∀ {ctx msg h w r w'}, k.handler msg = some h → h ctx msg w = .ok r w' →
    effect (view w.rest) msg (view w'.rest)
  tally : ∀ {ctx p w r w'}, k.tally ctx p w = .ok r w' → view w'.rest = view w.rest
  refundAndDeleteDeposits : ∀ {ctx id w w'}, k.refundAndDeleteDeposits ctx id w = .ok () w' →
    view w'.rest = view w.rest
  deleteAndBurnDeposits : ∀ {ctx id w w'}, k.deleteAndBurnDeposits ctx id w = .ok () w' →
    view w'.rest = view w.rest
  setProposal : ∀ {ctx p w w'}, k.setProposal ctx p w = .ok () w' → view w'.rest = view w.rest
  deleteProposal : ∀ {ctx id w w'}, k.deleteProposal ctx id w = .ok () w' →
    view w'.rest = view w.rest
  afterProposalVotingPeriodEnded : ∀ {ctx id w w'},
    k.afterProposalVotingPeriodEnded ctx id w = .ok () w' → view w'.rest = view w.rest
  afterProposalFailedMinDeposit : ∀ {ctx id w w'},
    k.afterProposalFailedMinDeposit ctx id w = .ok () w' → view w'.rest = view w.rest

section Turns
variable {view : Rest → V} {effect : V → Msg → V → Prop} {w w' : World Any Rest} {act : Act}
  {p p' : Proposal Any}

theorem Settles.view_eq (hg : Governed k view effect) {id : Nat} {burn : Bool}
    (h : Settles k ctx id burn w w') : view w'.rest = view w.rest := by
  unfold Settles at h
  cases burn with
  | true => exact hg.deleteAndBurnDeposits h
  | false => exact hg.refundAndDeleteDeposits h

theorem Hooks.view_eq {hook : GovM Any Rest Unit} (h : Hooks hook w w')
    (hh : hook w = .ok () w' → view w'.rest = view w.rest) : view w'.rest = view w.rest := by
  rcases h with h | ⟨_, _, _, rfl⟩
  · exact hh h
  · rfl

theorem Tallied.view_eq (hg : Governed k view effect) {prop : Pair} {passes burned : Bool}
    {res : TallyResult} (h : Tallied k ctx prop w p passes burned res w') :
    view w'.rest = view w.rest := by
  cases h with
  | settled _ ht _ hs => exact (hs.view_eq hg).trans (hg.tally ht)
  | kept _ ht _ =>
    have hkept := hg.tally ht
    exact hkept

/-- Messages that all succeed have their effects, one after the other. -/
theorem runMessages_effects (hg : Governed k view effect) {msgs : List Msg} :
    ∀ {idx n : Nat} {events events' : List SdkEvent} {w w' : World Any Rest},
      runMessages k (runMessage k ctx) idx msgs events w = ⟨n, .ok (w', events')⟩ →
      Steps effect (view w.rest) msgs (view w'.rest) := by
  induction msgs with
  | nil =>
    intro idx n events events' w w' h
    simp only [runMessages, Execution.mk.injEq, Except.ok.injEq, Prod.mk.injEq] at h
    obtain ⟨_, rfl, _⟩ := h
    exact .nil _
  | cons msg msgs ih =>
    intro idx n events events' w w' h
    rw [runMessages] at h
    rcases hr : runMessage k ctx idx msg w with err | ⟨_ | evs, w₁⟩
    · simp [hr] at h
    · simp [hr] at h
    · simp only [hr] at h
      refine .cons ?_ (ih h)
      obtain ⟨handler, hh, hx⟩ := runMessage_ok hr
      exact hg.handler hh hx

/-- The messages of a proposal all have their effects, or none has one. -/
def Enacts (k : GovKeeper Any Msg Rest) (effect : V → Msg → V → Prop) (p : Proposal Any) (v v' : V) :
    Prop := v' = v ∨ ∃ msgs, k.getMsgs p.messages = .ok msgs ∧ Steps effect v msgs v'

theorem Executed.enacts (hg : Governed k view effect) {r : Ran}
    (h : Executed k (runMessage k ctx) p w p' w' r) :
    Enacts k effect p (view w.rest) (view w'.rest) := by
  cases h with
  | succeeded hm hx => exact .inr ⟨_, hm, runMessages_effects hg hx⟩
  | undecodable _ => exact .inl rfl
  | failed _ _ => exact .inl rfl

theorem InactiveStep.view_eq (hg : Governed k view effect) {prop : Pair}
    (h : InactiveStep k ctx prop s act s') : view s'.world.rest = view s.world.rest := by
  cases h with
  | undecodable _ hset hsettle hd =>
    exact (hg.deleteProposal hd).trans ((hsettle.view_eq hg).trans (hg.setProposal hset))
  | expired _ hd _ hsettle hhook =>
    exact (hhook.view_eq hg.afterProposalFailedMinDeposit).trans
      ((hsettle.view_eq hg).trans (hg.deleteProposal hd))

/-- A tally leaves the store, unless it runs its proposal's messages at once. -/
theorem TallyStep.enacts (hg : Governed k view effect) {fallbackDelay : Duration} {active : Bool}
    {prop : Pair} (h : TallyStep k (runMessage k ctx) ctx fallbackDelay active prop s act s') :
    view s'.world.rest = view s.world.rest ∨
      (active = false ∧ .tallied prop.k2 true ∈ act.log ∧ .executing prop.k2 ∈ act.log ∧
        ∃ p, p.id = prop.k2 ∧ Enacts k effect p (view s.world.rest) (view s'.world.rest)) := by
  cases h with
  | undecodable _ hset hsettle =>
    exact .inl ((hsettle.view_eq hg).trans (hg.setProposal hset))
  | @executedNow p p' _ _ _ w₁ w₂ w₃ w₄ ha hT hx hset hhook =>
    have hid : p.id = prop.k2 := by
      cases hT with
      | settled hf _ _ _ => exact World.id_of_found hf
      | kept hf _ _ => exact World.id_of_found hf
    have hlast : view w₄.rest = view w₂.rest :=
      (hhook.view_eq hg.afterProposalVotingPeriodEnded).trans (hg.setProposal hset)
    have henacts := hx.enacts hg
    rw [hT.view_eq hg, ← hlast] at henacts
    exact .inr ⟨ha, by simp [Act.log], by simp [Act.log, Ran.log], p, hid, henacts⟩
  | scheduled _ hT _ _ hset => exact .inl ((hg.setProposal hset).trans (hT.view_eq hg))
  | converted hT _ _ _ _ _ hset hhook =>
    have hkept := hT.view_eq hg
    exact .inl ((hhook.view_eq hg.afterProposalVotingPeriodEnded).trans
      ((hg.setProposal hset).trans hkept))
  | rejected hT _ hset hhook =>
    exact .inl ((hhook.view_eq hg.afterProposalVotingPeriodEnded).trans
      ((hg.setProposal hset).trans (hT.view_eq hg)))

/-- A turn of the schedule leaves the store, or runs the messages of the stored proposal. -/
theorem MaturedStep.enacts (hg : Governed k view effect) {sp : ScheduledProposal}
    (h : MaturedStep k ctx sp s act s') :
    view s'.world.rest = view s.world.rest ∨
      (.executing sp.proposalID ∈ act.log ∧ ∃ p, p.id = sp.proposalID ∧
        s.world.stored sp.proposalID = some p ∧
        Enacts k effect p (view s.world.rest) (view s'.world.rest)) := by
  cases h with
  | @executed p p' r w₁ w₂ w₃ hf _ hx hset hhook =>
    have hlast : view w₃.rest = view w₁.rest :=
      (hhook.view_eq hg.afterProposalVotingPeriodEnded).trans (hg.setProposal hset)
    have henacts := hx.enacts hg
    rw [← hlast] at henacts
    exact .inr ⟨by simp [Act.log, Ran.log], p, World.id_of_found hf, World.stored_of_found hf,
      henacts⟩
  | corrupt _ hset hhook =>
    exact .inl ((hhook.view_eq hg.afterProposalVotingPeriodEnded).trans (hg.setProposal hset))
  | missing _ hhook => exact .inl (hhook.view_eq hg.afterProposalVotingPeriodEnded)
  | wrongStatus _ _ hhook => exact .inl (hhook.view_eq hg.afterProposalVotingPeriodEnded)

end Turns

/-! ## A block -/

/-- A proposal whose messages ran in a block. -/
structure Enactment (Any Msg : Type) where
  block : Block
  proposal : Proposal Any
  msgs : List Msg

/-- The block logs the execution, and the messages are those of the proposal. -/
def Enactment.Logged (k : GovKeeper Any Msg Rest) (e : Enactment Any Msg) : Prop :=
  .executing e.proposal.id ∈ e.block.log ∧ k.getMsgs e.proposal.messages = .ok e.msgs

/-- How the chain that a block starts from knows of a proposal that the block executes. -/
inductive Enactment.Known (s : St Any Rest) (e : Enactment Any Msg) : Prop
  | tallied : e.block.active = false → .tallied e.proposal.id true ∈ e.block.log → Known s e
  | waiting {t : Time} : e.block.active = true → s.timelock.Entry e.proposal.id t →
      t ≤ e.block.ctx.time → s.world.stored e.proposal.id = some e.proposal → Known s e

section Blocks
variable {view : Rest → V} {effect : V → Msg → V → Prop} {φ : Nat → Phase} {b : Block}

theorem Enacts.enactments {p : Proposal Any} {v v' : V} (h : Enacts k effect p v v') (b : Block) :
    ∃ es : List (Enactment Any Msg), Steps effect v (es.flatMap Enactment.msgs) v' ∧
      ∀ e ∈ es, e.block = b ∧ e.proposal = p ∧ k.getMsgs p.messages = .ok e.msgs := by
  rcases h with rfl | ⟨msgs, hmsgs, hsteps⟩
  · exact ⟨[], .nil _, fun e he => absurd he List.not_mem_nil⟩
  · refine ⟨[⟨b, p, msgs⟩], ?_, fun e he => ?_⟩
    · rw [List.flatMap_singleton]
      exact hsteps
    · rw [List.mem_singleton.mp he]
      exact ⟨rfl, rfl, hmsgs⟩

theorem BeforeEndBlock.mono {E' : Ctx → World Any Rest → World Any Rest → Prop}
    (hE : ∀ ctx w w', E ctx w w' → E' ctx w w') (h : BeforeEndBlock mm E ctx s s') :
    BeforeEndBlock mm E' ctx s s' := by
  cases h with
  | transactions hw => exact .transactions (hE _ _ _ hw)
  | upgrade hup hw => exact .upgrade hup (hE _ _ _ hw)

/-- A proposal that waits before and after a call is not moved by it. -/
theorem Turn.still {P : Phase} {as : List Act} {e e' : Time} (h : Turn b P as (.waiting e'))
    (hP : P = .waiting e) : as = [] := by
  generalize hQ : Phase.waiting e' = Q at h
  cases h with
  | idle => rfl
  | move hm =>
    subst hP
    obtain ⟨_, rfl, _⟩ := hm.of_waiting
    cases hQ

theorem Turn.length_le {P P' : Phase} {as : List Act} (h : Turn b P as P') : as.length ≤ 1 := by
  cases h with
  | idle => exact Nat.zero_le 1
  | move _ => exact Nat.le_refl 1

/-- The first of the acts about a proposal is the only one, and no loop has another before it. -/
theorem Turn.alone {P P' : Phase} {id : Nat} {as₁ as₂ as₃ rest : List Act} {act : Act}
    (h : Turn b P (actsOf id (as₁ ++ as₂ ++ (as₃ ++ act :: rest))) P') (hid : act.id = id) :
    actsOf id as₁ = [] ∧ actsOf id as₂ = [] ∧ actsOf id as₃ = [] := by
  have hlen := h.length_le
  have hhead : actsOf id (act :: rest) = act :: actsOf id rest :=
    List.filter_cons_of_pos (by simp [hid])
  rw [actsOf_append, actsOf_append, actsOf_append, hhead] at hlen
  simp only [List.length_append, List.length_cons] at hlen
  exact ⟨List.length_eq_zero_iff.mp (by omega), List.length_eq_zero_iff.mp (by omega),
    List.length_eq_zero_iff.mp (by omega)⟩

/-- A call keeps the record of a proposal that waits before and after it. -/
theorem BlockStep.record_kept (hk : k.Lawful) (hmm : mm.Lawful) (hsim : Sim s φ)
    (h : BlockStep k mm Ruled s b s') {id : Nat} {t : Time} (he : s.timelock.Entry id t)
    (he' : s'.timelock.Entry id t) : s'.world.stored id = s.world.stored id := by
  obtain ⟨s₀, hbefore, hend, _, hactive, hdelay⟩ := h
  have hsim₀ := hsim.before hmm hbefore
  obtain ⟨hsched, _, hE, _, _⟩ := hbefore.schedule_eq hmm
  have he₀ : s₀.timelock.Entry id t := by
    unfold Timelock.Entry
    rw [hsched]
    exact he
  obtain ⟨L₁, L₂, L₃, s₁, s₂, hS⟩ := endBlocker_steps hend
  obtain ⟨x₁, x₂, y, rfl, rfl, rfl, hcall⟩ := endBlocker_call b (x := ⟨φ, s₀, hsim₀⟩) hk hS hactive
    hdelay (hdelay ▸ Timelock.getExecutionDelay_pos Timelock.minimumDelay_pos)
  have hturn := hcall.turn id
  rw [y.sim.waiting_of_entry he', actsOf_append, actsOf_append] at hturn
  have hnone := hturn.still (hsim₀.waiting_of_entry he₀)
  simp only [List.append_eq_nil_iff] at hnone
  obtain ⟨⟨h₁, h₂⟩, h₃⟩ := hnone
  have hP := hsim.holds id
  rw [hsim.waiting_of_entry he] at hP
  obtain ⟨_, _, _, p, hp, hst⟩ := hP
  have hkept := hS.keepsDecided hk hS.matured h₁ h₂ h₃
  rw [hp]
  exact hkept p (hE.2.decided trivial hp (.inl hst)) (.inl hst)

/-- What the tallies of a call run was known before, since they passed in its block. -/
theorem EndBlockSteps.tallies_enacted (hg : Governed k view effect) {s₀ s₁ s₂ : St Any Rest}
    {L₁ L₂ : List (Pair × Act)} {L₃ : List (ScheduledProposal × Act)}
    (h : EndBlockSteps k b.ctx minimumDelay s₀ L₁ L₂ L₃ s₁ s₂ s')
    (hactive : b.active = s₀.timelock.isActive b.ctx.height)
    (hin : ∀ act ∈ acts L₂, ∀ o ∈ Act.log act, o ∈ b.log) :
    ∃ es : List (Enactment Any Msg),
      Steps effect (view s₁.world.rest) (es.flatMap Enactment.msgs) (view s₂.world.rest) ∧
      ∀ e ∈ es, e.block = b ∧ e.Logged k ∧ e.Known s := by
  apply h.tallies.gather (f := fun u : St Any Rest => view u.world.rest)
  intro M₁ l M₂ u v hL _ hstep
  have hact : l.2 ∈ acts L₂ := List.mem_map.mpr ⟨l, by simp [hL], rfl⟩
  rcases hstep.enacts hg with heq | ⟨ha, htally, hexec, p, hid, henacts⟩
  · rw [heq]
    exact ⟨[], .nil _, fun e he => absurd he List.not_mem_nil⟩
  · obtain ⟨es, hes, hall⟩ := henacts.enactments b
    refine ⟨es, hes, fun e he => ?_⟩
    obtain ⟨hb, hp, hmsgs⟩ := hall e he
    rw [← hid] at htally hexec
    rw [Enactment.Logged, hb, hp]
    refine ⟨rfl, ⟨hin _ hact _ hexec, hmsgs⟩, .tallied ?_ ?_⟩
    · rw [hb, hactive, ha]
    · rw [hb, hp]
      exact hin _ hact _ htally

/-- What the schedule runs waited before the block, with the record that is run: nothing was done
to the proposal since. -/
theorem EndBlockSteps.matured_enacted (hk : k.Lawful) (hg : Governed k view effect)
    {s₀ s₁ s₂ : St Any Rest} {L₁ L₂ : List (Pair × Act)} {L₃ : List (ScheduledProposal × Act)}
    (h : EndBlockSteps k b.ctx minimumDelay s₀ L₁ L₂ L₃ s₁ s₂ s')
    (hactive : b.active = s₀.timelock.isActive b.ctx.height)
    (hin : ∀ act ∈ acts L₃, ∀ o ∈ Act.log act, o ∈ b.log)
    (hturns : ∀ id, ∃ P P', Turn b P (actsOf id (acts L₁ ++ acts L₂ ++ acts L₃)) P')
    (hrecord : ∀ {id t}, s₀.timelock.Entry id t → s.timelock.Entry id t ∧
      ∃ q, s.world.stored id = some q ∧ s₀.world.stored id = some q ∧ q.status.Decided) :
    ∃ es : List (Enactment Any Msg),
      Steps effect (view s₂.world.rest) (es.flatMap Enactment.msgs) (view s'.world.rest) ∧
      ∀ e ∈ es, e.block = b ∧ e.Logged k ∧ e.Known s := by
  apply h.matured.gather (f := fun u : St Any Rest => view u.world.rest)
  intro M₁ l M₂ u v hL hpre hstep
  have hmem : l ∈ L₃ := by simp [hL]
  rcases hstep.enacts hg with heq | ⟨hexec, p, hid, hp, henacts⟩
  · rw [heq]
    exact ⟨[], .nil _, fun e he => absurd he List.not_mem_nil⟩
  · obtain ⟨es, hes, hall⟩ := henacts.enactments b
    refine ⟨es, hes, fun e he => ?_⟩
    obtain ⟨hb, hpe, hmsgs⟩ := hall e he
    obtain ⟨ha, hentry, hle, _⟩ := h.matured_turn hmem
    obtain ⟨hentry, q, hq, hq₀, hdecided⟩ := hrecord (h.entry_due hentry hle)
    obtain ⟨P, P', hturn⟩ := hturns l.1.proposalID
    rw [hL, show acts (M₁ ++ l :: M₂) = acts M₁ ++ l.2 :: acts M₂ by simp [acts]] at hturn
    obtain ⟨h₁, h₂, h₃⟩ := hturn.alone hstep.id_eq
    have hqu := h.keepsDecided hk hpre h₁ h₂ h₃ q hq₀ hdecided
    rw [hp] at hqu
    cases hqu
    rw [← hid] at hexec hq
    rw [Enactment.Logged, hb, hpe]
    refine ⟨rfl, ⟨hin _ (List.mem_map.mpr ⟨l, hmem, rfl⟩) _ hexec, hmsgs⟩,
      .waiting (t := l.1.executionTime) ?_ ?_ ?_ ?_⟩
    · rw [hb, hactive, ha]
    · rw [hpe, hid]
      exact hentry
    · rw [hb]
      exact hle
    · rw [hpe]
      exact hq

/-- **What a block makes of a store.** The store after a block is what the messages of the
proposals that it executed make of it, and each of them was known before. -/
theorem BlockStep.enacted (hk : k.Lawful) (hmm : mm.Lawful) (hg : Governed k view effect)
    (hE : ∀ ctx w w', E ctx w w' → Ruled ctx w w' ∧ view w'.rest = view w.rest) (hsim : Sim s φ)
    (h : BlockStep k mm E s b s') :
    ∃ es : List (Enactment Any Msg),
      Steps effect (view s.world.rest) (es.flatMap Enactment.msgs) (view s'.world.rest) ∧
      ∀ e ∈ es, e.block = b ∧ e.Logged k ∧ e.Known s := by
  obtain ⟨s₀, hbefore, hend, hlog, hactive, hdelay⟩ := h
  have hruled : BeforeEndBlock mm Ruled b.ctx s s₀ :=
    hbefore.mono fun ctx w w' hw => (hE ctx w w' hw).1
  have hsim₀ := hsim.before hmm hruled
  obtain ⟨hsched, _, hw, hempty, _⟩ := hbefore.schedule_eq hmm
  obtain ⟨L₁, L₂, L₃, s₁, s₂, hS⟩ := endBlocker_steps hend
  obtain ⟨x₁, x₂, y, rfl, rfl, rfl, hcall⟩ := endBlocker_call b (x := ⟨φ, s₀, hsim₀⟩) hk hS hactive
    hdelay (hdelay ▸ Timelock.getExecutionDelay_pos Timelock.minimumDelay_pos)
  have hin : ∀ act ∈ acts L₁ ++ acts L₂ ++ acts L₃, ∀ o ∈ Act.log act, o ∈ b.log := by
    intro act hact o ho
    rw [hlog, hS.log_eq, hempty, List.nil_append]
    exact List.mem_flatMap.mpr ⟨act, hact, ho⟩
  have hrecord : ∀ {id t}, s₀.timelock.Entry id t → s.timelock.Entry id t ∧
      ∃ q, s.world.stored id = some q ∧ s₀.world.stored id = some q ∧ q.status.Decided := by
    intro id t he
    have he' : s.timelock.Entry id t := by
      unfold Timelock.Entry at he ⊢
      rwa [hsched] at he
    have hP := hsim.holds id
    rw [hsim.waiting_of_entry he'] at hP
    obtain ⟨_, _, _, q, hq, hst⟩ := hP
    exact ⟨he', q, hq, (hE _ _ _ hw).1.2.decided trivial hq (.inl hst), .inl hst⟩
  have hfirst : view x₁.state.world.rest = view s.world.rest :=
    (hS.inactive.relation (fun u v : St Any Rest => view v.world.rest = view u.world.rest)
      (fun _ => rfl) (fun _ _ _ h₁ h₂ => Eq.trans h₂ h₁) fun _ _ _ hl => hl.view_eq hg).trans
      (hE _ _ _ hw).2
  obtain ⟨es₁, hes₁, hall₁⟩ := hS.tallies_enacted (s := s) hg hactive fun act hact =>
    hin act (List.mem_append_left _ (List.mem_append_right _ hact))
  obtain ⟨es₂, hes₂, hall₂⟩ := hS.matured_enacted (s := s) hk hg hactive
    (fun act hact => hin act (List.mem_append_right _ hact)) (fun id => ⟨_, _, hcall.turn id⟩)
    hrecord
  refine ⟨es₁ ++ es₂, ?_, fun e he => (List.mem_append.mp he).elim (hall₁ e) (hall₂ e)⟩
  rw [List.flatMap_append, ← hfirst]
  exact hes₁.append hes₂

end Blocks

/-! ## A run -/

/-- How a run was told of a proposal that it executes: its tally passed in that very block, while
the timelock was inactive; or it was scheduled when the run started; or its tally passed in an
earlier block, at least one delay before, and left the record that was executed. -/
inductive Enactment.Announced (k : GovKeeper Any Msg Rest) (mm : Manager Any Rest)
    (E : Ctx → World Any Rest → World Any Rest → Prop) (s : St Any Rest) (Bs : List Block)
    (e : Enactment Any Msg) : Prop
  | atOnce : e.block.active = false → .tallied e.proposal.id true ∈ e.block.log →
      Announced k mm E s Bs e
  | inherited {t : Time} : e.block.active = true → s.timelock.Entry e.proposal.id t →
      t ≤ e.block.ctx.time → s.world.stored e.proposal.id = some e.proposal →
      Announced k mm E s Bs e
  | deferred {pre mid post : List Block} {b : Block} {u : St Any Rest} : e.block.active = true →
      Bs = pre ++ b :: (mid ++ e.block :: post) → b.active = true →
      .tallied e.proposal.id true ∈ b.log →
      b.ctx.time + s.timelock.getExecutionDelay minimumDelay ≤ e.block.ctx.time →
      Run k mm E s (pre ++ [b]) u → u.world.stored e.proposal.id = some e.proposal →
      Announced k mm E s Bs e

section Runs
variable {view : Rest → V} {effect : V → Msg → V → Prop} {φ : Nat → Phase} {u : St Any Rest}
  {pre post : List Block}

theorem BlockStep.mono {E' : Ctx → World Any Rest → World Any Rest → Prop} {b : Block}
    (hE : ∀ ctx w w', E ctx w w' → E' ctx w w') (h : BlockStep k mm E s b s') :
    BlockStep k mm E' s b s' := by
  obtain ⟨s₀, hbefore, hrest⟩ := h
  exact ⟨s₀, hbefore.mono hE, hrest⟩

/-- The entry and the record of a proposal that waits at the end of a run were there at its start,
or come from a passing tally one delay before the entry's time. -/
theorem Run.record_origin (hk : k.Lawful) (hmm : mm.Lawful)
    (hE : ∀ ctx w w', E ctx w w' → Ruled ctx w w') (hsim : Sim s φ) (h : Run k mm E s Bs s')
    {id : Nat} {t : Time} (he : s'.timelock.Entry id t) :
    (s.timelock.Entry id t ∧ s.world.stored id = s'.world.stored id) ∨
      ∃ pre b mid u, Bs = pre ++ b :: mid ∧ b.active = true ∧ .tallied id true ∈ b.log ∧
        t = b.ctx.time + s.timelock.getExecutionDelay minimumDelay ∧
        Run k mm E s (pre ++ [b]) u ∧ u.world.stored id = s'.world.stored id := by
  induction Bs generalizing s φ with
  | nil =>
    have hs := Steps.nil_iff.mp h.steps
    rw [hs] at he ⊢
    exact .inl ⟨he, rfl⟩
  | cons b Bs ih =>
    obtain ⟨u, hb, hrest, hord⟩ := Run.cons_iff.mp h
    have hb' : BlockStep k mm Ruled s b u := hb.mono hE
    obtain ⟨ψ, _, hsimu⟩ := hb'.told hk hmm hsim
    obtain ⟨hdelay, hkeep⟩ := hb.delay_eq hmm
    rcases ih hsimu hrest with ⟨hu, hp⟩ | ⟨pre, c, mid, v, rfl, ha, hmem, ht, hrun, hp⟩
    · rcases hb.entry hmm hu with hs | ⟨ha, hmem, ht⟩
      · exact .inl ⟨hs, (hb'.record_kept hk hmm hsim hs hu).symm.trans hp⟩
      · exact .inr ⟨[], b, Bs, u, rfl, ha, hmem, by rw [ht, hdelay],
          ⟨.cons hb (.nil u), List.pairwise_singleton _ _⟩, hp⟩
    · refine .inr ⟨b :: pre, c, mid, v, rfl, ha, hmem, by rw [ht, hkeep], ?_, hp⟩
      have hsub : (pre ++ [c]).Sublist (pre ++ c :: mid) :=
        (List.singleton_sublist.mpr List.mem_cons_self).append_left pre
      exact ⟨.cons hb hrun.steps, h.ordered.sublist (hsub.cons_cons b)⟩

/-- **What a run makes of a store.** The store at the end of a run is what the messages of the
proposals that were executed make of it, one after the other, and every one of these proposals was
announced. -/
theorem Run.enacted (hk : k.Lawful) (hmm : mm.Lawful) (hg : Governed k view effect)
    (hE : ∀ ctx w w', E ctx w w' → Ruled ctx w w' ∧ view w'.rest = view w.rest) (hsim : Sim s φ)
    (h : Run k mm E s Bs s') :
    ∃ es : List (Enactment Any Msg),
      Steps effect (view s.world.rest) (es.flatMap Enactment.msgs) (view s'.world.rest) ∧
      ∀ e ∈ es, e.block ∈ Bs ∧ e.Logged k ∧ e.Announced k mm E s Bs := by
  have hruled : ∀ ctx w w', E ctx w w' → Ruled ctx w w' := fun ctx w w' hw => (hE ctx w w' hw).1
  apply h.steps.gather (f := fun u : St Any Rest => view u.world.rest)
  intro pre b post u v hBs hpre hb
  have hrun : Run k mm E s pre u := ⟨hpre, by
    have hord := h.ordered
    rw [hBs] at hord
    exact (List.pairwise_append.mp hord).1⟩
  obtain ⟨ψ, hsimu, _⟩ := (hrun.mono hruled).histories hk hmm hsim
  obtain ⟨es, hes, hall⟩ := hb.enacted hk hmm hg hE hsimu
  refine ⟨es, hes, fun e he => ?_⟩
  obtain ⟨heb, hlogged, hknown⟩ := hall e he
  refine ⟨by rw [heb, hBs]; simp, hlogged, ?_⟩
  cases hknown with
  | tallied ha hmem => exact .atOnce ha hmem
  | waiting ha hentry hle hp =>
    rcases hrun.record_origin hk hmm hruled hsim hentry with
      ⟨hs, hps⟩ | ⟨pre', c, mid, w, hpre', hac, hmem, ht, hrunc, hpw⟩
    · exact .inherited ha hs hle (hps.trans hp)
    · have hcut : Bs = pre' ++ c :: (mid ++ e.block :: post) := by
        rw [hBs, hpre', heb]
        simp
      exact .deferred ha hcut hac hmem (ht ▸ hle) hrunc (hpw.trans hp)

end Runs

/-! ## A governed store -/

/-- A write to other modules' stores keeps x/gov's rules. -/
theorem conforms_rest (now : Time) (w : World Any Rest) (r : Rest) :
    w.Conforms now { w with rest := r } := by
  have hsame : w.SameGov { w with rest := r } := rfl
  have hagree : ∀ id, w.AgreeOff id { w with rest := r } := hsame.agreeOff
  have hslot : ∀ {q id t}, World.Slot { w with rest := r } q id t ↔ w.Slot q id t :=
    fun {q} => by cases q <;> rfl
  refine ⟨fun hwf => ⟨fun id => (hwf.proposal id).of_agreeOff (hagree (id + 1)) (by simp),
    hwf.fits⟩, ?_⟩
  exact {
    proposalID := le_refl _
    active_new := fun _ h => .inl (hslot.mp h)
    active_kept := fun _ h => .inl (hslot.mpr h)
    inactive_new := fun _ h => .inl (hslot.mp h)
    created := fun _ h => .inl ⟨_, h⟩
    decided := fun _ h _ => h
    expedited := fun _ h he => .inl ⟨_, h, he⟩
    undecodable := fun _ _ => ⟨rfl, fun h => hslot.mp h⟩ }

/-- The handler of a module that keeps its store in `Rest`, with messages that succeed or fail. -/
def storeHandler (handle : Msg → Rest → Except String Rest) : Handler Any Msg Rest :=
  fun _ msg w =>
    match handle msg w.rest with
    | .ok r => .ok (some []) { w with rest := r }
    | .error err => .error (.err err) w

/-- An x/gov whose messages are those of one module. -/
def storeKeeper (handle : Any → Rest → Except String Rest) : GovKeeper Any Any Rest :=
  plainKeeper (fun _ => true) (fun _ => some (storeHandler handle)) fun _ => ""

section Store
variable {handle : Any → Rest → Except String Rest}

theorem storeHandler_ok {msg : Any} {w w' : World Any Rest} {r : Option (List SdkEvent)}
    (h : storeHandler handle ctx msg w = .ok r w') :
    ∃ x, handle msg w.rest = .ok x ∧ w' = { w with rest := x } := by
  unfold storeHandler at h
  cases hx : handle msg w.rest with
  | ok x =>
    simp only [hx] at h
    cases h
    exact ⟨x, rfl, rfl⟩
  | error err => simp [hx] at h

theorem storeKeeper_lawful : (storeKeeper handle).Lawful := plainKeeper_lawful fun hh h => by
  cases hh
  obtain ⟨x, _, rfl⟩ := storeHandler_ok h
  exact conforms_rest _ _ x

theorem storeKeeper_governed {effect : Rest → Any → Rest → Prop}
    (heffect : ∀ {msg r r'}, handle msg r = .ok r' → effect r msg r') :
    Governed (storeKeeper handle) id effect where
  handler := by
    intro ctx msg h w r w' hh hok
    cases hh
    obtain ⟨x, hx, rfl⟩ := storeHandler_ok hok
    exact heffect hx
  tally := by rintro ctx p w r w' ⟨⟩; rfl
  refundAndDeleteDeposits := by rintro ctx i w w' ⟨⟩; rfl
  deleteAndBurnDeposits := by rintro ctx i w w' ⟨⟩; rfl
  setProposal := by rintro ctx p w w' ⟨⟩; rfl
  deleteProposal := by
    intro ctx i w w' h
    simp only [storeKeeper, plainKeeper] at h
    cases hg : w.getProposal i with
    | found p =>
      rw [hg] at h
      cases h
      rfl
    | errEncoding p err => simp [hg] at h
    | errNotFound => simp [hg] at h
  afterProposalVotingPeriodEnded := by rintro ctx i w w' ⟨⟩; rfl
  afterProposalFailedMinDeposit := by rintro ctx i w w' ⟨⟩; rfl

/-- Proposal 7 is about the module. Its voting period ends at time 10, on a chain that is active
from height 1. -/
def proposedState (msg : Any) (r : Rest) : St Any Rest :=
  ⟨votingWorldOf [msg] r [(7, 10)], ⟨KeySet.empty, some 1, none⟩, []⟩

def proposedTallied (msg : Any) (r : Rest) : St Any Rest where
  world := ((proposedState msg r).world.removeActive ⟨10, 7⟩).setRecord
    (passedProposalOf [msg] 7 10)
  timelock := ⟨KeySet.empty.set ⟨10 + minimumDelay, 7⟩, some 1, none⟩
  log := tallyBlock.log

def proposedExecuted (msg : Any) (r : Rest) : St Any Rest where
  world := (proposedTallied msg r).world.setRecord (passedProposalOf [msg] 7 10)
  timelock := (proposedTallied msg r).timelock.remove (10 + minimumDelay) 7
  log := executionBlock.log

theorem storeKeeper_answers : Answers (storeKeeper handle) := by
  intro ctx msg h w w' hh hok
  cases hh
  unfold storeHandler at hok
  cases hx : handle msg w.rest with
  | ok x => simp [hx] at hok
  | error err => simp [hx] at hok

theorem storeKeeper_inOrder (ctx : Ctx) {msg : Any} {w : World Any Rest} {r : Rest}
    (h : handle msg w.rest = .ok r) :
    runInOrder (storeKeeper handle) ctx [msg] w = some ([], { w with rest := r }) := by
  simp [runInOrder, storeKeeper, plainKeeper, storeHandler, h]

theorem proposed_executes {msg : Any} {r r' : Rest} (h : handle msg r = .ok r') :
    executeMaturedProposal (storeKeeper handle) executionBlock.ctx ⟨7, 10 + minimumDelay⟩
      { proposedTallied msg r with log := [] } = .ok () (proposedExecuted msg r') := by
  have hfound : (proposedTallied msg r).world.getProposal 7 = .found (passedProposalOf [msg] 7 10) :=
    getProposal_setRecord _ (passedProposalOf [msg] 7 10)
  have hrun := executeProposal_passes (p := passedProposalOf [msg] 7 10) (k := storeKeeper handle)
    (s := { proposedTallied msg r with log := [] }) storeKeeper_answers rfl
    (storeKeeper_inOrder executionBlock.ctx h)
  simp only [executeMaturedProposal, Effect.bind_ok, getWorld_ok]
  refine ⟨_, _, ⟨rfl, rfl⟩, ?_⟩
  simp only [hfound]
  rw [if_neg (by simp [passedProposalOf])]
  exact Effect.bind_ok.mpr ⟨_, _, hrun, rfl⟩

/-- Its message waits for the delay, and writes the store in the block that executes it. -/
theorem proposed_run {E : Ctx → World Any Rest → World Any Rest → Prop} {msg : Any} {r r' : Rest}
    (hE : ∀ ctx w, E ctx w w) (h : handle msg r = .ok r') :
    Run (storeKeeper handle) govtimelockManager E (proposedState msg r)
      [tallyBlock, executionBlock] (proposedExecuted msg r') := by
  have htally : endBlock (storeKeeper handle) tallyBlock.ctx (proposedState msg r) =
      .ok () (proposedTallied msg r) := rfl
  have hexecution : endBlock (storeKeeper handle) executionBlock.ctx
      { proposedTallied msg r with log := [] } = .ok () (proposedExecuted msg r') :=
    endBlock_of_turns [] [⟨7, 10 + minimumDelay⟩] none rfl rfl (.nil _) rfl
      (.cons (proposed_executes h) (.nil _)) rfl
  exact ⟨.cons (.of_endBlock (hE _ _) htally rfl rfl rfl)
    (.cons (.of_endBlock (hE _ _) hexecution rfl rfl rfl) (.nil _)),
    by simp [tallyBlock, executionBlock, blockAt]⟩

/-- A block of a chain without proposals, in which transactions write the store. -/
def quietBlock : Block where
  ctx := tallyBlock.ctx
  active := false
  delay := minimumDelay
  log := []

theorem quietBlock_run {E : Ctx → World Any Rest → World Any Rest → Prop} {r r' : Rest}
    (mm : Manager Any Rest) (hE : E quietBlock.ctx (World.empty r) (World.empty r')) :
    Run (storeKeeper handle) mm E ⟨World.empty r, Timelock.fresh, []⟩ [quietBlock]
      ⟨World.empty r', Timelock.fresh, []⟩ :=
  ⟨.cons ⟨_, .transactions hE, rfl, rfl, rfl, rfl⟩ (.nil _), List.pairwise_singleton _ _⟩

theorem empty_wf (r : Rest) : (World.empty r : World Any Rest).WF := by
  have hno : ∀ {q id t}, ¬ (World.empty r : World Any Rest).Slot q id t := by
    intro q id t
    cases q with
    | active => exact KeySet.not_mem_empty _
    | inactive => exact KeySet.not_mem_empty _
  refine ⟨fun id => ⟨fun h => absurd h hno, fun h => absurd h hno, nofun, fun h => absurd h hno,
    fun h => absurd h hno, fun h => absurd h hno⟩, Nat.le_of_ble_eq_true rfl⟩

end Store
end Ark.GovTimelock
