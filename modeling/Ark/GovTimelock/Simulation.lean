import Ark.Gov.Rules
import Ark.GovTimelock.Lifecycle

/- The end blocker moves every proposal as its life allows.

   `Holds s P id` ties a phase to the two stores: a waiting proposal has exactly one
   entry, at its execution time, is stored as passed and is in no queue; a closed one
   has no entry and is in no queue; an unresolved one has no entry. `Sim` says that
   x/gov's bookkeeping is in order and that every proposal holds its phase.

   A turn of each of the three loops is one move of its proposal and keeps the phase
   of every other (`inactive_turn`, `tally_turn`, `matured_turn`). A loop keeps, of the
   turns still to come, that their proposals are where the loop found them, which the
   turns before it and the handlers and hooks they run cannot change; so a loop is a
   run of moves, and a call of the end blocker is one turn of every proposal
   (`endBlocker_call`). -/
namespace Ark.GovTimelock
open Ark.Lib Ark.Gov World

variable {Any Msg Rest : Type} {k : GovKeeper Any Msg Rest} {ctx : Ctx}
  {run : Nat → Msg → World Any Rest → Except String (Option (List SdkEvent) × World Any Rest)}

/-- `id` has an entry with execution time `t`. -/
def Timelock.Entry (tl : Timelock) (id : Nat) (t : Time) : Prop := ⟨t, id⟩ ∈ tl.scheduledProposals

/-- What a phase says of the two stores. -/
def Holds (s : St Any Rest) (id : Nat) : Phase → Prop
  | .unresolved converted => (∀ t, ¬ s.timelock.Entry id t) ∧
      (converted = true → id < s.world.proposalID ∧
        ∀ p, s.world.stored id = some p → p.expedited = false)
  | .waiting e => (∀ t, s.timelock.Entry id t ↔ t = e) ∧ s.world.NoSlot id ∧
      id < s.world.proposalID ∧ ∃ p, s.world.stored id = some p ∧ p.status = .passed
  | .closed => (∀ t, ¬ s.timelock.Entry id t) ∧ s.world.NoSlot id ∧ id < s.world.proposalID

/-- The stores are in order and every proposal holds its phase. -/
structure Sim (s : St Any Rest) (φ : Nat → Phase) : Prop where
  wf : s.world.WF
  holds : ∀ id, Holds s id (φ id)

/-- One step that is about the proposal `id`: another one evolves and keeps its entries. -/
structure TurnOn (now : Time) (id : Nat) (s s' : St Any Rest) : Prop where
  world : s.world.EvolvesInBlock now (· ≠ id) s'.world
  entries : ∀ {i t}, i ≠ id → (s'.timelock.Entry i t ↔ s.timelock.Entry i t)

/-- A phase is kept by what x/gov lets happen. -/
theorem Holds.evolve {s s' : St Any Rest} {S : Nat → Prop} {now : Time} {id : Nat} {P : Phase}
    (h : Holds s id P) (hw : s.world.Evolves now S s'.world) (hi : S id)
    (ht : ∀ t, s'.timelock.Entry id t ↔ s.timelock.Entry id t) : Holds s' id P := by
  cases P with
  | unresolved converted =>
    refine ⟨fun t => mt (ht t).mp (h.1 t), fun hc => ?_⟩
    obtain ⟨hlt, hreg⟩ := h.2 hc
    refine ⟨hlt.trans_le hw.proposalID, fun p' hp' => ?_⟩
    by_contra he
    rcases hw.expedited hi hp' (by simpa using he) with ⟨p, hp, he⟩ | hnew
    · rw [hreg p hp] at he
      cases he
    · exact absurd hlt (not_lt.mpr hnew)
  | waiting e =>
    obtain ⟨hent, hno, hlt, p, hp, hst⟩ := h
    exact ⟨fun t => (ht t).trans (hent t), hw.noSlot hi hlt hno, hlt.trans_le hw.proposalID, p,
      hw.decided hi hp (.inl hst), hst⟩
  | closed =>
    obtain ⟨hent, hno, hlt⟩ := h
    exact ⟨fun t => mt (ht t).mp (hent t), hw.noSlot hi hlt hno, hlt.trans_le hw.proposalID⟩

/-! ## The parts of a turn -/

section Parts
variable {w w' : World Any Rest} {id : Nat} {prop : Pair} {p p' : Proposal Any}

theorem Settles.sameGov (hk : k.Lawful) {burn : Bool} (h : Settles k ctx id burn w w') :
    w.SameGov w' := by
  unfold Settles at h
  cases burn with
  | true => exact hk.deleteAndBurnDeposits h
  | false => exact hk.refundAndDeleteDeposits h

theorem Hooks.conforms {hook : GovM Any Rest Unit} (h : Hooks hook w w')
    (hh : ∀ {w w'}, hook w = .ok () w' → w.Conforms ctx.time w') : w.Conforms ctx.time w' := by
  rcases h with h | ⟨_, _, _, rfl⟩
  · exact hh h
  · exact .refl _ _

/-- How a way of running one message must treat x/gov. -/
def RunConforms (ctx : Ctx)
    (run : Nat → Msg → World Any Rest → Except String (Option (List SdkEvent) × World Any Rest)) :
    Prop := ∀ {idx msg w r w'}, run idx msg w = .ok (r, w') → w.Conforms ctx.time w'

theorem runMessage_conforms (hk : k.Lawful) : RunConforms ctx (runMessage k ctx) := by
  intro idx msg w r w' h
  obtain ⟨handler, hh, hr⟩ := runMessage_ok h
  exact hk.handler hh hr

theorem runMessages_conforms (hrun : RunConforms ctx run) {msgs : List Msg} :
    ∀ {idx n : Nat} {events events' : List SdkEvent} {w w' : World Any Rest},
      runMessages k run idx msgs events w = ⟨n, .ok (w', events')⟩ → w.Conforms ctx.time w' := by
  induction msgs with
  | nil =>
    intro idx n events events' w w' h
    simp only [runMessages, Execution.mk.injEq, Except.ok.injEq, Prod.mk.injEq] at h
    obtain ⟨_, rfl, _⟩ := h
    exact .refl _ _
  | cons msg msgs ih =>
    intro idx n events events' w w' h
    rw [runMessages] at h
    rcases hr : run idx msg w with err | ⟨_ | evs, w₁⟩
    · simp [hr] at h
    · simp [hr] at h
    · simp only [hr] at h
      exact (hrun hr).trans (ih h)

theorem Executed.conforms (hrun : RunConforms ctx run) {r : Ran}
    (h : Executed k run p w p' w' r) : w.Conforms ctx.time w' := by
  cases h
  case succeeded hx => exact runMessages_conforms hrun hx
  all_goals exact .refl _ _

/-- After the tally, the settlement and the removal of the slot, only the proposal's slot is gone. -/
theorem Tallied.world (hk : k.Lawful) {passes burned : Bool} {res : TallyResult}
    (h : Tallied k ctx prop w p passes burned res w') :
    w.getProposal prop.k2 = .found p ∧ w.AgreeOff prop.k2 w' ∧
      w'.getProposal prop.k2 = w.getProposal prop.k2 ∧
      (∀ {q t}, w'.Slot q prop.k2 t ↔ w.Slot q prop.k2 t ∧ ¬ (q = .active ∧ t = prop.k1)) ∧
      w'.params = w.params := by
  have hremove : ∀ {w₁ : World Any Rest}, w.SameGov w₁ →
      w.AgreeOff prop.k2 (w₁.removeActive prop) ∧
      (w₁.removeActive prop).getProposal prop.k2 = w.getProposal prop.k2 ∧
      (∀ {q t}, (w₁.removeActive prop).Slot q prop.k2 t ↔
        w.Slot q prop.k2 t ∧ ¬ (q = .active ∧ t = prop.k1)) ∧
      (w₁.removeActive prop).params = w.params := by
    intro w₁ hs
    refine ⟨(hs.agreeOff _).trans (removeActive_agreeOff _ _), hs.getProposal_eq _, ?_, by rw [hs]; rfl⟩
    intro q t
    rw [removeActive_slot, hs.slot]
    obtain ⟨k1, k2⟩ := prop
    simp [eq_comm]
  cases h with
  | settled hg ht _ hs =>
    refine ⟨hg, hremove ?_⟩
    have h₁ := hk.tally ht
    have h₂ := hs.sameGov hk
    rw [h₁] at h₂
    exact h₂
  | kept hg ht _ => exact ⟨hg, hremove (hk.tally ht)⟩

theorem setProposal_agreeOff (hk : k.Lawful) (h : k.setProposal ctx p w = .ok () w') :
    w.AgreeOff p.id w' ∧ w'.getProposal p.id = .found p ∧
      ∀ {q i t}, w'.Slot q i t ↔ w.Slot q i t := by
  have hs := hk.setProposal h
  exact ⟨(setRecord_agreeOff w p).trans (hs.agreeOff _),
    (hs.getProposal_eq _).trans (getProposal_setRecord w p), hs.slot.trans setRecord_slot⟩

end Parts

/-! ## One turn -/

section Turn
variable {s s' : St Any Rest} {act : Act} {prop : Pair} {c : Bool} (b : Block)

/-- A turn of the inactive queue closes its proposal. -/
theorem inactive_turn (hk : k.Lawful) (h : InactiveStep k ctx prop s act s') (hwf : s.world.WF)
    (hP : Holds s prop.k2 (.unresolved c)) (hlt : prop.k2 < s.world.proposalID)
    (hund : ∀ p err, s.world.getProposal prop.k2 = .errEncoding p err →
      ∀ q t, s.world.Slot q prop.k2 t → q = .inactive ∧ t = prop.k1) :
    Move b (.unresolved c) act .closed ∧ TurnOn ctx.time prop.k2 s s' ∧ s'.world.WF ∧
      Holds s' prop.k2 .closed := by
  have hentries := h.timelock_eq
  -- it is enough that one world on the way has lost the slot
  have hclose : ∀ {w : World Any Rest}, s.world.AgreeOff prop.k2 w → w.NoSlot prop.k2 →
      w.Conforms ctx.time s'.world → TurnOn ctx.time prop.k2 s s' ∧ s'.world.WF ∧
        Holds s' prop.k2 .closed := by
    intro w ha hno hc
    obtain ⟨hev, hwf', hno', hlt'⟩ := ha.conforms hwf hlt hno hc
    refine ⟨⟨hev, fun _ => by rw [hentries]⟩, hwf', fun t => ?_, hno', hlt'⟩
    rw [hentries]
    exact hP.1 t
  cases h with
  | @undecodable p err w₁ w₂ w₃ hg hset hsettle hdel =>
    refine ⟨.undecodable, hclose (w := w₃) ?_ ?_ (.refl _ _)⟩
    all_goals
      obtain ⟨ha₁, _, hs₁⟩ := setProposal_agreeOff hk hset
      have hs₂ := hsettle.sameGov hk
      obtain ⟨p', hg', hs₃⟩ := hk.deleteProposal hdel
    · exact ((ha₁.trans (hs₂.agreeOff _)).trans (removeInactive_agreeOff _ _)).trans
        ((deleteRecord_agreeOff _ _ _).trans (hs₃.agreeOff _))
    · intro q t ht
      rw [hs₃.slot, deleteRecord_slot, removeInactive_slot, hs₂.slot, hs₁] at ht
      obtain ⟨rfl, rfl⟩ := hund p err hg q t ht.1.1
      exact ht.1.2 ⟨rfl, rfl⟩
  | @expired p params w₁ w₂ w₃ hg hdel _ hsettle hhook =>
    obtain ⟨p', hg', hs₁⟩ := hk.deleteProposal hdel
    have hs₂ := hsettle.sameGov hk
    refine ⟨.expired, hclose (w := w₂) ?_ ?_ (hhook.conforms hk.afterProposalFailedMinDeposit)⟩
    · exact (deleteRecord_agreeOff _ _ _).trans ((hs₁.agreeOff _).trans (hs₂.agreeOff _))
    · intro q t ht
      rw [hs₂.slot, hs₁.slot] at ht
      exact deleteRecord_noSlot (hwf.proposal _) hg' q t ht

/-- A turn of the schedule closes its proposal. -/
theorem matured_turn (hk : k.Lawful) {sp : ScheduledProposal} (h : MaturedStep k ctx sp s act s')
    (hwf : s.world.WF) (hP : Holds s sp.proposalID (.waiting sp.executionTime))
    (hactive : b.active = true) (hdue : sp.executionTime ≤ b.ctx.time) :
    Move b (.waiting sp.executionTime) act .closed ∧ TurnOn ctx.time sp.proposalID s s' ∧
      s'.world.WF ∧ Holds s' sp.proposalID .closed := by
  have hentries : ∀ i t, s'.timelock.Entry i t ↔
      s.timelock.Entry i t ∧ (⟨t, i⟩ : Pair) ≠ ⟨sp.executionTime, sp.proposalID⟩ := by
    intro i t
    rw [h.timelock_eq]
    exact KeySet.mem_remove
  have hmove : Move b (.waiting sp.executionTime) act .closed := by
    rcases h.act_eq with ⟨r, rfl⟩ | ⟨reason, rfl⟩
    · exact .executed hactive hdue
    · exact .dropped hactive hdue
  obtain ⟨hent, hno, hlt, _⟩ := hP
  have hclose : s.world.EvolvesInBlock ctx.time (· ≠ sp.proposalID) s'.world ∧ s'.world.WF ∧
      s'.world.NoSlot sp.proposalID ∧ sp.proposalID < s'.world.proposalID →
      Move b (.waiting sp.executionTime) act .closed ∧ TurnOn ctx.time sp.proposalID s s' ∧
        s'.world.WF ∧ Holds s' sp.proposalID .closed := by
    intro ⟨hev, hwf', hno', hlt'⟩
    refine ⟨hmove, ⟨hev, fun {i t} hi => ?_⟩, hwf', fun t => ?_, hno', hlt'⟩
    · rw [hentries, and_iff_left]
      exact fun he => hi (congrArg Pair.k2 he)
    · rw [hentries, hent]
      rintro ⟨rfl, hne⟩
      exact hne rfl
  -- the entry is gone in each case, what is left is what the hook and the messages did
  have hoff : ∀ {w₁ : World Any Rest}, w₁.AgreeOff sp.proposalID w₁ := .refl _ _
  refine hclose ?_
  cases h with
  | @executed p p' r w₁ w₂ w₃ hg _ hx hset hhook =>
    obtain ⟨hev₁, hwf₁, hno₁, hlt₁⟩ :=
      hoff.conforms hwf hlt hno (hx.conforms (runMessage_conforms hk))
    obtain ⟨ha, _, hslot⟩ := setProposal_agreeOff hk hset
    have hid : p'.id = sp.proposalID := hx.id_eq.trans (World.id_of_found hg)
    rw [hid] at ha
    obtain ⟨hev₂, hrest⟩ := ha.conforms hwf₁ hlt₁ (fun q t ht => hno₁ q t (hslot.mp ht))
      (hhook.conforms hk.afterProposalVotingPeriodEnded)
    exact ⟨hev₁.trans hev₂, hrest⟩
  | corrupt hg hset hhook =>
    obtain ⟨ha, _, hslot⟩ := setProposal_agreeOff hk hset
    exact ha.conforms hwf hlt (fun q t ht => hno q t (hslot.mp ht))
      (hhook.conforms hk.afterProposalVotingPeriodEnded)
  | missing _ hhook =>
    exact hoff.conforms hwf hlt hno (hhook.conforms hk.afterProposalVotingPeriodEnded)
  | wrongStatus _ _ hhook =>
    exact hoff.conforms hwf hlt hno (hhook.conforms hk.afterProposalVotingPeriodEnded)

/-- `id` is back in the active queue, with end time `t`, and in no other slot; or its record has
been deleted since. -/
structure Requeued (w : World Any Rest) (id : Nat) (t : Time) : Prop where
  only : ∀ {q t'}, w.Slot q id t' → q = .active ∧ t' = t
  slot : w.Slot .active id t ∨ w.stored id = none

/-- A turn of the active queue is one move of an unresolved proposal. -/
theorem tally_turn (hk : k.Lawful) (hrun : RunConforms ctx run) {fallbackDelay : Duration}
    (h : TallyStep k run ctx fallbackDelay b.active prop s act s') (hb : b.ctx = ctx)
    (hdelay : b.delay = s.timelock.getExecutionDelay fallbackDelay) (hwf : s.world.WF)
    (hP : Holds s prop.k2 (.unresolved c)) (hlt : prop.k2 < s.world.proposalID)
    (honly : ∀ q t, s.world.Slot q prop.k2 t → q = .active ∧ t = prop.k1)
    (hin : s.world.Slot .active prop.k2 prop.k1 ∨ s.world.stored prop.k2 = none) :
    ∃ P', Move b (.unresolved c) act P' ∧ TurnOn ctx.time prop.k2 s s' ∧ s'.world.WF ∧
      Holds s' prop.k2 P' ∧ ∀ {start period}, act = .converted prop.k2 start period →
        Requeued s'.world prop.k2 (start + period) := by
  -- what every close comes to: the entries stay, and the proposal ends in no queue
  have hclose : ∀ {w' : World Any Rest} {log : List Obs},
      (s.world.EvolvesInBlock ctx.time (· ≠ prop.k2) w' ∧ w'.WF ∧ w'.NoSlot prop.k2 ∧
        prop.k2 < w'.proposalID) →
      TurnOn ctx.time prop.k2 s { s with world := w', log := log } ∧ w'.WF ∧
        Holds { s with world := w', log := log } prop.k2 .closed :=
    fun ⟨hev, hwf', hno', hlt'⟩ => ⟨⟨hev, fun _ => Iff.rfl⟩, hwf', hP.1, hno', hlt'⟩
  have hgone : ∀ {w₁ : World Any Rest}, (∀ {q t}, w₁.Slot q prop.k2 t ↔
      s.world.Slot q prop.k2 t ∧ ¬ (q = .active ∧ t = prop.k1)) → w₁.NoSlot prop.k2 :=
    fun hslot q t ht => (hslot.mp ht).2 (honly q t (hslot.mp ht).1)
  cases h with
  | @undecodable p err w₁ w₂ hg hset hsettle =>
    obtain ⟨ha₁, _, hs₁⟩ := setProposal_agreeOff hk hset
    have hs₂ := hsettle.sameGov hk
    have ha : s.world.AgreeOff prop.k2 (w₂.removeActive prop) :=
      (ha₁.trans (hs₂.agreeOff _)).trans (removeActive_agreeOff _ _)
    have hslot : ∀ {q t}, (w₂.removeActive prop).Slot q prop.k2 t ↔
        s.world.Slot q prop.k2 t ∧ ¬ (q = .active ∧ t = prop.k1) := by
      intro q t
      rw [removeActive_slot, hs₂.slot, hs₁]
      obtain ⟨k1, k2⟩ := prop
      simp [eq_comm]
    obtain ⟨hturn, hwf', hh⟩ := hclose (ha.conforms hwf hlt (hgone hslot) (.refl _ _))
    exact ⟨.closed, .undecodable, hturn, hwf', hh, fun he => by cases he⟩
  | @executedNow p p' burned res r w₁ w₂ w₃ w₄ hactive hT hx hset hhook =>
    obtain ⟨hg, ha₁, _, hslot, _⟩ := hT.world hk
    obtain ⟨hev₁, hwf₁, hno₁, hlt₁⟩ := ha₁.conforms hwf hlt (hgone hslot) (hx.conforms hrun)
    obtain ⟨ha₂, _, hs₂⟩ := setProposal_agreeOff hk hset
    have hid : p'.id = prop.k2 := hx.id_eq.trans (World.id_of_found hg)
    rw [show ({ p' with finalTallyResult := some res } : Proposal Any).id = prop.k2 from hid] at ha₂
    obtain ⟨hev₂, hrest⟩ := ha₂.conforms hwf₁ hlt₁ (fun q t ht => hno₁ q t (hs₂.mp ht))
      (hhook.conforms hk.afterProposalVotingPeriodEnded)
    obtain ⟨hturn, hwf', hh⟩ := hclose ⟨hev₁.trans hev₂, hrest⟩
    exact ⟨.closed, .executedNow hactive, hturn, hwf', hh, fun he => by cases he⟩
  | @scheduled p burned res e w₁ w₂ hactive hT he hkey hset =>
    obtain ⟨hg, ha₁, _, hslot, _⟩ := hT.world hk
    obtain ⟨ha₂, hg₂, hs₂⟩ := setProposal_agreeOff hk hset
    have hid : p.id = prop.k2 := World.id_of_found hg
    simp only [hid] at ha₂ hg₂
    obtain ⟨hev, hwf', hno', hlt'⟩ := (ha₁.trans ha₂).conforms hwf hlt
      (fun q t ht => hgone hslot q t (hs₂.mp ht)) (.refl ctx.time _)
    refine ⟨.waiting e, .scheduled hactive (by rw [he, hb, hdelay]), ⟨hev, fun {i t} hi => ?_⟩,
      hwf', ⟨fun t => ?_, hno', hlt', _, World.stored_of_found hg₂, rfl⟩, fun he => by cases he⟩
    · simp only [Timelock.Entry, KeySet.mem_set, Pair.mk.injEq, or_iff_right_iff_imp]
      exact fun h => absurd h.2 hi
    · simp only [Timelock.Entry, KeySet.mem_set, Pair.mk.injEq, and_true]
      exact or_iff_left (hP.1 t)
  | @converted p burned res params start period w₁ w₂ w₃ hT hexp hparams hstart hperiod hkey hset
      hhook =>
    obtain ⟨hg, ha₁, _, hslot, _⟩ := hT.world hk
    obtain ⟨ha₂, hg₂, hs₂⟩ := setProposal_agreeOff hk hset
    have hid : p.id = prop.k2 := World.id_of_found hg
    have hstored := World.stored_of_found hg
    simp only [hid] at ha₂ hg₂
    -- the proposal was in its slot, since its record is there
    have hslot₀ : s.world.Slot .active prop.k2 prop.k1 := by
      rcases hin with h | h
      · exact h
      · rw [hstored] at h
        cases h
    have ha : s.world.AgreeOff prop.k2 w₂ :=
      (ha₁.trans (setActive_agreeOff _ ⟨start + period, prop.k2⟩)).trans ha₂
    have hnew : ∀ {q t}, w₂.Slot q prop.k2 t ↔ q = .active ∧ t = start + period := by
      intro q t
      rw [hs₂, setActive_slot]
      simp only [Pair.mk.injEq, and_true]
      rw [or_iff_right (hgone hslot q t), eq_comm (a := t)]
    have hlt₂ : prop.k2 < w₂.proposalID := ha.proposalID ▸ hlt
    have hund : ¬ p.status.Decided := (hwf.proposal _).undecided hslot₀ hg
    have hat : w₂.WFAt prop.k2 := by
      refine ⟨fun ht ht' => ?_, fun _ => ⟨((hwf.proposal _).slot_id hslot₀).1, hlt₂⟩, fun _ => hlt₂,
        fun _ hp => ?_, fun ht _ => ?_, fun ht hp => ?_⟩
      · obtain ⟨rfl, rfl⟩ := hnew.mp ht
        obtain ⟨rfl, rfl⟩ := hnew.mp ht'
        exact ⟨rfl, rfl⟩
      · rw [hg₂] at hp
        cases hp
        exact hund
      · cases (hnew.mp ht).1
      · rw [hg₂] at hp
        cases hp
        rw [(hnew.mp ht).2]
    have hc := hhook.conforms hk.afterProposalVotingPeriodEnded
    have hfresh : c = false := by
      cases c with
      | false => rfl
      | true =>
        have hreg := (hP.2 rfl).2 p hstored
        rw [hexp] at hreg
        cases hreg
    subst hfresh
    refine ⟨.unresolved true, .converted, ⟨(ha.evolves _).trans (hc.2.mono fun _ _ => trivial),
      fun _ => Iff.rfl⟩, hc.1 (hwf.of_agreeOff ha hat), ⟨hP.1, fun _ =>
      ⟨hlt₂.trans_le hc.2.proposalID, fun p' hp' => ?_⟩⟩, ?_⟩
    · by_contra he
      rcases hc.2.expedited trivial hp' (by simpa using he) with ⟨p₂, hp₂, he₂⟩ | hnew'
      · rw [World.stored_of_found hg₂] at hp₂
        cases hp₂
        cases he₂
      · exact absurd hlt₂ (not_lt.mpr hnew')
    · -- the hook adds no slot to the one the conversion wrote
      intro _ _ he
      cases he
      refine ⟨fun ht => hnew.mp (hc.2.slot_old trivial hlt₂ (fun t' ht' => by
        cases (hnew.mp ht').1) ht), ?_⟩
      exact (hc.2.active_kept trivial (hnew.mpr ⟨rfl, rfl⟩)).imp_right And.left
  | @rejected p burned res w₁ w₂ w₃ hT hexp hset hhook =>
    obtain ⟨hg, ha₁, _, hslot, _⟩ := hT.world hk
    obtain ⟨ha₂, _, hs₂⟩ := setProposal_agreeOff hk hset
    have hid : p.id = prop.k2 := World.id_of_found hg
    simp only [hid] at ha₂
    obtain ⟨hturn, hwf', hh⟩ := hclose ((ha₁.trans ha₂).conforms hwf hlt
      (fun q t ht => hgone hslot q t (hs₂.mp ht))
      (hhook.conforms hk.afterProposalVotingPeriodEnded))
    exact ⟨.closed, .rejected, hturn, hwf', hh, fun he => by cases he⟩

end Turn

/-! ## A loop -/

/-- One act moves its proposal and no other. -/
def MoveStep (b : Block) (φ : Nat → Phase) (act : Act) (φ' : Nat → Phase) : Prop :=
  ∃ P', Move b (φ act.id) act P' ∧ φ' = Function.update φ act.id P'

/-- A run of moves of different proposals is one turn of every proposal. -/
theorem turns_of_moves {b : Block} {φ φ' : Nat → Phase} {as : List Act}
    (h : Steps (MoveStep b) φ as φ') (hnd : (as.map Act.id).Nodup) (id : Nat) :
    Turn b (φ id) (actsOf id as) (φ' id) := by
  induction h with
  | nil φ => exact .idle _
  | @cons φ ψ φ' act as hact _ ih =>
    obtain ⟨P', hmove, rfl⟩ := hact
    obtain ⟨hnotin, hnd⟩ := List.nodup_cons.mp hnd
    have ih := ih hnd
    by_cases hid : act.id = id
    · subst hid
      have hrest : actsOf act.id as = [] := List.filter_eq_nil_iff.mpr fun a ha => by
        simpa using fun he => hnotin (List.mem_map.mpr ⟨a, ha, he⟩)
      rw [hrest, Function.update_self] at ih
      have hlast : φ' act.id = P' := by
        generalize φ' act.id = Q at ih
        cases ih
        rfl
      rw [hlast, actsOf, List.filter_cons_of_pos (by simp)]
      change Turn b (φ act.id) (act :: actsOf act.id as) P'
      rw [hrest]
      exact .move hmove
    · rw [Function.update_of_ne (Ne.symm hid)] at ih
      rw [actsOf, List.filter_cons_of_neg (by simpa using hid)]
      exact ih

/-- The phases of all proposals, and a state in which they hold. -/
structure Tracked (Any Rest : Type) where
  phase : Nat → Phase
  state : St Any Rest
  sim : Sim state phase

/-- One turn on what is tracked: it moves its proposal and leaves the others. -/
structure Turned (b : Block) (x : Tracked Any Rest) (act : Act) (y : Tracked Any Rest) : Prop where
  move : MoveStep b x.phase act y.phase
  turn : TurnOn b.ctx.time act.id x.state y.state
  requeued : ∀ {id start period}, act = .converted id start period →
    Requeued y.state.world id (start + period)

/-- A loop whose turns are about different proposals. -/
structure Loop (b : Block) (x : Tracked Any Rest) (as : List Act) (y : Tracked Any Rest) : Prop where
  turns : Steps (Turned b) x as y
  nodup : (as.map Act.id).Nodup

section Loops
variable {s s' : St Any Rest} {φ : Nat → Phase} {x y : Tracked Any Rest} (b : Block)

theorem Loop.turn {as : List Act} (h : Loop b x as y) (id : Nat) :
    Turn b (x.phase id) (actsOf id as) (y.phase id) :=
  turns_of_moves (h.turns.map (f := Tracked.phase) Turned.move) h.nodup id

/-- A turn that moves its proposal keeps the simulation. -/
theorem Sim.turn {now : Time} {id : Nat} {P' : Phase} (h : Sim s φ) (hturn : TurnOn now id s s')
    (hwf : s'.world.WF) (hP : Holds s' id P') : Sim s' (Function.update φ id P') where
  wf := hwf
  holds := by
    intro i
    by_cases hi : i = id
    · subst hi
      rw [Function.update_self]
      exact hP
    · rw [Function.update_of_ne hi]
      exact (h.holds i).evolve hturn.world.toEvolves hi fun t => hturn.entries hi

/-- The turn on what is tracked that a move of the proposal `id` makes. -/
theorem Tracked.turned {act : Act} {id : Nat} {P P' : Phase} (x : Tracked Any Rest)
    (hid : act.id = id) (hP : x.phase id = P) (hmove : Move b P act P')
    (hturn : TurnOn b.ctx.time id x.state s') (hwf : s'.world.WF) (hP' : Holds s' id P')
    (hreq : ∀ {start period}, act = .converted id start period →
      Requeued s'.world id (start + period)) :
    ∃ y : Tracked Any Rest, y.state = s' ∧ y.phase = Function.update x.phase id P' ∧
      Turned b x act y := by
  subst hid hP
  refine ⟨⟨_, s', x.sim.turn hturn hwf hP'⟩, rfl, rfl, ⟨P', hmove, rfl⟩, hturn, ?_⟩
  rintro id start period rfl
  exact hreq rfl

/-- A loop is a run of turns on what is tracked, when each turn is one and keeps what the loop
knows of the turns to come. -/
theorem loop_of_steps {ι : Type} {R : ι → St Any Rest → Act → St Any Rest → Prop}
    {I : List (ι × Act) → Tracked Any Rest → Prop}
    (hstep : ∀ {l L s' x}, I (l :: L) x → R l.1 x.state l.2 s' →
      ∃ y, y.state = s' ∧ Turned b x l.2 y ∧ I L y)
    {L : List (ι × Act)} (h : Steps (fun u l v => R l.1 u l.2 v) x.state L s') (h0 : I L x) :
    ∃ y, y.state = s' ∧ Steps (Turned b) x (acts L) y := by
  obtain ⟨y, hS, hy, _⟩ := h.simulate (f := Prod.snd) (T := Turned b)
    (fun L u x => x.state = u ∧ I L x)
    (fun {l L u v x} hR hl => by
      obtain ⟨rfl, hR⟩ := hR
      obtain ⟨y, hy, ht, hR⟩ := hstep hR hl
      exact ⟨y, ht, hy, hR⟩) ⟨rfl, h0⟩
  exact ⟨y, hy, hS⟩

/-- A queue has each proposal once. -/
theorem queue_ids_nodup (hwf : s.world.WF) {q : Queue} {l : List Pair} (hnd : l.Nodup)
    (hl : ∀ key ∈ l, s.world.Slot q key.k2 key.k1) : (l.map Pair.k2).Nodup := by
  refine List.Nodup.map_on (fun x hx y hy hxy => ?_) hnd
  have hy' := hl y hy
  rw [← hxy] at hy'
  have ht := ((hwf.proposal _).one_slot (hl x hx) hy').2
  cases x
  cases y
  simp only at hxy ht
  rw [hxy, ht]

/-- The proposals of a run of turns, by the turns' acts. -/
theorem acts_ids {ι : Type} {R : ι → St Any Rest → Act → St Any Rest → Prop} {f : ι → Nat}
    {L : List (ι × Act)} (hR : ∀ {i s act s'}, R i s act s' → act.id = f i)
    (h : Steps (fun u l v => R l.1 u l.2 v) s L s') :
    (acts L).map Act.id = L.map fun l => f l.1 := by
  rw [acts, List.map_map]
  refine List.map_congr_left fun l hl => ?_
  obtain ⟨u, v, hstep⟩ := turn_of_mem h hl
  exact hR hstep

/-- A proposal in a queue is unresolved. -/
theorem Sim.unresolved_of_slot (h : Sim s φ) {q : Queue} {id : Nat} {t : Time}
    (ht : s.world.Slot q id t) : ∃ c, φ id = .unresolved c := by
  have hP := h.holds id
  cases hφ : φ id with
  | unresolved c => exact ⟨c, rfl⟩
  | waiting e =>
    rw [hφ] at hP
    exact absurd ht (hP.2.1 q t)
  | closed =>
    rw [hφ] at hP
    exact absurd ht (hP.2.1 q t)

/-- A proposal with an entry waits for it. -/
theorem Sim.waiting_of_entry (h : Sim s φ) {id : Nat} {t : Time} (ht : s.timelock.Entry id t) :
    φ id = .waiting t := by
  have hP := h.holds id
  cases hφ : φ id with
  | unresolved c =>
    rw [hφ] at hP
    exact absurd ht (hP.1 t)
  | waiting e =>
    rw [hφ] at hP
    rw [(hP.1 t).mp ht]
  | closed =>
    rw [hφ] at hP
    exact absurd ht (hP.1 t)

/-! ## The inactive queue -/

/-- What the loop over the inactive queue keeps of the turns to come. -/
structure InactiveRest (L : List (Pair × Act)) (x : Tracked Any Rest) : Prop where
  nodup : (L.map fun l => l.1.k2).Nodup
  unresolved : ∀ l ∈ L, ∃ c, x.phase l.1.k2 = .unresolved c
  id_lt : ∀ l ∈ L, l.1.k2 < x.state.world.proposalID
  only : ∀ l ∈ L, ∀ p err, x.state.world.getProposal l.1.k2 = .errEncoding p err →
    ∀ q t, x.state.world.Slot q l.1.k2 t → q = .inactive ∧ t = l.1.k1

theorem inactive_step (hk : k.Lawful) {l : Pair × Act} {L : List (Pair × Act)}
    (h : InactiveRest (l :: L) x) (hstep : InactiveStep k b.ctx l.1 x.state l.2 s') :
    ∃ y, y.state = s' ∧ Turned b x l.2 y ∧ InactiveRest L y := by
  obtain ⟨c, hc⟩ := h.unresolved l (by simp)
  have hP := x.sim.holds l.1.k2
  rw [hc] at hP
  obtain ⟨hmove, hturn, hwf, hclosed⟩ := inactive_turn b hk hstep x.sim.wf hP (h.id_lt l (by simp))
    (h.only l (by simp))
  obtain ⟨hnotin, hnd⟩ := List.nodup_cons.mp h.nodup
  have hne : ∀ m ∈ L, m.1.k2 ≠ l.1.k2 := fun m hm he => hnotin (List.mem_map.mpr ⟨m, hm, he⟩)
  obtain ⟨y, rfl, hphase, hturned⟩ := x.turned b hstep.id_eq hc hmove hturn hwf hclosed
    fun he => by
      rw [he] at hmove
      cases hmove.of_converted.2
  refine ⟨y, rfl, hturned, hnd, fun m hm => ?_, fun m hm => ?_, fun m hm p err hg q t ht => ?_⟩
  · rw [hphase, Function.update_of_ne (hne m hm)]
    exact h.unresolved m (by simp [hm])
  · exact (h.id_lt m (by simp [hm])).trans_le hturn.world.proposalID
  · obtain ⟨hrec, hslot⟩ := hturn.world.undecodable (hne m hm) hg
    exact h.only m (by simp [hm]) p err (World.getProposal_congr hrec ▸ hg) q t (hslot ht)

/-- The loop over the inactive queue. -/
theorem inactive_loop (hk : k.Lawful) {L : List (Pair × Act)}
    (h : Steps (fun u l v => InactiveStep k b.ctx l.1 u l.2 v) x.state L s')
    (hdue : L.map Prod.fst = x.state.world.inactiveProposalsQueue.filter (untilPair b.ctx.time)) :
    ∃ y, y.state = s' ∧ Loop b x (acts L) y := by
  have hnd : (L.map fun l => l.1.k2).Nodup := by
    rw [show (L.map fun l => l.1.k2) = (L.map Prod.fst).map Pair.k2 from (List.map_map ..).symm, hdue]
    exact queue_ids_nodup (q := .inactive) x.sim.wf (KeySet.filter_nodup _ _)
      fun key hkey => (KeySet.mem_filter.mp hkey).1
  have hslot : ∀ l ∈ L, x.state.world.Slot .inactive l.1.k2 l.1.k1 := fun l hl =>
    (KeySet.mem_filter.mp (hdue ▸ List.mem_map.mpr ⟨l, hl, rfl⟩)).1
  obtain ⟨y, hy, hS⟩ := loop_of_steps b (R := InactiveStep k b.ctx) (I := InactiveRest)
    (fun hR hstep => inactive_step b hk hR hstep) h
    ⟨hnd, fun l hl => x.sim.unresolved_of_slot (hslot l hl),
      fun l hl => ((x.sim.wf.proposal _).slot_id (hslot l hl)).2,
      fun l hl _ _ _ _ _ ht => (x.sim.wf.proposal _).one_slot ht (hslot l hl)⟩
  exact ⟨y, hy, hS, acts_ids (R := InactiveStep k b.ctx) (f := Pair.k2) InactiveStep.id_eq h ▸ hnd⟩

/-! ## The active queue -/

/-- What the loop over the active queue keeps of the entries to come. -/
structure TallyRest (fallbackDelay delay : Duration) (props : List Pair) (x : Tracked Any Rest) :
    Prop where
  delay_eq : x.state.timelock.getExecutionDelay fallbackDelay = delay
  nodup : (props.map Pair.k2).Nodup
  unresolved : ∀ prop ∈ props, ∃ c, x.phase prop.k2 = .unresolved c
  id_lt : ∀ prop ∈ props, prop.k2 < x.state.world.proposalID
  only : ∀ prop ∈ props, ∀ q t, x.state.world.Slot q prop.k2 t → q = .active ∧ t = prop.k1
  kept : ∀ prop ∈ props,
    x.state.world.Slot .active prop.k2 prop.k1 ∨ x.state.world.stored prop.k2 = none

/-- What the loop over the active queue starts with. -/
theorem tallyRest_due (fallbackDelay : Duration)
    (hdelay : x.state.timelock.getExecutionDelay fallbackDelay = b.delay) (now : Time) :
    TallyRest fallbackDelay b.delay (x.state.world.activeProposalsQueue.filter (untilPair now)) x := by
  have hslot : ∀ prop ∈ x.state.world.activeProposalsQueue.filter (untilPair now),
      x.state.world.Slot .active prop.k2 prop.k1 := fun _ hprop => (KeySet.mem_filter.mp hprop).1
  exact ⟨hdelay, queue_ids_nodup (q := .active) x.sim.wf (KeySet.filter_nodup _ _) hslot,
    fun prop hprop => x.sim.unresolved_of_slot (hslot prop hprop),
    fun prop hprop => ((x.sim.wf.proposal _).slot_id (hslot prop hprop)).2,
    fun prop hprop _ _ ht => (x.sim.wf.proposal _).one_slot ht (hslot prop hprop),
    fun prop hprop => .inl (hslot prop hprop)⟩

theorem tally_step (hk : k.Lawful) (hrun : RunConforms b.ctx run) {fallbackDelay : Duration}
    {prop : Pair} {act : Act} {props : List Pair}
    (h : TallyRest fallbackDelay b.delay (prop :: props) x)
    (hstep : TallyStep k run b.ctx fallbackDelay b.active prop x.state act s') :
    ∃ y, y.state = s' ∧ Turned b x act y ∧ TallyRest fallbackDelay b.delay props y := by
  obtain ⟨c, hc⟩ := h.unresolved prop (by simp)
  have hP := x.sim.holds prop.k2
  rw [hc] at hP
  obtain ⟨P', hmove, hturn, hwf, hP', hreq⟩ := tally_turn b hk hrun hstep rfl h.delay_eq.symm
    x.sim.wf hP (h.id_lt prop (by simp)) (h.only prop (by simp)) (h.kept prop (by simp))
  obtain ⟨hnotin, hnd⟩ := List.nodup_cons.mp h.nodup
  have hne : ∀ m ∈ props, m.k2 ≠ prop.k2 := fun m hm he => hnotin (List.mem_map.mpr ⟨m, hm, he⟩)
  obtain ⟨y, rfl, hphase, hturned⟩ := x.turned b hstep.id_eq hc hmove hturn hwf hP' hreq
  refine ⟨y, rfl, hturned, ?_, hnd, fun m hm => ?_, fun m hm => ?_, fun m hm q t ht => ?_,
    fun m hm => ?_⟩
  · rw [getExecutionDelay_congr hstep.items_eq.2, h.delay_eq]
  · rw [hphase, Function.update_of_ne (hne m hm)]
    exact h.unresolved m (by simp [hm])
  · exact (h.id_lt m (by simp [hm])).trans_le hturn.world.proposalID
  · exact h.only m (by simp [hm]) q t
      (hturn.world.slot_old (hne m hm) (h.id_lt m (by simp [hm]))
        (fun t' ht' => by cases (h.only m (by simp [hm]) _ _ ht').1) ht)
  · rcases h.kept m (by simp [hm]) with ht | hnone
    · rcases hturn.world.active_kept (hne m hm) ht with ht | ⟨hnone, _⟩
      · exact .inl ht
      · exact .inr hnone
    · exact .inr (hturn.world.stored_none (hne m hm) (h.id_lt m (by simp [hm])) hnone)

/-- The loop over the active queue. -/
theorem tally_loop (hk : k.Lawful) {fallbackDelay : Duration} {L : List (Pair × Act)}
    (h : Steps (fun u l v => TallyStep k (runMessage k b.ctx) b.ctx fallbackDelay b.active
      l.1 u l.2 v) x.state L s')
    (hdue : L.map Prod.fst = x.state.world.activeProposalsQueue.filter (untilPair b.ctx.time))
    (hdelay : x.state.timelock.getExecutionDelay fallbackDelay = b.delay) :
    ∃ y, y.state = s' ∧ Loop b x (acts L) y := by
  have hrest := tallyRest_due b _ hdelay b.ctx.time
  rw [← hdue] at hrest
  obtain ⟨y, hy, hS⟩ := loop_of_steps b
    (R := TallyStep k (runMessage k b.ctx) b.ctx fallbackDelay b.active)
    (I := fun L => TallyRest fallbackDelay b.delay (L.map Prod.fst))
    (fun hR hstep => tally_step b hk (runMessage_conforms hk) hR hstep) h hrest
  have hnd := hrest.nodup
  rw [List.map_map] at hnd
  exact ⟨y, hy, hS, acts_ids (f := Pair.k2)
    (R := TallyStep k (runMessage k b.ctx) b.ctx fallbackDelay b.active) TallyStep.id_eq h ▸ hnd⟩

/-! ## The schedule -/

/-- What the loop over the schedule keeps of the turns to come. -/
structure MaturedRest (b : Block) (L : List (ScheduledProposal × Act)) (x : Tracked Any Rest) :
    Prop where
  nodup : (L.map fun l => l.1.proposalID).Nodup
  waiting : ∀ l ∈ L, x.phase l.1.proposalID = .waiting l.1.executionTime
  due : ∀ l ∈ L, b.active = true ∧ l.1.executionTime ≤ b.ctx.time

theorem matured_step (hk : k.Lawful) {l : ScheduledProposal × Act}
    {L : List (ScheduledProposal × Act)} (h : MaturedRest b (l :: L) x)
    (hstep : MaturedStep k b.ctx l.1 x.state l.2 s') :
    ∃ y, y.state = s' ∧ Turned b x l.2 y ∧ MaturedRest b L y := by
  have hw := h.waiting l (by simp)
  have hP := x.sim.holds l.1.proposalID
  rw [hw] at hP
  obtain ⟨hactive, hle⟩ := h.due l (by simp)
  obtain ⟨hmove, hturn, hwf, hclosed⟩ := matured_turn b hk hstep x.sim.wf hP hactive hle
  obtain ⟨hnotin, hnd⟩ := List.nodup_cons.mp h.nodup
  obtain ⟨y, rfl, hphase, hturned⟩ := x.turned b hstep.id_eq hw hmove hturn hwf hclosed
    fun he => by
      rw [he] at hmove
      cases hmove.of_converted.1
  refine ⟨y, rfl, hturned, hnd, fun m hm => ?_, fun m hm => h.due m (by simp [hm])⟩
  rw [hphase, Function.update_of_ne fun he => hnotin (List.mem_map.mpr ⟨m, hm, he⟩)]
  exact h.waiting m (by simp [hm])

/-- The schedule has each proposal once. -/
theorem Sim.entry_ids_nodup (hsim : Sim s φ) {sps : List ScheduledProposal} (hnd : sps.Nodup)
    (hsps : ∀ sp ∈ sps, s.timelock.Entry sp.proposalID sp.executionTime) :
    (sps.map ScheduledProposal.proposalID).Nodup := by
  refine List.Nodup.map_on (fun x hx y hy hxy => ?_) hnd
  have hwx := hsim.waiting_of_entry (hsps x hx)
  rw [hxy, hsim.waiting_of_entry (hsps y hy)] at hwx
  cases x
  cases y
  simp only [Phase.waiting.injEq] at hwx hxy
  rw [hxy, hwx]

/-- The loop over the schedule. -/
theorem matured_loop (hk : k.Lawful) {L : List (ScheduledProposal × Act)}
    (h : Steps (fun u l v => MaturedStep k b.ctx l.1 u l.2 v) x.state L s')
    (hdue : L.map Prod.fst = if b.active then x.state.timelock.due b.ctx.time else []) :
    ∃ y, y.state = s' ∧ Loop b x (acts L) y := by
  have hmem : ∀ sp ∈ L.map Prod.fst, b.active = true ∧
      x.state.timelock.Entry sp.proposalID sp.executionTime ∧ sp.executionTime ≤ b.ctx.time := by
    intro sp hsp
    rw [hdue] at hsp
    split at hsp
    · rename_i ha
      exact ⟨ha, Timelock.mem_due.mp hsp⟩
    · cases hsp
  have hin : ∀ l ∈ L, l.1 ∈ L.map Prod.fst := fun l hl => List.mem_map.mpr ⟨l, hl, rfl⟩
  have hnd : (L.map fun l => l.1.proposalID).Nodup := by
    have hnodup : (L.map Prod.fst).Nodup := by
      rw [hdue]
      split
      · exact (Timelock.due_sorted _).imp fun hlt he => ne_of_lt hlt (congrArg _ he)
      · exact List.nodup_nil
    rw [show (L.map fun l => l.1.proposalID) =
      (L.map Prod.fst).map ScheduledProposal.proposalID from (List.map_map ..).symm]
    exact x.sim.entry_ids_nodup hnodup fun sp hsp => (hmem sp hsp).2.1
  obtain ⟨y, hy, hS⟩ := loop_of_steps b (R := MaturedStep k b.ctx) (I := MaturedRest b)
    (fun hR hstep => matured_step b hk hR hstep) h
    ⟨hnd, fun l hl => x.sim.waiting_of_entry (hmem _ (hin l hl)).2.1,
      fun l hl => ⟨(hmem _ (hin l hl)).1, (hmem _ (hin l hl)).2.2⟩⟩
  exact ⟨y, hy, hS, acts_ids (f := ScheduledProposal.proposalID) (R := MaturedStep k b.ctx)
    MaturedStep.id_eq h ▸ hnd⟩

/-! ## A call -/

/-- A call is three loops, and one turn of every proposal. -/
structure Call (b : Block) (x x₁ x₂ y : Tracked Any Rest) (as₁ as₂ as₃ : List Act) : Prop where
  inactive : Loop b x as₁ x₁
  tallies : Loop b x₁ as₂ x₂
  matured : Loop b x₂ as₃ y
  turn : ∀ id, Turn b (x.phase id) (actsOf id (as₁ ++ as₂ ++ as₃)) (y.phase id)

/-- The loop over the inactive queue closes what it moves. -/
theorem Loop.inactive_closed {L : List (Pair × Act)}
    (h : Steps (fun u l v => InactiveStep k ctx l.1 u l.2 v) s L s') (hL : Loop b x (acts L) y)
    {id : Nat} (hne : actsOf id (acts L) ≠ []) : y.phase id = .closed := by
  have hturn := hL.turn b id
  have hmem : ∀ act ∈ actsOf id (acts L), ∃ l ∈ L, l.2 = act := fun act hact =>
    List.mem_map.mp (List.mem_filter.mp hact).1
  generalize actsOf id (acts L) = as at hturn hne hmem
  generalize x.phase id = P, y.phase id = Q at hturn ⊢
  cases hturn with
  | idle => exact absurd rfl hne
  | move hm =>
    obtain ⟨l, hl, rfl⟩ := hmem _ List.mem_cons_self
    obtain ⟨u, v, hstep⟩ := turn_of_mem (R := InactiveStep k ctx) h hl
    rcases hstep.act_eq with ⟨burned, he⟩ | ⟨reason, he⟩
    all_goals
      rw [he] at hm
      cases hm
      rfl

/-- **A call is one turn of every proposal.** -/
theorem endBlocker_call (hk : k.Lawful) {fallbackDelay : Duration} {s₁ s₂ : St Any Rest}
    {L₁ L₂ : List (Pair × Act)} {L₃ : List (ScheduledProposal × Act)}
    (h : EndBlockSteps k b.ctx fallbackDelay x.state L₁ L₂ L₃ s₁ s₂ s')
    (hactive : b.active = x.state.timelock.isActive b.ctx.height)
    (hdelay : b.delay = x.state.timelock.getExecutionDelay fallbackDelay) (hpos : 0 < b.delay) :
    ∃ x₁ x₂ y : Tracked Any Rest, x₁.state = s₁ ∧ x₂.state = s₂ ∧ y.state = s' ∧
      Call b x x₁ x₂ y (acts L₁) (acts L₂) (acts L₃) := by
  obtain ⟨x₁, rfl, hL₁⟩ := inactive_loop b hk h.inactive h.inactive_due
  have htallies := h.tallies
  rw [← hactive] at htallies
  obtain ⟨x₂, rfl, hL₂⟩ := tally_loop b hk htallies h.tallies_due (by rw [h.timelock_eq, hdelay])
  obtain ⟨y, rfl, hL₃⟩ := matured_loop b hk h.matured (by rw [h.matured_due, hactive])
  refine ⟨x₁, x₂, y, rfl, rfl, rfl, hL₁, hL₂, hL₃, fun id => ?_⟩
  rw [actsOf_append, actsOf_append]
  refine (hL₁.turn b id).three (hL₂.turn b id) (hL₃.turn b id) hpos
    (Loop.inactive_closed b h.inactive hL₁) fun act hact => ?_
  obtain ⟨l, hl, rfl⟩ := List.mem_map.mp (List.mem_filter.mp hact).1
  obtain ⟨u, v, hstep⟩ := turn_of_mem (R := MaturedStep k b.ctx) h.matured hl
  exact ⟨l.1.executionTime, l.1, rfl, hstep.act_eq⟩

end Loops
end Ark.GovTimelock
