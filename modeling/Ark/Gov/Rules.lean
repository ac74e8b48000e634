import Mathlib.Logic.Function.Basic
import Ark.Gov

/- The rules x/gov keeps.

   The timelock's guarantees rest on x/gov's own bookkeeping, which is not in this
   repository. `World.WF` is the state of it between two steps: a proposal is in at
   most one queue slot, at the end time its record names, and is not in a queue once
   it is decided. `Evolves` is what x/gov lets happen to it, whoever acts (messages
   of users, hooks, handlers): a slot in the active queue is new only for a proposal
   that left its deposit period or is new itself, a proposal leaves the active queue
   only by being deleted, a decided proposal is not written again, and a proposal is
   not made expedited. `Lawful` says that x/gov's methods do what their names say
   and that handlers and hooks keep these rules.

   The end blocker itself also removes slots and decides proposals; that it keeps
   `WF` is proved from its code. `plainKeeper` is an x/gov that keeps the rules. -/
namespace Ark.Gov
open Ark.Lib

variable {Any Msg Rest : Type}

/-- The states in which a proposal has been decided. -/
def ProposalStatus.Decided (st : ProposalStatus) : Prop :=
  st = .passed ∨ st = .rejected ∨ st = .failed

inductive Queue
  | active
  | inactive
  deriving DecidableEq, Repr

namespace World

/-- `id` is in the queue with end time `t`. -/
def Slot (w : World Any Rest) (q : Queue) (id : Nat) (t : Time) : Prop :=
  match q with
  | .active => ⟨t, id⟩ ∈ w.activeProposalsQueue
  | .inactive => ⟨t, id⟩ ∈ w.inactiveProposalsQueue

/-- `id` is in no queue. -/
def NoSlot (w : World Any Rest) (id : Nat) : Prop := ∀ q t, ¬ w.Slot q id t

/-- What x/gov's bookkeeping says of one proposal. -/
structure WFAt (w : World Any Rest) (id : Nat) : Prop where
  one_slot : ∀ {q q' t t'}, w.Slot q id t → w.Slot q' id t' → q = q' ∧ t = t'
  slot_id : ∀ {q t}, w.Slot q id t → 0 < id ∧ id < w.proposalID
  record_id : ∀ {p}, w.stored id = some p → id < w.proposalID
  undecided : ∀ {q t p}, w.Slot q id t → w.getProposal id = .found p → ¬ p.status.Decided
  deposit_end : ∀ {t p}, w.Slot .inactive id t → w.getProposal id = .found p →
    p.depositEndTime = some t
  voting_end : ∀ {t p}, w.Slot .active id t → w.getProposal id = .found p →
    p.votingEndTime = some t

/-- x/gov's bookkeeping; the next proposal id is a `uint64`. -/
structure WF (w : World Any Rest) : Prop where
  proposal : ∀ id, w.WFAt id
  fits : w.proposalID ≤ 2 ^ 64

/-- What x/gov lets happen, at block time `now`, to the proposals of `S`. -/
structure Evolves (now : Time) (S : Nat → Prop) (w w' : World Any Rest) : Prop where
  proposalID : w.proposalID ≤ w'.proposalID
  active_new : ∀ {id t}, S id → w'.Slot .active id t →
    w.Slot .active id t ∨ (∃ t', w.Slot .inactive id t') ∨ w.proposalID ≤ id
  active_kept : ∀ {id t}, S id → w.Slot .active id t →
    w'.Slot .active id t ∨ (w'.stored id = none ∧ id < w'.proposalID)
  inactive_new : ∀ {id t}, S id → w'.Slot .inactive id t →
    w.Slot .inactive id t ∨ (w.proposalID ≤ id ∧ now < t)
  created : ∀ {id p'}, S id → w'.stored id = some p' →
    (∃ p, w.stored id = some p) ∨ w.proposalID ≤ id
  decided : ∀ {id p}, S id → w.stored id = some p → p.status.Decided → w'.stored id = some p
  expedited : ∀ {id p'}, S id → w'.stored id = some p' → p'.expedited = true →
    (∃ p, w.stored id = some p ∧ p.expedited = true) ∨ w.proposalID ≤ id

/-- Within a block the software does not change, so a record that does not decode was there
before and its proposal was in the same slots. -/
structure EvolvesInBlock (now : Time) (S : Nat → Prop) (w w' : World Any Rest) : Prop
    extends Evolves now S w w' where
  undecodable : ∀ {id p err}, S id → w'.getProposal id = .errEncoding p err →
    w'.proposals id = w.proposals id ∧ ∀ {q t}, w'.Slot q id t → w.Slot q id t

/-- What the chain does to x/gov between two end blockers. -/
def Between (now : Time) (w w' : World Any Rest) : Prop :=
  (w.WF → w'.WF) ∧ Evolves now (fun _ => True) w w'

/-- What handlers and hooks do to x/gov. -/
def Conforms (now : Time) (w w' : World Any Rest) : Prop :=
  (w.WF → w'.WF) ∧ EvolvesInBlock now (fun _ => True) w w'

section Rules
variable {now : Time} {S S' : Nat → Prop} {w w' w'' : World Any Rest} {id : Nat}

theorem getProposal_congr (h : w'.proposals id = w.proposals id) :
    w'.getProposal id = w.getProposal id := by
  unfold getProposal
  rw [h]

theorem stored_congr (h : w'.proposals id = w.proposals id) : w'.stored id = w.stored id := by
  unfold stored
  rw [h]

theorem Evolves.refl (now : Time) (S : Nat → Prop) (w : World Any Rest) : w.Evolves now S w where
  proposalID := le_refl _
  active_new := fun _ h => .inl h
  active_kept := fun _ h => .inl h
  inactive_new := fun _ h => .inl h
  created := fun _ h => .inl ⟨_, h⟩
  decided := fun _ h _ => h
  expedited := fun _ h he => .inl ⟨_, h, he⟩

theorem Evolves.mono (h : w.Evolves now S w') (hS : ∀ i, S' i → S i) : w.Evolves now S' w' where
  proposalID := h.proposalID
  active_new := fun hi => h.active_new (hS _ hi)
  active_kept := fun hi => h.active_kept (hS _ hi)
  inactive_new := fun hi => h.inactive_new (hS _ hi)
  created := fun hi => h.created (hS _ hi)
  decided := fun hi => h.decided (hS _ hi)
  expedited := fun hi => h.expedited (hS _ hi)

theorem Evolves.trans (h : w.Evolves now S w') (h' : w'.Evolves now S w'') :
    w.Evolves now S w'' where
  proposalID := h.proposalID.trans h'.proposalID
  active_new := by
    intro i t hi ht
    rcases h'.active_new hi ht with ht | ⟨t', ht⟩ | hnew
    · exact h.active_new hi ht
    · rcases h.inactive_new hi ht with ht | ⟨hnew, _⟩
      · exact .inr (.inl ⟨t', ht⟩)
      · exact .inr (.inr hnew)
    · exact .inr (.inr (h.proposalID.trans hnew))
  active_kept := by
    intro i t hi ht
    rcases h.active_kept hi ht with ht | ⟨hnone, hlt⟩
    · exact h'.active_kept hi ht
    · -- a record that is gone is not written again: its id is not a new one
      refine .inr ⟨?_, hlt.trans_le h'.proposalID⟩
      cases hs : w''.stored i with
      | none => rfl
      | some p =>
        rcases h'.created hi hs with ⟨p', hp'⟩ | hnew
        · rw [hnone] at hp'
          cases hp'
        · exact absurd hlt (not_lt.mpr hnew)
  inactive_new := by
    intro i t hi ht
    rcases h'.inactive_new hi ht with ht | ⟨hnew, hlt⟩
    · exact h.inactive_new hi ht
    · exact .inr ⟨h.proposalID.trans hnew, hlt⟩
  created := by
    intro i p'' hi hp
    rcases h'.created hi hp with ⟨p', hp'⟩ | hnew
    · exact h.created hi hp'
    · exact .inr (h.proposalID.trans hnew)
  decided := fun hi hp hd => h'.decided hi (h.decided hi hp hd) hd
  expedited := by
    intro i p'' hi hp he
    rcases h'.expedited hi hp he with ⟨p', hp', he'⟩ | hnew
    · exact h.expedited hi hp' he'
    · exact .inr (h.proposalID.trans hnew)

theorem EvolvesInBlock.refl (now : Time) (S : Nat → Prop) (w : World Any Rest) :
    w.EvolvesInBlock now S w :=
  ⟨.refl now S w, fun _ _ => ⟨rfl, id⟩⟩

theorem EvolvesInBlock.mono (h : w.EvolvesInBlock now S w') (hS : ∀ i, S' i → S i) :
    w.EvolvesInBlock now S' w' :=
  ⟨h.toEvolves.mono hS, fun hi => h.undecodable (hS _ hi)⟩

theorem EvolvesInBlock.trans (h : w.EvolvesInBlock now S w') (h' : w'.EvolvesInBlock now S w'') :
    w.EvolvesInBlock now S w'' := by
  refine ⟨h.toEvolves.trans h'.toEvolves, fun {i p err} hi hg => ?_⟩
  obtain ⟨hrec', hslot'⟩ := h'.undecodable hi hg
  rw [getProposal_congr hrec'] at hg
  obtain ⟨hrec, hslot⟩ := h.undecodable hi hg
  exact ⟨hrec'.trans hrec, fun ht => hslot (hslot' ht)⟩

theorem Conforms.refl (now : Time) (w : World Any Rest) : w.Conforms now w :=
  ⟨id, .refl now _ w⟩

theorem Conforms.trans (h : w.Conforms now w') (h' : w'.Conforms now w'') : w.Conforms now w'' :=
  ⟨h'.1 ∘ h.1, h.2.trans h'.2⟩

/-- The slots of a proposal that is not new and not in its deposit period were there before. -/
theorem Evolves.slot_old (h : w.Evolves now S w') (hi : S id) (hlt : id < w.proposalID)
    (hno : ∀ t, ¬ w.Slot .inactive id t) {q : Queue} {t : Time} (ht : w'.Slot q id t) :
    w.Slot q id t := by
  cases q with
  | active =>
    rcases h.active_new hi ht with ht | ⟨t', ht⟩ | hnew
    · exact ht
    · exact absurd ht (hno t')
    · exact absurd hlt (not_lt.mpr hnew)
  | inactive =>
    rcases h.inactive_new hi ht with ht | ⟨hnew, _⟩
    · exact ht
    · exact absurd hlt (not_lt.mpr hnew)

/-- A proposal that is in no queue and is not new stays out of the queues. -/
theorem Evolves.noSlot (h : w.Evolves now S w') (hi : S id) (hlt : id < w.proposalID)
    (hno : w.NoSlot id) : w'.NoSlot id := fun q t ht =>
  hno q t (h.slot_old hi hlt (hno .inactive) ht)

/-- A proposal without a record that is not new stays without one. -/
theorem Evolves.stored_none (h : w.Evolves now S w') (hi : S id) (hlt : id < w.proposalID)
    (hnone : w.stored id = none) : w'.stored id = none := by
  cases hs : w'.stored id with
  | none => rfl
  | some p =>
    rcases h.created hi hs with ⟨p', hp'⟩ | hnew
    · rw [hnone] at hp'
      cases hp'
    · exact absurd hlt (not_lt.mpr hnew)

/-! ## Writes about one proposal -/

/-- Two worlds that differ in the proposal `id` at most. -/
structure AgreeOff (id : Nat) (w w' : World Any Rest) : Prop where
  proposalID : w'.proposalID = w.proposalID
  record : ∀ {i}, i ≠ id → w'.proposals i = w.proposals i
  slot : ∀ {q i t}, i ≠ id → (w'.Slot q i t ↔ w.Slot q i t)

theorem AgreeOff.refl (id : Nat) (w : World Any Rest) : w.AgreeOff id w :=
  ⟨rfl, fun _ => rfl, fun _ => Iff.rfl⟩

theorem AgreeOff.trans (h : w.AgreeOff id w') (h' : w'.AgreeOff id w'') : w.AgreeOff id w'' where
  proposalID := h'.proposalID.trans h.proposalID
  record := fun hi => (h'.record hi).trans (h.record hi)
  slot := fun hi => (h'.slot hi).trans (h.slot hi)

theorem AgreeOff.evolves (h : w.AgreeOff id w') (now : Time) :
    w.EvolvesInBlock now (· ≠ id) w' where
  proposalID := h.proposalID.ge
  active_new := fun hi ht => .inl ((h.slot hi).mp ht)
  active_kept := fun hi ht => .inl ((h.slot hi).mpr ht)
  inactive_new := fun hi ht => .inl ((h.slot hi).mp ht)
  created := fun hi hp => .inl ⟨_, stored_congr (h.record hi) ▸ hp⟩
  decided := fun hi hp _ => (stored_congr (h.record hi)).trans hp
  expedited := fun hi hp he => .inl ⟨_, (stored_congr (h.record hi)).symm.trans hp, he⟩
  undecodable := fun hi _ => ⟨h.record hi, fun ht => (h.slot hi).mp ht⟩

theorem WFAt.of_agreeOff {i : Nat} (h : w.WFAt i) (ha : w.AgreeOff id w') (hi : i ≠ id) :
    w'.WFAt i where
  one_slot := fun ht ht' => h.one_slot ((ha.slot hi).mp ht) ((ha.slot hi).mp ht')
  slot_id := fun ht => ha.proposalID ▸ h.slot_id ((ha.slot hi).mp ht)
  record_id := fun hp => ha.proposalID ▸ h.record_id ((stored_congr (ha.record hi)).symm.trans hp)
  undecided := fun ht hp => h.undecided ((ha.slot hi).mp ht)
    ((getProposal_congr (ha.record hi)).symm.trans hp)
  deposit_end := fun ht hp => h.deposit_end ((ha.slot hi).mp ht)
    ((getProposal_congr (ha.record hi)).symm.trans hp)
  voting_end := fun ht hp => h.voting_end ((ha.slot hi).mp ht)
    ((getProposal_congr (ha.record hi)).symm.trans hp)

/-- The bookkeeping of a proposal in no queue. -/
theorem WFAt.of_noSlot (hno : w.NoSlot id) (hlt : id < w.proposalID) : w.WFAt id where
  one_slot := fun ht => absurd ht (hno _ _)
  slot_id := fun ht => absurd ht (hno _ _)
  record_id := fun _ => hlt
  undecided := fun ht => absurd ht (hno _ _)
  deposit_end := fun ht => absurd ht (hno _ _)
  voting_end := fun ht => absurd ht (hno _ _)

theorem WF.of_agreeOff (h : w.WF) (ha : w.AgreeOff id w') (hid : w'.WFAt id) : w'.WF where
  proposal := by
    intro i
    by_cases hi : i = id
    · rw [hi]
      exact hid
    · exact (h.proposal i).of_agreeOff ha hi
  fits := ha.proposalID ▸ h.fits

/-- A write about a proposal that leaves it in no queue, and then what a handler or a hook
does. -/
theorem AgreeOff.conforms {w₁ w₂ : World Any Rest} (ha : w.AgreeOff id w₁)
    (hwf : w.WF) (hlt : id < w.proposalID) (hno : w₁.NoSlot id) (hc : w₁.Conforms now w₂) :
    w.EvolvesInBlock now (· ≠ id) w₂ ∧ w₂.WF ∧ w₂.NoSlot id ∧ id < w₂.proposalID := by
  have hlt₁ : id < w₁.proposalID := ha.proposalID ▸ hlt
  have hwf₁ : w₁.WF := hwf.of_agreeOff ha (.of_noSlot hno hlt₁)
  exact ⟨(ha.evolves now).trans (hc.2.mono fun _ _ => trivial), hc.1 hwf₁,
    hc.2.noSlot trivial hlt₁ hno, hlt₁.trans_le hc.2.proposalID⟩

/-! ## The store's operations -/

/-- Only what the rules do not speak of has changed. -/
def SameGov (w w' : World Any Rest) : Prop := w' = { w with rest := w'.rest }

/-- `SetProposal`. -/
def setRecord (w : World Any Rest) (p : Proposal Any) : World Any Rest :=
  { w with proposals := Function.update w.proposals p.id (some ⟨p, none, fun _ => rfl⟩) }

/-- `DeleteProposal`: the record, and the slots its end times name. -/
def deleteRecord (w : World Any Rest) (id : Nat) (p : Proposal Any) : World Any Rest :=
  { w with
    proposals := Function.update w.proposals id none
    inactiveProposalsQueue := match p.depositEndTime with
      | some t => w.inactiveProposalsQueue.remove ⟨t, id⟩
      | none => w.inactiveProposalsQueue
    activeProposalsQueue := match p.votingEndTime with
      | some t => w.activeProposalsQueue.remove ⟨t, id⟩
      | none => w.activeProposalsQueue }

theorem SameGov.agreeOff (h : w.SameGov w') (id : Nat) : w.AgreeOff id w' := by
  rw [h]
  exact ⟨rfl, fun _ => rfl, fun {q i t} _ => by cases q <;> rfl⟩

theorem SameGov.slot (h : w.SameGov w') {q : Queue} {t : Time} : w'.Slot q id t ↔ w.Slot q id t := by
  rw [h]
  cases q <;> rfl

theorem SameGov.getProposal_eq (h : w.SameGov w') (id : Nat) :
    w'.getProposal id = w.getProposal id := by
  rw [h]
  rfl

theorem setRecord_slot {p : Proposal Any} {q : Queue} {t : Time} :
    (w.setRecord p).Slot q id t ↔ w.Slot q id t := by
  cases q <;> rfl

theorem setRecord_agreeOff (w : World Any Rest) (p : Proposal Any) :
    w.AgreeOff p.id (w.setRecord p) where
  proposalID := rfl
  record := fun hi => Function.update_of_ne hi _ _
  slot := fun _ => setRecord_slot

theorem getProposal_setRecord (w : World Any Rest) (p : Proposal Any) :
    (w.setRecord p).getProposal p.id = .found p := by
  unfold getProposal setRecord
  simp

theorem stored_setRecord (w : World Any Rest) (p : Proposal Any) :
    (w.setRecord p).stored p.id = some p := stored_of_found (getProposal_setRecord w p)

theorem removeActive_slot {key : Pair} {q : Queue} {t : Time} :
    (w.removeActive key).Slot q id t ↔ w.Slot q id t ∧ ¬ (q = .active ∧ key = ⟨t, id⟩) := by
  cases q with
  | active => simp [Slot, removeActive, eq_comm]
  | inactive => simp [Slot, removeActive]

theorem removeActive_agreeOff (w : World Any Rest) (key : Pair) :
    w.AgreeOff key.k2 (w.removeActive key) where
  proposalID := rfl
  record := fun _ => rfl
  slot := fun hi => by
    rw [removeActive_slot, and_iff_left]
    rintro ⟨_, rfl⟩
    exact hi rfl

theorem removeInactive_slot {key : Pair} {q : Queue} {t : Time} :
    (w.removeInactive key).Slot q id t ↔ w.Slot q id t ∧ ¬ (q = .inactive ∧ key = ⟨t, id⟩) := by
  cases q with
  | active => simp [Slot, removeInactive]
  | inactive => simp [Slot, removeInactive, eq_comm]

theorem removeInactive_agreeOff (w : World Any Rest) (key : Pair) :
    w.AgreeOff key.k2 (w.removeInactive key) where
  proposalID := rfl
  record := fun _ => rfl
  slot := fun hi => by
    rw [removeInactive_slot, and_iff_left]
    rintro ⟨_, rfl⟩
    exact hi rfl

theorem setActive_slot {key : Pair} {q : Queue} {t : Time} :
    (w.setActive key).Slot q id t ↔ w.Slot q id t ∨ (q = .active ∧ key = ⟨t, id⟩) := by
  cases q with
  | active => simp [Slot, setActive, or_comm, eq_comm]
  | inactive => simp [Slot, setActive]

theorem setActive_agreeOff (w : World Any Rest) (key : Pair) :
    w.AgreeOff key.k2 (w.setActive key) where
  proposalID := rfl
  record := fun _ => rfl
  slot := fun hi => by
    rw [setActive_slot, or_iff_left]
    rintro ⟨_, rfl⟩
    exact hi rfl

theorem deleteRecord_slot {p : Proposal Any} {i : Nat} {q : Queue} {t : Time} :
    (w.deleteRecord id p).Slot q i t ↔ w.Slot q i t ∧
      ¬ (i = id ∧ (match q with | .active => p.votingEndTime | .inactive => p.depositEndTime)
        = some t) := by
  cases q with
  | active =>
    cases hv : p.votingEndTime with
    | none => simp [Slot, deleteRecord, hv]
    | some v => simp [Slot, deleteRecord, hv, and_comm, eq_comm]
  | inactive =>
    cases hd : p.depositEndTime with
    | none => simp [Slot, deleteRecord, hd]
    | some d => simp [Slot, deleteRecord, hd, and_comm, eq_comm]

theorem deleteRecord_agreeOff (w : World Any Rest) (id : Nat) (p : Proposal Any) :
    w.AgreeOff id (w.deleteRecord id p) where
  proposalID := rfl
  record := fun hi => Function.update_of_ne hi _ _
  slot := fun hi => by
    rw [deleteRecord_slot, and_iff_left]
    exact fun h => hi h.1

/-- Deleting a proposal by its record takes it out of the queues. -/
theorem deleteRecord_noSlot {p : Proposal Any} (hw : w.WFAt id) (hp : w.getProposal id = .found p) :
    (w.deleteRecord id p).NoSlot id := by
  intro q t ht
  rw [deleteRecord_slot] at ht
  obtain ⟨ht, hne⟩ := ht
  refine hne ⟨rfl, ?_⟩
  cases q with
  | active => exact hw.voting_end ht hp
  | inactive => exact hw.deposit_end ht hp

end Rules
end World

/-- x/gov's methods do what their names say, and handlers and hooks keep x/gov's rules. -/
structure GovKeeper.Lawful (k : GovKeeper Any Msg Rest) : Prop where
  tally : ∀ {ctx p w r w'}, k.tally ctx p w = .ok r w' → w.SameGov w'
  refundAndDeleteDeposits : ∀ {ctx id w w'}, k.refundAndDeleteDeposits ctx id w = .ok () w' →
    w.SameGov w'
  deleteAndBurnDeposits : ∀ {ctx id w w'}, k.deleteAndBurnDeposits ctx id w = .ok () w' →
    w.SameGov w'
  setProposal : ∀ {ctx p w w'}, k.setProposal ctx p w = .ok () w' → (w.setRecord p).SameGov w'
  deleteProposal : ∀ {ctx id w w'}, k.deleteProposal ctx id w = .ok () w' →
    ∃ p, w.getProposal id = .found p ∧ (w.deleteRecord id p).SameGov w'
  handler : ∀ {ctx msg h w r w'}, k.handler msg = some h → h ctx msg w = .ok r w' →
    w.Conforms ctx.time w'
  afterProposalVotingPeriodEnded : ∀ {ctx id w w'},
    k.afterProposalVotingPeriodEnded ctx id w = .ok () w' → w.Conforms ctx.time w'
  afterProposalFailedMinDeposit : ∀ {ctx id w w'},
    k.afterProposalFailedMinDeposit ctx id w = .ok () w' → w.Conforms ctx.time w'

/-! ## An x/gov that keeps the rules -/

/-- An x/gov with the given tally and handlers, no deposits and no hooks. -/
def plainKeeper (passes : Proposal Any → Bool) (handler : Any → Option (Handler Any Any Rest))
    (msgTypeURL : Any → String) : GovKeeper Any Any Rest where
  tally _ p := pure (passes p, false, ⟨"0", "0", "0", "0"⟩)
  refundAndDeleteDeposits _ _ := pure ()
  deleteAndBurnDeposits _ _ := pure ()
  setProposal _ p w := .ok () (w.setRecord p)
  deleteProposal _ id w := match w.getProposal id with
    | .found p => .ok () (w.deleteRecord id p)
    | .errEncoding _ err => .error (.err err) w
    | .errNotFound => .error (.err (proposalNotFound id)) w
  afterProposalVotingPeriodEnded _ _ := pure ()
  afterProposalFailedMinDeposit _ _ := pure ()
  getMsgs messages := .ok messages
  handler := handler
  msgTypeURL := msgTypeURL
  msgString := msgTypeURL
  formatTime t := ToString.toString t

theorem plainKeeper_lawful {passes : Proposal Any → Bool}
    {handler : Any → Option (Handler Any Any Rest)} {msgTypeURL : Any → String}
    (hh : ∀ {ctx msg h w r w'}, handler msg = some h → h ctx msg w = .ok r w' →
      w.Conforms ctx.time w') :
    (plainKeeper passes handler msgTypeURL).Lawful where
  tally := by rintro ctx p w r w' ⟨⟩; rfl
  refundAndDeleteDeposits := by rintro ctx id w w' ⟨⟩; rfl
  deleteAndBurnDeposits := by rintro ctx id w w' ⟨⟩; rfl
  setProposal := by rintro ctx p w w' ⟨⟩; rfl
  deleteProposal := by
    intro ctx id w w' h
    simp only [plainKeeper] at h
    cases hg : w.getProposal id with
    | found p =>
      rw [hg] at h
      cases h
      exact ⟨p, rfl, rfl⟩
    | errEncoding p err => simp [hg] at h
    | errNotFound => simp [hg] at h
  handler := hh
  afterProposalVotingPeriodEnded := by rintro ctx id w w' ⟨⟩; exact .refl _ _
  afterProposalFailedMinDeposit := by rintro ctx id w w' ⟨⟩; exact .refl _ _

/-- An x/gov whose tallies pass and whose messages succeed. -/
def passingKeeper : GovKeeper Unit Unit Unit :=
  plainKeeper (fun _ => true) (fun _ => some fun _ _ => pure (some [])) fun _ => ""

theorem passingKeeper_lawful : passingKeeper.Lawful := plainKeeper_lawful fun hh h => by
  cases hh
  cases h
  exact .refl _ _

/-- A proposal in its voting period, which ends at `t`. -/
def votingProposalOf (messages : List Any) (id : Nat) (t : Time) : Proposal Any where
  id := id
  messages := messages
  status := .votingPeriod
  finalTallyResult := none
  depositEndTime := none
  votingStartTime := some zeroTime
  votingEndTime := some t
  expedited := false
  failedReason := ""

abbrev votingProposal : Nat → Time → Proposal Unit := votingProposalOf [()]

/-- A chain whose proposals are all in their voting period, given by id and end time. -/
def votingWorldOf (messages : List Any) (rest : Rest) (ends : List (Nat × Time)) :
    World Any Rest where
  proposals id := (ends.lookup id).map fun t => ⟨votingProposalOf messages id t, none, fun _ => rfl⟩
  activeProposalsQueue := ends.foldl (fun q e => q.set ⟨e.2, e.1⟩) KeySet.empty
  inactiveProposalsQueue := KeySet.empty
  params := none
  proposalID := 100
  rest := rest

abbrev votingWorld : List (Nat × Time) → World Unit Unit := votingWorldOf [()] ()

section Voting
variable {messages : List Any} {rest : Rest} {ends : List (Nat × Time)}

theorem votingWorld_slot {q : Queue} {id : Nat} {t : Time} :
    (votingWorldOf messages rest ends).Slot q id t ↔ q = .active ∧ (id, t) ∈ ends := by
  cases q with
  | active =>
    have hfold := KeySet.mem_foldl_set (f := fun e : Nat × Time => (⟨e.2, e.1⟩ : Pair)) (l := ends)
      (s := KeySet.empty) (k := ⟨t, id⟩)
    simp only [World.Slot, votingWorldOf, hfold, KeySet.not_mem_empty, false_or, true_and,
      Pair.mk.injEq, Prod.exists]
    simp
  | inactive => simp [World.Slot, votingWorldOf]

theorem votingWorld_wf (hnd : (ends.map Prod.fst).Nodup) (hids : ∀ e ∈ ends, 0 < e.1 ∧ e.1 < 100) :
    (votingWorldOf messages rest ends).WF := by
  have hone : ∀ {id t t'}, (id, t) ∈ ends → (id, t') ∈ ends → t = t' := fun h h' =>
    congrArg Prod.snd (List.inj_on_of_nodup_map hnd h h' rfl)
  have hstored : ∀ {id p}, (votingWorldOf messages rest ends).stored id = some p →
      ∃ t, (id, t) ∈ ends ∧ p = votingProposalOf messages id t := by
    intro id p h
    simp only [World.stored, votingWorldOf, Option.map_map, Option.map_eq_some_iff] at h
    obtain ⟨t, ht, rfl⟩ := h
    obtain ⟨l₁, l₂, rfl, _⟩ := List.lookup_eq_some_iff.mp ht
    exact ⟨t, by simp, rfl⟩
  refine ⟨fun id => ⟨fun h h' => ?_, fun h => ?_, fun h => ?_, fun _ hp => ?_, fun h => ?_,
    fun h hp => ?_⟩, Nat.le_of_ble_eq_true rfl⟩
  · obtain ⟨rfl, hmem⟩ := votingWorld_slot.mp h
    obtain ⟨rfl, hmem'⟩ := votingWorld_slot.mp h'
    exact ⟨rfl, hone hmem hmem'⟩
  · exact hids _ (votingWorld_slot.mp h).2
  · obtain ⟨t, ht, _⟩ := hstored h
    exact (hids _ ht).2
  · obtain ⟨t, _, rfl⟩ := hstored (World.stored_of_found hp)
    simp [votingProposalOf, ProposalStatus.Decided]
  · cases (votingWorld_slot.mp h).1
  · obtain ⟨t, ht, rfl⟩ := hstored (World.stored_of_found hp)
    rw [hone (votingWorld_slot.mp h).2 ht]
    rfl

end Voting

/-- The chain after a change of software by which no record decodes any more. -/
def World.undecodable (w : World Any Rest) (err : String) : World Any Rest :=
  { w with proposals := fun id => (w.proposals id).map fun r => ⟨r.value, some err, nofun⟩ }

theorem World.WF.undecodable {w : World Any Rest} (h : w.WF) (err : String) :
    (w.undecodable err).WF := by
  have hslot : ∀ {q id t}, (w.undecodable err).Slot q id t ↔ w.Slot q id t := by
    intro q id t
    cases q <;> rfl
  have hstored : ∀ id, (w.undecodable err).stored id = w.stored id := by
    intro id
    simp only [World.stored, World.undecodable, Option.map_map]
    rfl
  have hfound : ∀ {id p}, (w.undecodable err).getProposal id ≠ .found p := by
    intro id p
    unfold World.getProposal World.undecodable
    cases hr : w.proposals id <;> simp [hr]
  refine ⟨fun id => ⟨fun ht ht' => ?_, fun ht => ?_, fun hp => ?_, fun _ hp => absurd hp hfound,
    fun _ hp => absurd hp hfound, fun _ hp => absurd hp hfound⟩, h.fits⟩
  · exact (h.proposal id).one_slot (hslot.mp ht) (hslot.mp ht')
  · exact (h.proposal id).slot_id (hslot.mp ht)
  · exact (h.proposal id).record_id ((hstored id).symm.trans hp)

end Ark.Gov
