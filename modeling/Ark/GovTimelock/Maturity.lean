import Ark.GovTimelock.Acts
import Ark.GovTimelock.Atomicity

/- The schedule cannot stop a block.

   `executeMaturedProposals` runs in every block once the timelock is active, and
   an error from it is fatal for the block. What is proved
   (`executeMaturedProposals_total`): whatever the schedule holds and whatever
   x/gov stores under the ids it names, the call returns without an error, handles
   every entry that is due, in order, and leaves exactly the entries that are not
   due. Assumed (`Dependable`): a proposal write succeeds, a handler that returns no
   error returns a result, and the hook does not panic. -/
namespace Ark.GovTimelock
open Ark.Lib Ark.Gov Effect

variable {Any Msg Rest : Type} {k : GovKeeper Any Msg Rest} {ctx : Ctx}

/-- x/gov and the handlers behave as the loop over the schedule expects. -/
structure Dependable (k : GovKeeper Any Msg Rest) : Prop where
  setProposal : ∀ ctx p w, ∃ w', k.setProposal ctx p w = .ok () w'
  handlers : ∀ ctx msg h w w', k.handler msg = some h → h ctx msg w ≠ .ok none w'
  hooks : ∀ ctx id w v w', k.afterProposalVotingPeriodEnded ctx id w ≠ .error (.panic v) w'

theorem runVotingPeriodEndedHook_total (ctx : Ctx) (hk : Dependable k) (id : Nat) (s : St Any Rest) :
    ∃ s', runVotingPeriodEndedHook k ctx id s = .ok () s' := by
  rw [runVotingPeriodEndedHook, bind_eq_of_ok (observe_ok (u := ()) |>.mpr rfl),
    bind_eq_of_ok (getWorld_ok.mpr ⟨rfl, rfl⟩)]
  rcases hx : k.afterProposalVotingPeriodEnded ctx id s.world with ⟨⟨⟩, w⟩ | ⟨_ | v, w⟩
  · exact ⟨_, rfl⟩
  · exact ⟨_, rfl⟩
  · exact absurd hx (hk.hooks ctx id s.world v w)

/-- Each of the four ways to treat an entry ends without an error. -/
theorem executeMaturedProposal_total (hk : Dependable k) (sp : ScheduledProposal)
    (s : St Any Rest) : ∃ s', executeMaturedProposal k ctx sp s = .ok () s' := by
  rw [executeMaturedProposal, bind_eq_of_ok (getWorld_ok.mpr ⟨rfl, rfl⟩)]
  rcases hg : s.world.getProposal sp.proposalID with p | ⟨p, err⟩ | _
  · by_cases hst : p.status = .passed
    · obtain ⟨⟨p', res, msg⟩, s₁, hx⟩ := executeProposal_total ctx hk.handlers p s
      obtain ⟨w₂, hset⟩ := hk.setProposal ctx p' s₁.world
      obtain ⟨s₃, hh⟩ := runVotingPeriodEndedHook_total ctx hk p'.id
        { s₁ with world := w₂, timelock := s₁.timelock.remove sp.executionTime sp.proposalID }
      simp only [hst, ne_eq, not_true_eq_false, if_false, bind_ok]
      exact ⟨_, _, _, hx, (), _, gov_ok.mpr ⟨w₂, hset, rfl⟩, (), _, removeScheduled_ok.mpr rfl, (),
        _, hh, observe_ok.mpr rfl⟩
    · obtain ⟨s₁, hh⟩ := runVotingPeriodEndedHook_total ctx hk p.id s
      simp only [hst, ne_eq, not_false_eq_true, if_true, bind_ok]
      exact ⟨_, (), _, hh, dropScheduledEntry_ok.mpr rfl⟩
  · obtain ⟨w₁, hset⟩ := hk.setProposal ctx (unloadableProposal sp.proposalID err) s.world
    obtain ⟨s₂, hh⟩ := runVotingPeriodEndedHook_total ctx hk sp.proposalID
      { s with world := w₁ }
    simp only [bind_ok]
    exact ⟨_, (), _, gov_ok.mpr ⟨w₁, hset, rfl⟩, (), _, hh, dropScheduledEntry_ok.mpr rfl⟩
  · obtain ⟨s₁, hh⟩ := runVotingPeriodEndedHook_total ctx hk sp.proposalID s
    simp only [bind_ok]
    exact ⟨_, (), _, hh, dropScheduledEntry_ok.mpr rfl⟩

/-- The proposal a `proposal_executed` event is about. -/
def Obs.executedEvent : Obs → Option Nat
  | .event (.proposalExecuted id _ _) => some id
  | _ => none

/-- A turn of the schedule emits one `proposal_executed` event. -/
theorem MaturedStep.executedEvent {sp : ScheduledProposal} {s s' : St Any Rest} {act : Act}
    (h : MaturedStep k ctx sp s act s') : act.log.filterMap Obs.executedEvent = [sp.proposalID] := by
  rcases h.act_eq with ⟨r, rfl⟩ | ⟨reason, rfl⟩
  · have hevents : r.events.filterMap (Obs.executedEvent ∘ fun e => .event (.handler e)) = [] :=
      List.filterMap_eq_nil_iff.mpr fun _ _ => rfl
    have hdelivered : (List.range r.delivered).filterMap
        (Obs.executedEvent ∘ Obs.delivered sp.proposalID) = [] :=
      List.filterMap_eq_nil_iff.mpr fun _ _ => rfl
    simp [Act.log, Ran.log, List.filterMap_cons, List.filterMap_append, List.filterMap_map, hevents,
      hdelivered, Obs.executedEvent]
  · simp [Act.log, List.filterMap_cons, Obs.executedEvent]

/-- What a run over entries of the schedule leaves of it. -/
theorem matured_steps {s s' : St Any Rest} {L : List (ScheduledProposal × Act)}
    (h : Steps (fun u l v => MaturedStep k ctx l.1 u l.2 v) s L s') :
    (actsLog L).filterMap Obs.executedEvent = (L.map Prod.fst).map ScheduledProposal.proposalID ∧
    ∀ key, key ∈ s'.timelock.scheduledProposals ↔
      key ∈ s.timelock.scheduledProposals ∧ ∀ l ∈ L, l.1.key ≠ key := by
  induction h with
  | nil => simp [actsLog, acts]
  | @cons s u s' l L hl _ ih =>
    obtain ⟨hev, hkeys⟩ := ih
    refine ⟨?_, fun key => ?_⟩
    · simp only [actsLog, acts, List.map_cons, List.flatMap_cons, List.filterMap_append,
        hl.executedEvent]
      rw [← hev]
      rfl
    · rw [hkeys key, hl.timelock_eq]
      simp only [Timelock.remove, KeySet.mem_remove, List.mem_cons, forall_eq_or_imp,
        ScheduledProposal.key, ne_eq]
      rw [and_assoc, eq_comm]

/-- **The schedule cannot halt the chain.** The loop returns no error, emits one
`proposal_executed` event for each entry that was due, in order, and leaves no entry that is
due and every entry that was not; what was due is due at no later time. -/
theorem executeMaturedProposals_total (k : GovKeeper Any Msg Rest) (ctx : Ctx) (hk : Dependable k)
    (s : St Any Rest) :
    ∃ s' os, executeMaturedProposals k ctx s = .ok () s' ∧ s'.log = s.log ++ os ∧
      os.filterMap Obs.executedEvent =
        (s.timelock.due ctx.time).map ScheduledProposal.proposalID ∧
      s'.timelock.due ctx.time = [] ∧
      (∀ key, ctx.time < key.k1 →
        (key ∈ s'.timelock.scheduledProposals ↔ key ∈ s.timelock.scheduledProposals)) ∧
      ∀ now, ∀ sp ∈ s.timelock.due ctx.time, sp ∉ s'.timelock.due now := by
  obtain ⟨s', hs'⟩ := forM_total (executeMaturedProposal_total hk) (s.timelock.due ctx.time) s
  obtain ⟨L, hL, hS⟩ := steps_of_forM (fun _ _ _ => executeMaturedProposal_step) hs'
  obtain ⟨hev, hkeys⟩ := matured_steps hS
  -- every entry that was due had its turn, which removed it
  have hgone : ∀ sp ∈ s.timelock.due ctx.time, sp.key ∉ s'.timelock.scheduledProposals := by
    intro sp hsp hmem
    rw [← hL] at hsp
    obtain ⟨l, hl, rfl⟩ := List.mem_map.mp hsp
    exact ((hkeys _).mp hmem).2 l hl rfl
  refine ⟨s', actsLog L, ?_, actsLog_of_steps (R := MaturedStep k ctx) MaturedStep.log_eq hS, ?_, ?_, fun key hkey => ?_, ?_⟩
  · exact bind_ok.mpr ⟨_, _, getTimelock_ok.mpr ⟨rfl, rfl⟩, hs'⟩
  · rw [hev, hL]
  · refine List.eq_nil_iff_forall_not_mem.mpr fun sp hsp => ?_
    obtain ⟨hmem, hle⟩ := Timelock.mem_due.mp hsp
    exact hgone sp (Timelock.mem_due.mpr ⟨((hkeys _).mp hmem).1, hle⟩) hmem
  · rw [hkeys key]
    refine ⟨And.left, fun h => ⟨h, fun l hl hkl => ?_⟩⟩
    have hdue : l.1 ∈ s.timelock.due ctx.time := hL ▸ List.mem_map.mpr ⟨l, hl, rfl⟩
    have hle := (Timelock.mem_due.mp hdue).2
    rw [← hkl] at hkey
    exact absurd hle (not_le.mpr hkey)
  · intro now sp hsp hdue
    exact hgone sp hsp (Timelock.mem_due.mp hdue).1

theorem passingKeeper_dependable : Dependable passingKeeper where
  setProposal := fun _ p w => ⟨w.setRecord p, rfl⟩
  handlers := by
    rintro ctx msg h w w' ⟨⟩
    exact nofun
  hooks := fun _ _ _ _ _ => nofun

/-- Two entries that mature together, of a proposal that passed and of one that is missing. -/
def maturedState : St Unit Unit where
  world := (votingWorld []).setRecord { votingProposal 7 10 with status := .passed }
  timelock := ⟨(KeySet.empty.set ⟨20, 7⟩).set ⟨20, 8⟩, some 1, none⟩
  log := []

theorem maturedState_consumed : ∃ (s' : St Unit Unit) (os : List Obs),
    executeMaturedProposals passingKeeper (blockAt 5 30 (by decide)) maturedState = .ok () s' ∧
    os.filterMap Obs.executedEvent = [7, 8] ∧ s'.timelock.due 30 = [] := by
  obtain ⟨s', os, hok, _, hev, hdue, _⟩ := executeMaturedProposals_total passingKeeper
    (blockAt 5 30 (by decide)) passingKeeper_dependable maturedState
  exact ⟨s', os, hok, hev, hdue⟩

end Ark.GovTimelock
