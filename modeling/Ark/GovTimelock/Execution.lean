import Ark.GovTimelock.Calls

/- What a run does to the proposals that passed.

   `executed_exactly_once` is the promise of the schedule: no proposal's messages
   are executed twice, and a proposal whose tally passed while the timelock was
   active is at the end of the run, which may be any block boundary, either pending
   (one entry, stored as passed) or consumed, once. `hook_protocol` is what others
   see of it: where the hook is called and which events answer each other.

   Both are read off the proposal's history. -/
namespace Ark.GovTimelock
open Ark.Lib Ark.Gov World Effect

variable {Any Msg Rest : Type} {k : GovKeeper Any Msg Rest} {mm : Manager Any Rest}
  {E : Ctx → World Any Rest → World Any Rest → Prop} {s s' : St Any Rest} {Bs : List Block}

/-- A proposal that waits for its execution: one entry, stored as passed. -/
def Pending (s : St Any Rest) (id : Nat) : Prop :=
  (∃ e, ∀ t, s.timelock.Entry id t ↔ t = e) ∧ ∃ p, s.world.stored id = some p ∧ p.status = .passed

theorem Sim.pending {φ : Nat → Phase} (h : Sim s φ) {id : Nat} {e : Time} (hφ : φ id = .waiting e) :
    Pending s id := by
  have hP := h.holds id
  rw [hφ] at hP
  exact ⟨⟨e, hP.1⟩, hP.2.2.2⟩

theorem Sim.no_entry {φ : Nat → Phase} (h : Sim s φ) {id : Nat} (hφ : φ id = .closed) (t : Time) :
    ¬ s.timelock.Entry id t := by
  have hP := h.holds id
  rw [hφ] at hP
  exact hP.1 t

/-- The log has as many entries `o` as the part of it about `o`'s proposal. -/
theorem count_about {id : Nat} {o : Obs} (ho : o.id? = some id) (log : List Obs) :
    (about id log).count o = log.count o := List.count_filter (by simpa using ho)

theorem Idle.not_consumedIn {id : Nat} (h : Idle id Bs) {b : Block} (hb : b ∈ Bs) :
    ¬ ConsumedIn id b.log := by
  intro hc
  obtain ⟨res, text, hmem⟩ := hc.executedEvent
  have hin := mem_about.mpr ⟨hmem, rfl⟩
  rw [h b hb] at hin
  cases hin

theorem History.executing_count_le {id : Nat} {P P' : Phase} (h : History id P Bs P') :
    (logOf Bs).count (.executing id) ≤ 1 := by
  have hle := h.executing_le
  have hmono : (about id (logOf Bs)).count (.executing id) ≤
      (about id (logOf Bs)).countP Obs.isExecuting :=
    List.countP_mono_left fun o _ ho => by
      rw [beq_iff_eq.mp ho]
      rfl
  rw [count_about rfl] at hmono
  have hP : P.executions ≤ 1 := by cases P <;> simp [Phase.executions]
  omega

/-! ## Executed once -/

/-- A proposal whose tally passed in an active block waits or has been consumed once. -/
theorem History.of_passed {id : Nat} {P P' : Phase} (h : History id P Bs P') {b : Block}
    (hb : b ∈ Bs) (ha : b.active = true) (ht : .tallied id true ∈ b.log) :
    ((∃ e, P' = .waiting e) ∧ ∀ c ∈ Bs, ¬ ConsumedIn id c.log) ∨
    (P' = .closed ∧ ∃ pre c post, Bs = pre ++ c :: post ∧ ConsumedIn id c.log ∧
      ∀ d ∈ pre ++ post, ¬ ConsumedIn id d.log) := by
  obtain ⟨pre, post, rfl⟩ := List.append_of_mem hb
  -- the passing tally scheduled the proposal, since the block is active
  have hmem : ∃ text, .event (.proposalScheduled id text) ∈ b.log := by
    obtain ⟨Q, R, _, htold, _⟩ := h.split
    obtain ⟨act, hm, hid, hlog, hact⟩ := htold.of_mem ht rfl
    rcases Act.of_passing hact with ⟨burned, r, rfl⟩ | ⟨burned, e, text, rfl⟩
    · rw [hm.of_executedNow] at ha
      cases ha
    · have hin : .event (.proposalScheduled id text) ∈ about id b.log := by
        rw [hlog]
        simp [Act.trace, Act.log]
      exact ⟨text, (mem_about.mp hin).1⟩
  obtain ⟨text, hmem⟩ := hmem
  obtain ⟨c, burned, e, hpre, _, _, hlog, hpost⟩ := h.around_scheduled hmem
  have hbefore : ∀ d ∈ pre ++ [b], ¬ ConsumedIn id d.log := by
    intro d hd hc
    obtain ⟨res, txt, hexec⟩ := hc.executedEvent
    rcases List.mem_append.mp hd with hd | hd
    · exact hpre.of_unresolved.2.2 res txt (mem_logOf.mpr ⟨d, hd, hexec⟩)
    · rw [List.mem_singleton.mp hd] at hexec
      have hin := mem_about.mpr ⟨hexec, rfl⟩
      rw [hlog] at hin
      simp [Act.log] at hin
  have hsplit : pre ++ b :: post = (pre ++ [b]) ++ post := by simp
  rcases hpost.after_waiting with
    ⟨hidle, rfl⟩ | ⟨mid, d, rest, rfl, hmid, hcons, _, _, hrest, rfl⟩
  · refine .inl ⟨⟨e, rfl⟩, fun d hd => ?_⟩
    rw [hsplit] at hd
    rcases List.mem_append.mp hd with hd | hd
    · exact hbefore d hd
    · exact hidle.not_consumedIn hd
  · refine .inr ⟨rfl, (pre ++ [b]) ++ mid, d, rest, by simp, hcons, fun x hx => ?_⟩
    rcases List.mem_append.mp hx with hx | hx
    · rcases List.mem_append.mp hx with hx | hx
      · exact hbefore x hx
      · exact hmid.not_consumedIn hx
    · exact hrest.not_consumedIn hx

/-- **Exactly once, nothing lost.** Over a run no proposal's messages are executed twice; a
proposal whose tally passed in an active block is at the end of the run pending or consumed,
once, and not both; the timelock stays active once it is, and no entry outlives an active
block in which it is due. The end of the run is any block boundary of a longer one. -/
theorem executed_exactly_once (k : GovKeeper Any Msg Rest) (mm : Manager Any Rest)
    (hk : k.Lawful) (hmm : mm.Lawful) (hstart : Start s) (hwf : s.world.WF)
    (h : Run k mm Ruled s Bs s') :
    (∀ id, (logOf Bs).count (.executing id) ≤ 1) ∧
    (∀ id, ∀ b ∈ Bs, b.active = true → .tallied id true ∈ b.log →
      (Pending s' id ∧ ∀ c ∈ Bs, ¬ ConsumedIn id c.log) ∨
      ((∀ t, ¬ s'.timelock.Entry id t) ∧ ∃ pre c post, Bs = pre ++ c :: post ∧
        ConsumedIn id c.log ∧ ∀ d ∈ pre ++ post, ¬ ConsumedIn id d.log)) ∧
    (Bs.Pairwise fun b c => b.active = true → c.active = true) ∧
    ∀ b ∈ Bs, b.active = true → ∀ id t, s'.timelock.Entry id t → b.ctx.time < t := by
  obtain ⟨φ, hsim, _⟩ := hstart.sim hwf
  obtain ⟨φ', hsim', hhist⟩ := h.histories hk hmm hsim
  refine ⟨fun id => (hhist id).executing_count_le, fun id b hb ha ht => ?_, h.active_mono hmm,
    fun b hb ha => h.not_due hmm hb ha⟩
  rcases (hhist id).of_passed hb ha ht with ⟨⟨e, he⟩, hno⟩ | ⟨hclosed, hone⟩
  · exact .inl ⟨hsim'.pending he, hno⟩
  · exact .inr ⟨hsim'.no_entry hclosed, hone⟩

/-- A proposal that is tallied and executed, over these two blocks. -/
theorem deferred_executed_exactly_once : .tallied 7 true ∈ tallyBlock.log ∧
    (logOf [tallyBlock, executionBlock]).count (.executing 7) ≤ 1 :=
  ⟨List.mem_cons_self, (executed_exactly_once passingKeeper govtimelockManager passingKeeper_lawful
    govtimelockManager_lawful (votingState_start _) (votingWorld_wf (by decide) (by decide))
    deferred_run).1 7⟩

/-! ## Hooks and events -/

/-- A hook that returns no error keeps what it wrote. -/
theorem runVotingPeriodEndedHook_kept {ctx : Ctx} {id : Nat} {w : World Any Rest}
    (h : k.afterProposalVotingPeriodEnded ctx id s.world = .ok () w) :
    runVotingPeriodEndedHook k ctx id s = .ok () { s with world := w, log := s.log ++ [.hooked id] } := by
  rw [runVotingPeriodEndedHook, bind_eq_of_ok (observe_ok (u := ()) |>.mpr rfl),
    bind_eq_of_ok (getWorld_ok.mpr ⟨rfl, rfl⟩), h]
  rfl

/-- A hook that returns an error leaves the state as if it had not run. -/
theorem runVotingPeriodEndedHook_err {ctx : Ctx} {id : Nat} {e : String} {w : World Any Rest}
    (h : k.afterProposalVotingPeriodEnded ctx id s.world = .error (.err e) w) :
    runVotingPeriodEndedHook k ctx id s = .ok () { s with log := s.log ++ [.hooked id] } := by
  rw [runVotingPeriodEndedHook, bind_eq_of_ok (observe_ok (u := ()) |>.mpr rfl),
    bind_eq_of_ok (getWorld_ok.mpr ⟨rfl, rfl⟩), h]
  rfl

/-- The proposals that wait before a block that consumes an entry were scheduled once, or had
an entry when the run started. -/
theorem History.scheduled_before {id : Nat} {P : Phase} {e : Time}
    (h : History id P Bs (.waiting e)) :
    (about id (logOf Bs)).countP Obs.isScheduledEvent = 1 ∨ (P = .waiting e ∧ Idle id Bs) := by
  have hexec := h.executedEvent
  have hsched := h.scheduledEvent_le
  cases P with
  | unresolved c =>
    simp only [Phase.owed, Phase.waits] at hexec hsched
    exact .inl (by omega)
  | waiting e' =>
    rcases h.after_waiting with ⟨hidle, he⟩ | ⟨_, _, _, _, _, _, _, _, _, he⟩
    · cases he
      exact .inr ⟨rfl, hidle⟩
    · cases he
  | closed => cases h.of_closed.2

/-- **Hooks and events of the deferred path.** A proposal that is scheduled is mentioned no
more until its entry is consumed, and then there is the hook call and the one
`proposal_executed` event, after its messages; that event answers exactly one earlier
`proposal_scheduled` event, unless the entry was there from the start. A tally that resolves a
proposal without scheduling it calls the hook once, and no `proposal_executed` event for it is
emitted in any block. Each hook call of a block is a call of the hook on the state that what the
log has before it left, and what the log has after it goes on from what the hook wrote, or from
that state when the hook returned an error: a hook that returns no error keeps its writes, and
one that returns an error leaves the state as if it had not run. -/
theorem hook_protocol (k : GovKeeper Any Msg Rest) (mm : Manager Any Rest) (hk : k.Lawful)
    (hmm : mm.Lawful) (hstart : Start s) (hwf : s.world.WF) (h : Run k mm Ruled s Bs s') (id : Nat) :
    (∀ pre b post text, Bs = pre ++ b :: post → .event (.proposalScheduled id text) ∈ b.log →
      (∃ burned, about id b.log = [.tallied id true, .settled id burned,
        .event (.proposalScheduled id text),
        .event (.activeProposal id .passed ("passed; execution scheduled for " ++ text))]) ∧
      (∀ t, .event (.proposalScheduled id t) ∉ logOf pre) ∧
      (Idle id post ∨ ∃ mid c rest, post = mid ++ c :: rest ∧ Idle id mid ∧
        ConsumedIn id c.log ∧ Idle id rest)) ∧
    (∀ pre c post res text, Bs = pre ++ c :: post →
      .event (.proposalExecuted id res text) ∈ c.log → ConsumedIn id c.log ∧ Idle id post ∧
        ((about id (logOf pre)).countP Obs.isScheduledEvent = 1 ∨
          ((∃ t, s.timelock.Entry id t) ∧ Idle id pre))) ∧
    (∀ b ∈ Bs, (∃ passes, .tallied id passes ∈ b.log) →
      (∀ text, .event (.proposalScheduled id text) ∉ b.log) →
      (∀ start period, .requeued id start period ∉ b.log) →
      b.log.count (.hooked id) = 1 ∧
        ∀ res text, .event (.proposalExecuted id res text) ∉ logOf Bs) ∧
    (∀ pre b post, Bs = pre ++ b :: post → ∃ u s₀ v, Run k mm Ruled s pre u ∧
      BeforeEndBlock mm Ruled b.ctx u s₀ ∧ Calls k b.ctx s₀.world b.log v.world ∧
      Run k mm Ruled v post s' ∧
      (.hooked id ∈ b.log → ∃ before after w w', b.log = before ++ .hooked id :: after ∧
        Calls k b.ctx s₀.world before w ∧
        Hooks (k.afterProposalVotingPeriodEnded b.ctx id) w w' ∧
        Calls k b.ctx w' after v.world)) ∧
    (∀ ctx (u : St Any Rest) w, k.afterProposalVotingPeriodEnded ctx id u.world = .ok () w →
      runVotingPeriodEndedHook k ctx id u =
        .ok () { u with world := w, log := u.log ++ [.hooked id] }) ∧
    ∀ ctx (u : St Any Rest) e w, k.afterProposalVotingPeriodEnded ctx id u.world = .error (.err e) w →
      runVotingPeriodEndedHook k ctx id u = .ok () { u with log := u.log ++ [.hooked id] } := by
  obtain ⟨φ, hsim, hφ⟩ := hstart.sim hwf
  obtain ⟨φ', _, hhist⟩ := h.histories hk hmm hsim
  refine ⟨?_, ?_, ?_, fun pre b post hBs => ?_, fun ctx u w => runVotingPeriodEndedHook_kept,
    fun ctx u e w => runVotingPeriodEndedHook_err⟩
  · -- a scheduled proposal waits, and its entry is consumed later or not in this run
    rintro pre b post text rfl hmem
    obtain ⟨c, burned, e, hpre, _, _, hlog, hpost⟩ := (hhist id).around_scheduled hmem
    refine ⟨⟨burned, hlog⟩, hpre.of_unresolved.2.1, ?_⟩
    rcases hpost.after_waiting with ⟨hidle, _⟩ | ⟨mid, d, rest, rfl, hmid, hcons, _, _, hrest, _⟩
    · exact .inl hidle
    · exact .inr ⟨mid, d, rest, rfl, hmid, hcons, hrest⟩
  · -- an executed event consumes an entry, whose scheduling came before
    rintro pre c post res text rfl hmem
    obtain ⟨e, hpre, hcons, _, _, hidle, _⟩ := (hhist id).around_executed hmem
    refine ⟨hcons, hidle, ?_⟩
    rcases hpre.scheduled_before with hone | ⟨hP, hpre⟩
    · exact .inl hone
    · rcases hφ id with ⟨e', _, he'⟩ | ⟨hun, _⟩
      · exact .inr ⟨⟨e', he'⟩, hpre⟩
      · rw [hun] at hP
        cases hP
  · intro b hb ⟨passes, ht⟩ hsched hreq
    obtain ⟨pre, post, rfl⟩ := List.append_of_mem hb
    obtain ⟨c, hpre, hhook, hexec, hidle⟩ := (hhist id).around_resolved ht hsched hreq
    refine ⟨by rw [← count_about rfl, hhook], fun res text hmem => ?_⟩
    obtain ⟨d, hd, hd'⟩ := mem_logOf.mp hmem
    rcases List.mem_append.mp hd with hd | hd
    · exact hpre.of_unresolved.2.2 res text (mem_logOf.mpr ⟨d, hd, hd'⟩)
    · rcases List.mem_cons.mp hd with rfl | hd
      · exact hexec res text hd'
      · have hin := mem_about.mpr ⟨hd', rfl⟩
        rw [hidle d hd] at hin
        cases hin
  · obtain ⟨u, s₀, v, hpre, hbefore, hcalls, hpost⟩ := (hBs ▸ h).block_calls hk hmm
    exact ⟨u, s₀, v, hpre, hbefore, hcalls, hpost, hcalls.of_hooked⟩

/-- The hook calls for a proposal over these two blocks: none when it is scheduled, and one, after
its messages, in the block that executes it. -/
theorem deferred_hook_protocol : .event (.proposalScheduled 7
      (passingKeeper.formatTime (10 + minimumDelay))) ∈ tallyBlock.log ∧
    (∀ post, [tallyBlock, executionBlock] = tallyBlock :: post →
      Idle 7 post ∨ ∃ mid c rest, post = mid ++ c :: rest ∧ Idle 7 mid ∧ ConsumedIn 7 c.log ∧
        Idle 7 rest) ∧
    ∃ before after w w', executionBlock.log = before ++ .hooked 7 :: after ∧
      Hooks (passingKeeper.afterProposalVotingPeriodEnded executionBlock.ctx 7) w w' := by
  have hmem : Obs.event (.proposalScheduled 7 (passingKeeper.formatTime (10 + minimumDelay))) ∈
      tallyBlock.log := by simp [tallyBlock, Act.log]
  have hprotocol := hook_protocol passingKeeper govtimelockManager passingKeeper_lawful
    govtimelockManager_lawful (votingState_start _) (votingWorld_wf (by decide) (by decide))
    deferred_run 7
  refine ⟨hmem, fun post hpost => (hprotocol.1 [] tallyBlock post _ hpost hmem).2.2, ?_⟩
  obtain ⟨_, _, _, _, _, _, _, hcalled⟩ := hprotocol.2.2.2.1 [tallyBlock] executionBlock [] rfl
  obtain ⟨before, after, w, w', hlog, _, hhook, _⟩ := hcalled (by simp [executionBlock, Act.log])
  exact ⟨before, after, w, w', hlog, hhook⟩

/-- A chain whose proposal 7 no longer decodes when its voting period ends. -/
def undecodableState : St Unit Unit where
  world := (votingWorld [(7, 10)]).undecodable "unable to resolve type URL"
  timelock := ⟨KeySet.empty, some 1, none⟩
  log := []

/-- The block in which it is failed. -/
def undecodableBlock : Block where
  ctx := tallyBlock.ctx
  active := true
  delay := minimumDelay
  log := (Act.undecodable 7 true "unable to resolve type URL").log

/-- A proposal that is resolved in the active queue, is not scheduled, and for which the hook is
not called: its record does not decode. -/
theorem undecodable_not_hooked : ∃ s' : St Unit Unit, Start undecodableState ∧
    undecodableState.world.WF ∧
    Run passingKeeper govtimelockManager Ruled undecodableState [undecodableBlock] s' ∧
    undecodableBlock.active = true ∧ undecodableState.world.Slot .active 7 10 ∧
    s'.world.NoSlot 7 ∧ (∃ p, s'.world.stored 7 = some p ∧ p.status = .failed) ∧
    (∀ t, ¬ s'.timelock.Entry 7 t) ∧ undecodableBlock.log.count (.hooked 7) = 0 := by
  let p := unsupportedProposal (votingProposal 7 10) "unable to resolve type URL"
  let s' : St Unit Unit := ⟨(undecodableState.world.setRecord p).removeActive ⟨10, 7⟩,
    undecodableState.timelock, undecodableBlock.log⟩
  have hstep : BlockStep passingKeeper govtimelockManager Ruled undecodableState undecodableBlock s' :=
    .of_endBlock ⟨id, .refl _ _ _⟩ rfl rfl rfl rfl
  have hactive : (votingWorld [(7, 10)]).Slot .active 7 10 := votingWorld_slot.mpr ⟨rfl, by simp⟩
  refine ⟨s', .empty fun _ _ => KeySet.not_mem_empty _,
    (votingWorld_wf (by decide) (by decide)).undecodable _,
    ⟨.cons hstep (.nil _), List.pairwise_singleton _ _⟩, rfl, hactive, fun q t ht => ?_,
    ⟨p, stored_setRecord undecodableState.world p, rfl⟩, fun _ => KeySet.not_mem_empty _, by decide⟩
  rw [removeActive_slot, setRecord_slot] at ht
  obtain ⟨ht, hne⟩ := ht
  have hslot : (votingWorld [(7, 10)]).Slot q 7 t := by cases q <;> exact ht
  obtain ⟨rfl, hmem⟩ := votingWorld_slot.mp hslot
  exact hne ⟨rfl, by simpa [eq_comm] using hmem⟩

end Ark.GovTimelock
