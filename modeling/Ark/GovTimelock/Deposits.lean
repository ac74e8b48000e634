import Ark.GovTimelock.Calls

/- Resolution and deposits.

   A call takes every entry that was due out of the queues: a proposal is resolved
   and its deposits are settled, or an expedited one is put back, once, as a regular
   one (`Call.of_inactive`, `Call.of_active`); no entry of the inactive queue that is
   due remains (`Call.inactive_due`). Over a run a proposal's deposits are settled at
   most once, and a settled proposal is in no queue and is tallied no more
   (`deposits_settled_once`). A settlement is one call of x/gov that refunds or burns
   the deposits, and a conversion takes the new end time from the record and the
   parameters it finds (`Calls`). The one proposal that leaves the queues without a
   settlement here is one that a hook of another proposal deletes, with its record,
   before the active queue is read. -/
namespace Ark.GovTimelock
open Ark.Lib Ark.Gov World Effect

variable {Any Msg Rest : Type} {k : GovKeeper Any Msg Rest} {mm : Manager Any Rest}
  {s s' : St Any Rest} {Bs : List Block}

/-! ## A run -/

section Histories
variable {id : Nat} {P P' : Phase} {b : Block}

theorem Told.settled (h : Told id P b P') : (about id b.log).countP Obs.isSettled + P'.owed = P.owed := by
  have h := History.settled (.cons h (.nil _))
  simpa [logOf] using h

/-- What is settled owes nothing. -/
theorem Told.owed_of_settled (h : Told id P b P') {o : Obs} (ho : o ∈ about id b.log)
    (hs : o.isSettled = true) : P'.owed = 0 := by
  have hcount := h.settled
  have hpos : 0 < (about id b.log).countP Obs.isSettled := List.countP_pos_iff.mpr ⟨o, ho, hs⟩
  have hP : P.owed ≤ 1 := by cases P <;> simp [Phase.owed]
  omega

/-- No log entry of a move is a tally after a settlement. -/
theorem Act.settled_last (act : Act) :
    act.trace.Pairwise fun o o' => o.isSettled = true → o'.isTallied = false := by
  have hrun : ∀ (r : Ran) (i : Nat) (o : Obs), o ∈ r.trace i → o.isTallied = false := by
    intro r i o ho
    rcases List.mem_cons.mp ho with rfl | ho
    · rfl
    · obtain ⟨j, _, rfl⟩ := List.mem_map.mp ho
      rfl
  -- only the first entry of a trace is a tally
  have htail : ∀ o ∈ act.trace.tail, o.isTallied = false := by
    cases act
    case executedNow i burned r => simpa [Act.trace, Obs.isTallied, or_imp, forall_and] using hrun r i
    case executed sp r =>
      intro o ho
      have ho := List.mem_of_mem_tail ho
      rcases List.mem_append.mp ho with ho | ho
      · exact hrun r _ o ho
      · rcases List.mem_pair.mp ho with rfl | rfl <;> rfl
    case undecodable i active reason => cases active <;> simp [Act.trace, Act.log, Obs.isTallied]
    all_goals simp [Act.trace, Act.log, Obs.isTallied]
  generalize act.trace = l at htail
  cases l with
  | nil => exact .nil
  | cons o l =>
    refine List.pairwise_cons.mpr ⟨fun o' ho' _ => htail o' ho', ?_⟩
    exact List.pairwise_of_forall_mem_list fun o' _ o'' ho'' _ => htail o'' ho''

/-- No tally of a proposal follows the settlement of its deposits. -/
theorem History.settled_last (h : History id P Bs P') :
    (about id (logOf Bs)).Pairwise fun o o' => o.isSettled = true → o'.isTallied = false := by
  induction Bs generalizing P with
  | nil => exact .nil
  | cons b Bs ih =>
    obtain ⟨Q, hb, hrest⟩ := Steps.cons_iff.mp h
    rw [about_logOf_cons, List.pairwise_append]
    refine ⟨?_, ih hrest, fun o ho o' ho' hs => ?_⟩
    · cases hb with
      | idle hlog => rw [hlog]; exact .nil
      | move _ _ hlog => rw [hlog]; exact Act.settled_last _
    · have howed := hb.owed_of_settled ho hs
      obtain ⟨hmem, hid⟩ := mem_about.mp ho'
      obtain ⟨c, hc, hmem⟩ := mem_logOf.mp hmem
      cases ht : o'.isTallied with
      | false => rfl
      | true =>
        cases o' with
        | tallied i passes =>
          cases hid
          exact absurd hmem (History.no_tally hrest howed hc passes)
        | _ => cases ht

end Histories

/-! ## A call -/

section Calls
variable {b : Block} {x x₁ x₂ y : Tracked Any Rest} {as as₁ as₂ as₃ : List Act} {id : Nat} {t : Time}

/-- Turns about other proposals let a proposal evolve. -/
theorem turns_evolve (h : Steps (Turned b) x as y) (hid : ∀ act ∈ as, act.id ≠ id) :
    x.state.world.EvolvesInBlock b.ctx.time (· = id) y.state.world := by
  induction h with
  | nil x => exact .refl _ _ _
  | @cons x u y act as hact _ ih =>
    have hne := hid act List.mem_cons_self
    exact (hact.turn.world.mono fun i hi => by rw [hi]; exact Ne.symm hne).trans
      (ih fun a ha => hid a (List.mem_cons_of_mem _ ha))

theorem Loop.evolves (h : Loop b x as y) (hid : actsOf id as = []) :
    x.state.world.EvolvesInBlock b.ctx.time (· = id) y.state.world :=
  turns_evolve h.turns fun act hact he => by
    have hin : act ∈ actsOf id as := List.mem_filter.mpr ⟨hact, by simpa using he⟩
    rw [hid] at hin
    cases hin

theorem Loop.proposalID_le (h : Loop b x as y) :
    x.state.world.proposalID ≤ y.state.world.proposalID :=
  h.turns.relation (fun x y : Tracked Any Rest => x.state.world.proposalID ≤ y.state.world.proposalID)
    (fun _ => le_refl _) (fun _ _ _ => le_trans) fun _ _ _ hact => hact.turn.world.proposalID

/-- A loop around one of its turns. -/
theorem Loop.around (h : Loop b x as y) {act : Act} (hact : act ∈ as) :
    ∃ u v, x.state.world.EvolvesInBlock b.ctx.time (· = act.id) u.state.world ∧ Turned b u act v ∧
      v.state.world.EvolvesInBlock b.ctx.time (· = act.id) y.state.world := by
  obtain ⟨as₁, as₂, u, v, rfl, h₁, hturn, h₂⟩ := h.turns.of_mem hact
  have hnd := h.nodup
  rw [List.map_append, List.map_cons, List.nodup_middle, List.nodup_cons] at hnd
  have hne : ∀ a ∈ as₁ ++ as₂, a.id ≠ act.id := fun a ha he =>
    hnd.1 (by rw [← List.map_append]; exact List.mem_map.mpr ⟨a, ha, he⟩)
  exact ⟨u, v, turns_evolve h₁ fun a ha => hne a (List.mem_append_left _ ha), hturn,
    turns_evolve h₂ fun a ha => hne a (List.mem_append_right _ ha)⟩

theorem Requeued.evolve {w w' : World Any Rest} {now : Time} {S : Nat → Prop}
    (h : Requeued w id t) (hi : S id) (hlt : id < w.proposalID) (hev : w.EvolvesInBlock now S w') :
    Requeued w' id t where
  only := fun ht => h.only (hev.slot_old hi hlt (fun t' ht' => by cases (h.only ht').1) ht)
  slot := by
    rcases h.slot with hslot | hnone
    · exact (hev.active_kept hi hslot).imp_right And.left
    · exact .inr (hev.stored_none hi hlt hnone)

/-- A turn adds no entry to the inactive queue that is due. -/
theorem Turned.inactive_due {act : Act} (h : Turned b x act y)
    (hx : ∀ id t, x.state.world.Slot .inactive id t → b.ctx.time < t) :
    ∀ id t, y.state.world.Slot .inactive id t → b.ctx.time < t := by
  intro id t ht
  by_cases hid : id = act.id
  · obtain ⟨P', hmove, hphase⟩ := h.move
    have hP' : y.phase id = P' := by rw [hphase, hid, Function.update_self]
    have hholds := y.sim.holds id
    cases hP : P' with
    | unresolved c =>
      -- the one move to an unresolved phase is a conversion
      rw [hP] at hmove
      obtain ⟨i, start, period, rfl⟩ := hmove.to_unresolved
      subst hid
      cases ((h.requeued rfl).only ht).1
    | waiting e =>
      rw [hP', hP] at hholds
      exact absurd ht (hholds.2.1 _ _)
    | closed =>
      rw [hP', hP] at hholds
      exact absurd ht (hholds.2.1 _ _)
  · rcases h.turn.world.inactive_new hid ht with ht | ⟨_, hlt⟩
    · exact hx id t ht
    · exact hlt

/-- An entry of a queue that is due has its turn in the loop over the queue. -/
theorem due_act {R : Pair → St Any Rest → Act → St Any Rest → Prop} {L : List (Pair × Act)}
    {queue : KeySet Pair} (hL : Steps (fun u l v => R l.1 u l.2 v) s L s')
    (hid : ∀ {key u act v}, R key u act v → act.id = key.k2)
    (hdue : L.map Prod.fst = queue.filter (untilPair b.ctx.time)) (ht : ⟨t, id⟩ ∈ queue)
    (hle : t ≤ b.ctx.time) : actsOf id (acts L) ≠ [] := by
  have hmem : (⟨t, id⟩ : Pair) ∈ L.map Prod.fst := by
    rw [hdue]
    exact KeySet.mem_filter.mpr ⟨ht, untilPair_iff.mpr hle⟩
  obtain ⟨l, hl, hkey⟩ := List.mem_map.mp hmem
  obtain ⟨u, v, hstep⟩ := turn_of_mem hL hl
  have hin : l.2 ∈ actsOf id (acts L) :=
    List.mem_filter.mpr ⟨List.mem_map.mpr ⟨l, hl, rfl⟩, by simp [hid hstep, hkey]⟩
  exact List.ne_nil_of_mem hin

/-- The inactive queue has no entry that is due once the loop over it is done. -/
theorem Call.inactive_due {L₁ : List (Pair × Act)} (h : Call b x x₁ x₂ y (acts L₁) as₂ as₃)
    (hL : Steps (fun u l v => InactiveStep k b.ctx l.1 u l.2 v) x.state L₁ x₁.state)
    (hdue : L₁.map Prod.fst = x.state.world.inactiveProposalsQueue.filter (untilPair b.ctx.time)) :
    ∀ id t, y.state.world.Slot .inactive id t → b.ctx.time < t := by
  have h₁ : ∀ id t, x₁.state.world.Slot .inactive id t → b.ctx.time < t := by
    intro id t ht
    by_contra hle
    by_cases hid : actsOf id (acts L₁) = []
    · rcases (h.inactive.evolves hid).inactive_new rfl ht with hold | ⟨_, hlt⟩
      · exact due_act hL InactiveStep.id_eq hdue hold (not_lt.mp hle) hid
      · exact hle hlt
    · have hholds := x₁.sim.holds id
      rw [h.inactive.inactive_closed b hL hid] at hholds
      exact hholds.2.1 _ _ ht
  have hinv : ∀ {u v : Tracked Any Rest} {as : List Act}, Loop b u as v →
      (∀ id t, u.state.world.Slot .inactive id t → b.ctx.time < t) →
      ∀ id t, v.state.world.Slot .inactive id t → b.ctx.time < t := fun hloop =>
    hloop.turns.invariant (fun u => ∀ id t, u.state.world.Slot .inactive id t → b.ctx.time < t)
      fun _ _ _ _ hI hact => hact.inactive_due hI
  exact hinv h.matured (hinv h.tallies h₁)

/-- A proposal that a call resolved: it is in no queue, and x/gov was asked once to refund or
burn its deposits, where the log has it. -/
def Resolved (k : GovKeeper Any Msg Rest) (ctx : Ctx) (id : Nat) (s s' : St Any Rest) : Prop :=
  s'.world.NoSlot id ∧ (about id s'.log).countP Obs.isSettled = 1 ∧
    ∃ burned pre post u v, s'.log = pre ++ .settled id burned :: post ∧
      Calls k ctx s.world pre u ∧ Settles k ctx id burned u v ∧ Calls k ctx v post s'.world

/-- An expedited proposal that a call put back as a regular one, with its deposits not settled:
its end time is the voting start of the record that was stored plus the voting period of the
parameters that were in force. -/
def PutBack (k : GovKeeper Any Msg Rest) (ctx : Ctx) (id : Nat) (s s' : St Any Rest) : Prop :=
  ∃ start period pre post u p params, s'.log = pre ++ .requeued id start period :: post ∧
    Calls k ctx s.world pre u ∧ u.getProposal id = .found p ∧ p.expedited = true ∧
    p.votingStartTime = some start ∧ u.params = some params ∧ params.votingPeriod = some period ∧
    Calls k ctx (u.setActive ⟨start + period, id⟩) post s'.world ∧
    Requeued s'.world id (start + period) ∧
    (∀ p', s'.world.stored id = some p' → p'.expedited = false) ∧
    (∀ p', s'.world.getProposal id = .found p' → p'.votingEndTime = some (start + period)) ∧
    (about id s'.log).countP Obs.isSettled = 0

/-- A proposal that a hook of another one deleted before its queue was read. -/
def Deleted (id : Nat) (s : St Any Rest) : Prop :=
  s.world.NoSlot id ∧ s.world.stored id = none ∧ about id s.log = []

/-- An unresolved proposal that a call resolves. -/
theorem Call.resolved (h : Call b x x₁ x₂ y as₁ as₂ as₃)
    (hlog : b.log = (as₁ ++ as₂ ++ as₃).flatMap Act.log) (hy : y.state.log = b.log)
    (hcalls : Calls k b.ctx x.state.world b.log y.state.world)
    (hP : ∃ c, x.phase id = .unresolved c) (hdone : ∀ c, y.phase id ≠ .unresolved c) :
    Resolved k b.ctx id x.state y.state := by
  obtain ⟨c, hc⟩ := hP
  have hcount := (h.told hlog id).settled
  have hholds := y.sim.holds id
  rw [hc] at hcount
  have hdone' : y.state.world.NoSlot id ∧ (about id b.log).countP Obs.isSettled = 1 := by
    cases hq : y.phase id with
    | unresolved c' => exact absurd hq (hdone c')
    | waiting e =>
      rw [hq] at hcount hholds
      exact ⟨hholds.2.1, hcount⟩
    | closed =>
      rw [hq] at hcount hholds
      exact ⟨hholds.2.1, hcount⟩
  obtain ⟨hno, hone⟩ := hdone'
  -- the one settlement is a call
  obtain ⟨o, ho, hs⟩ := List.countP_pos_iff.mp (Nat.lt_of_lt_of_eq Nat.zero_lt_one hone.symm)
  obtain ⟨hmem, hid⟩ := mem_about.mp ho
  obtain ⟨burned, rfl⟩ : ∃ burned, o = .settled id burned := by
    cases o with
    | settled i burned =>
      cases hid
      exact ⟨burned, rfl⟩
    | _ => cases hs
  obtain ⟨pre, post, u, v, hsplit, hpre, hsettles, hpost⟩ := hcalls.of_settled hmem
  exact ⟨hno, hy ▸ hone, burned, pre, post, u, v, hy.trans hsplit, hpre, hsettles, hpost⟩

/-- A proposal that was due in the inactive queue is resolved. -/
theorem Call.of_inactive {L₁ : List (Pair × Act)} (h : Call b x x₁ x₂ y (acts L₁) as₂ as₃)
    (hL : Steps (fun u l v => InactiveStep k b.ctx l.1 u l.2 v) x.state L₁ x₁.state)
    (hdue : L₁.map Prod.fst = x.state.world.inactiveProposalsQueue.filter (untilPair b.ctx.time))
    (hlog : b.log = (acts L₁ ++ as₂ ++ as₃).flatMap Act.log) (hy : y.state.log = b.log)
    (hcalls : Calls k b.ctx x.state.world b.log y.state.world)
    (ht : x.state.world.Slot .inactive id t) (hle : t ≤ b.ctx.time) :
    Resolved k b.ctx id x.state y.state := by
  refine h.resolved hlog hy hcalls (x.sim.unresolved_of_slot ht) fun c hc => ?_
  have hclosed := h.inactive.inactive_closed b hL (due_act hL InactiveStep.id_eq hdue ht hle)
  -- nothing happens to it in the other two loops
  have hstay : ∀ {u v : Tracked Any Rest} {as : List Act}, Loop b u as v →
      u.phase id = .closed → v.phase id = .closed := by
    intro u v as hloop hu
    have hturn := hloop.turn b id
    rw [hu] at hturn
    generalize v.phase id = Q, actsOf id as = l at hturn ⊢
    cases hturn with
    | idle => rfl
    | move hm => cases hm
  rw [hstay h.matured (hstay h.tallies hclosed)] at hc
  cases hc

section Active
variable {L₁ L₂ : List (Pair × Act)} {L₃ : List (ScheduledProposal × Act)} {fallbackDelay : Duration}

/-- A proposal that was due in the active queue and had no turn was deleted before the queue was
read. -/
theorem Call.deleted_of_idle (h : Call b x x₁ x₂ y (acts L₁) (acts L₂) (acts L₃))
    (hS : EndBlockSteps k b.ctx fallbackDelay x.state L₁ L₂ L₃ x₁.state x₂.state y.state)
    (hlog : b.log = (acts L₁ ++ acts L₂ ++ acts L₃).flatMap Act.log) (hy : y.state.log = b.log)
    (ht : x.state.world.Slot .active id t) (hle : t ≤ b.ctx.time)
    (hnone : actsOf id (acts L₁ ++ acts L₂ ++ acts L₃) = []) : Deleted id y.state := by
  have hall := hnone
  rw [actsOf_append, actsOf_append, List.append_eq_nil_iff, List.append_eq_nil_iff] at hnone
  obtain ⟨⟨hno₁, hno₂⟩, hno₃⟩ := hnone
  have hev₁ := h.inactive.evolves hno₁
  have hev₂ := (h.tallies.evolves hno₂).trans (h.matured.evolves hno₃)
  have hwf := x.sim.wf.proposal id
  have hlt := (hwf.slot_id ht).2
  have hlt₁ : id < x₁.state.world.proposalID := hlt.trans_le hev₁.proposalID
  have hgone : ¬ x₁.state.world.Slot .active id t := fun ht₁ =>
    due_act hS.tallies TallyStep.id_eq hS.tallies_due ht₁ hle hno₂
  have hinactive : ∀ t', ¬ x.state.world.Slot .inactive id t' := fun t' ht' => by
    cases (hwf.one_slot ht' ht).1
  have hnoslot : x₁.state.world.NoSlot id := by
    intro q t' ht'
    obtain ⟨rfl, rfl⟩ := hwf.one_slot (hev₁.slot_old rfl hlt hinactive ht') ht
    exact hgone ht'
  have hstored : x₁.state.world.stored id = none := by
    rcases hev₁.active_kept rfl ht with ht₁ | ⟨hstored, _⟩
    · exact absurd ht₁ hgone
    · exact hstored
  refine ⟨hev₂.noSlot rfl hlt₁ hnoslot, hev₂.stored_none rfl hlt₁ hstored, ?_⟩
  rw [hy, hlog, about_flatMap_log, hall]
  rfl

/-- Only the loop over the active queue converts a proposal. -/
theorem EndBlockSteps.converts {start : Time} {period : Duration}
    (hS : EndBlockSteps k b.ctx fallbackDelay x.state L₁ L₂ L₃ x₁.state x₂.state y.state)
    (hall : actsOf id (acts L₁ ++ acts L₂ ++ acts L₃) = [.converted id start period]) :
    .converted id start period ∈ acts L₂ ∧ actsOf id (acts L₃) = [] := by
  have hmem : ∀ {as}, actsOf id as = [.converted id start period] →
      .converted id start period ∈ as := fun has =>
    (List.mem_filter.mp (has ▸ List.mem_cons_self)).1
  rw [actsOf_append, actsOf_append] at hall
  rcases List.append_eq_singleton_iff.mp hall with ⟨_, h₃⟩ | ⟨h₁₂, h₃⟩
  · obtain ⟨l, hl, he⟩ := List.mem_map.mp (hmem h₃)
    obtain ⟨u, v, hstep⟩ := turn_of_mem (R := MaturedStep k b.ctx) hS.matured hl
    rcases hstep.act_eq with ⟨_, he'⟩ | ⟨_, he'⟩ <;> rw [he] at he' <;> cases he'
  · rcases List.append_eq_singleton_iff.mp h₁₂ with ⟨_, h₂⟩ | ⟨h₁, _⟩
    · exact ⟨hmem h₂, h₃⟩
    · obtain ⟨l, hl, he⟩ := List.mem_map.mp (hmem h₁)
      obtain ⟨u, v, hstep⟩ := turn_of_mem (R := InactiveStep k b.ctx) hS.inactive hl
      rcases hstep.act_eq with ⟨_, he'⟩ | ⟨_, he'⟩ <;> rw [he] at he' <;> cases he'

/-- A conversion puts the proposal back. -/
theorem Call.putBack_of_converted {start : Time} {period : Duration} {c c' : Bool}
    (h : Call b x x₁ x₂ y (acts L₁) (acts L₂) (acts L₃))
    (hS : EndBlockSteps k b.ctx fallbackDelay x.state L₁ L₂ L₃ x₁.state x₂.state y.state)
    (hlog : b.log = (acts L₁ ++ acts L₂ ++ acts L₃).flatMap Act.log) (hy : y.state.log = b.log)
    (hcalls : Calls k b.ctx x.state.world b.log y.state.world)
    (hlt : id < x.state.world.proposalID) (hx : x.phase id = .unresolved c)
    (hphase : y.phase id = .unresolved c')
    (hall : actsOf id (acts L₁ ++ acts L₂ ++ acts L₃) = [.converted id start period])
    (hmove : Move b (.unresolved c) (.converted id start period) (.unresolved c')) :
    PutBack k b.ctx id x.state y.state := by
  obtain ⟨_, hconv⟩ := hmove.of_converted
  obtain ⟨hact, hno₃⟩ := hS.converts hall
  obtain ⟨u, v, hev₁, hturned, hev₂⟩ := h.tallies.around hact
  have hltv : id < v.state.world.proposalID :=
    ((hlt.trans_le h.inactive.proposalID_le).trans_le hev₁.proposalID).trans_le
      hturned.turn.world.proposalID
  have hreq := ((hturned.requeued rfl).evolve (S := (· = id)) rfl hltv hev₂).evolve
    (S := (· = id)) rfl (hltv.trans_le hev₂.proposalID) (h.matured.evolves hno₃)
  have hcount := (h.told hlog id).settled
  have hholds := y.sim.holds id
  rw [hx, hphase] at hcount
  rw [hphase, hconv] at hholds
  have hmem : .requeued id start period ∈ b.log := by
    rw [hlog, List.flatMap_append, List.flatMap_append]
    refine List.mem_append_left _ (List.mem_append_right _ (List.mem_flatMap.mpr ⟨_, hact, ?_⟩))
    simp [Act.log]
  obtain ⟨pre, post, w, p, params, hsplit, hpre, hp, hexp, hstart, hparams, hperiod, hpost⟩ :=
    hcalls.of_requeued hmem
  refine ⟨start, period, pre, post, w, p, params, hy.trans hsplit, hpre, hp, hexp, hstart,
    hparams, hperiod, hpost, hreq, (hholds.2 rfl).2, fun p' hp' => ?_, ?_⟩
  · -- the record that is in the queue again names the end time it is there under
    rcases hreq.slot with hslot | hnone
    · exact (y.sim.wf.proposal id).voting_end hslot hp'
    · rw [World.stored_of_found hp'] at hnone
      cases hnone
  · rw [hy]
    simpa [Phase.owed] using hcount

/-- A proposal that was due in the active queue is resolved or put back, or was deleted before
the queue was read. -/
theorem Call.of_active (h : Call b x x₁ x₂ y (acts L₁) (acts L₂) (acts L₃))
    (hS : EndBlockSteps k b.ctx fallbackDelay x.state L₁ L₂ L₃ x₁.state x₂.state y.state)
    (hlog : b.log = (acts L₁ ++ acts L₂ ++ acts L₃).flatMap Act.log) (hy : y.state.log = b.log)
    (hcalls : Calls k b.ctx x.state.world b.log y.state.world)
    (ht : x.state.world.Slot .active id t) (hle : t ≤ b.ctx.time) :
    Resolved k b.ctx id x.state y.state ∨ PutBack k b.ctx id x.state y.state ∨
      Deleted id y.state := by
  obtain ⟨c, hc⟩ := x.sim.unresolved_of_slot ht
  by_cases hdone : ∀ c, y.phase id ≠ .unresolved c
  · exact .inl (h.resolved hlog hy hcalls ⟨c, hc⟩ hdone)
  obtain ⟨c', hc'⟩ := not_forall.mp hdone
  have hc' := not_not.mp hc'
  have hturn := h.turn id
  rw [hc, hc'] at hturn
  generalize hall : actsOf id (acts L₁ ++ acts L₂ ++ acts L₃) = all at hturn
  cases hturn with
  | idle => exact .inr (.inr (h.deleted_of_idle hS hlog hy ht hle hall))
  | @move act _ hm =>
    -- the one move that leaves it unresolved is a conversion
    obtain ⟨i, start, period, rfl⟩ := hm.to_unresolved
    obtain rfl : i = id := by
      have hin : Act.converted i start period ∈ actsOf id (acts L₁ ++ acts L₂ ++ acts L₃) :=
        hall ▸ List.mem_cons_self
      exact of_decide_eq_true (List.mem_filter.mp hin).2
    have hlt := ((x.sim.wf.proposal i).slot_id ht).2
    exact .inr (.inl (h.putBack_of_converted hS hlog hy hcalls hlt hc hc' hall hm))

end Active

end Calls

/-- **Resolution and settlement are exactly once.** Over a run the deposits of a proposal are
settled at most once and it is put back at most once; no tally of it follows the settlement, and
once settled it is in no queue. What the log of each block says, the settlements above all, was
called in that order, each call on what the one before it left. A further call leaves no due entry
in the inactive queue and resolves every proposal that was due in it, with one call that refunds or
burns its deposits; one that was due in the active queue it resolves or puts back, at its voting
start plus the voting period in force, unless it was deleted before the queue was read. -/
theorem deposits_settled_once (k : GovKeeper Any Msg Rest) (mm : Manager Any Rest) (hk : k.Lawful)
    (hmm : mm.Lawful) (hstart : Start s) (hwf : s.world.WF) (h : Run k mm Ruled s Bs s') :
    (∀ id, (about id (logOf Bs)).countP Obs.isSettled ≤ 1 ∧
      (about id (logOf Bs)).countP Obs.isRequeued ≤ 1 ∧
      ((about id (logOf Bs)).Pairwise fun o o' => o.isSettled = true → o'.isTallied = false) ∧
      ((about id (logOf Bs)).countP Obs.isSettled = 1 → s'.world.NoSlot id)) ∧
    (∀ pre b post, Bs = pre ++ b :: post → ∃ u s₀ v, Run k mm Ruled s pre u ∧
      BeforeEndBlock mm Ruled b.ctx u s₀ ∧ Calls k b.ctx s₀.world b.log v.world ∧
      Run k mm Ruled v post s') ∧
    ∀ ctx s₀ s₁, BeforeEndBlock mm Ruled ctx s' s₀ → endBlock k ctx s₀ = .ok () s₁ →
      Calls k ctx s₀.world s₁.log s₁.world ∧
      (∀ id t, s₁.world.Slot .inactive id t → ctx.time < t) ∧
      (∀ id t, s₀.world.Slot .inactive id t → t ≤ ctx.time → Resolved k ctx id s₀ s₁) ∧
      ∀ id t, s₀.world.Slot .active id t → t ≤ ctx.time →
        Resolved k ctx id s₀ s₁ ∨ PutBack k ctx id s₀ s₁ ∨ Deleted id s₁ := by
  obtain ⟨φ, hsim, _⟩ := hstart.sim hwf
  obtain ⟨φ', hsim', hhist⟩ := h.histories hk hmm hsim
  refine ⟨fun id => ?_, fun pre b post hBs => (hBs ▸ h).block_calls hk hmm,
    fun ctx s₀ s₁ hbefore hend => ?_⟩
  · have hsettled := (hhist id).settled
    have hreq := (hhist id).requeued_le
    -- at the start a proposal owes one settlement and one conversion at most
    have howed : (φ id).owed ≤ 1 := by cases φ id <;> simp [Phase.owed]
    have hconv : (φ id).conversions ≤ 1 := by
      cases φ id with
      | unresolved c => cases c <;> simp [Phase.conversions]
      | _ => simp [Phase.conversions]
    refine ⟨by omega, by omega, (hhist id).settled_last, fun hone => ?_⟩
    have hholds := hsim'.holds id
    cases hq : φ' id with
    | unresolved c =>
      rw [hq, Phase.owed] at hsettled
      omega
    | waiting e =>
      rw [hq] at hholds
      exact hholds.2.1
    | closed =>
      rw [hq] at hholds
      exact hholds.2.1
  · -- the further call is one more block, with the log it leaves
    obtain ⟨L₁, L₂, L₃, u₁, u₂, hS⟩ := endBlocker_steps hend
    let b : Block := ⟨ctx, s₀.timelock.isActive ctx.height,
      s₀.timelock.getExecutionDelay minimumDelay, s₁.log⟩
    obtain ⟨x₁, x₂, y, rfl, rfl, rfl, hcall⟩ := endBlocker_call b
      (x := ⟨φ', s₀, hsim'.before hmm hbefore⟩) hk hS rfl rfl
      (Timelock.getExecutionDelay_pos Timelock.minimumDelay_pos)
    have hlog : b.log = (acts L₁ ++ acts L₂ ++ acts L₃).flatMap Act.log := by
      show y.state.log = _
      rw [hS.log_eq, (hbefore.schedule_eq hmm).2.2.2.1, List.nil_append]
    have hcalls := hbefore.calls hk hmm hend
    exact ⟨hcalls, hcall.inactive_due hS.inactive hS.inactive_due,
      fun id t => hcall.of_inactive hS.inactive hS.inactive_due hlog rfl hcalls,
      fun id t => hcall.of_active hS hlog rfl hcalls⟩

/-- The deposits of a proposal that is tallied and executed are settled over these two blocks, and
by one call in the block of its tally. -/
theorem deferred_deposits_settled :
    (about 7 (logOf [tallyBlock, executionBlock])).countP Obs.isSettled ≤ 1 ∧
    let s₁ := tallied (votingState [(7, 10)]) 7 10 10 tallyBlock.log
    Resolved passingKeeper tallyBlock.ctx 7 (votingState [(7, 10)]) s₁ := by
  have hwf : (votingWorld [(7, 10)]).WF := votingWorld_wf (by decide) (by decide)
  refine ⟨((deposits_settled_once passingKeeper govtimelockManager passingKeeper_lawful
    govtimelockManager_lawful (votingState_start _) hwf deferred_run).1 7).1, ?_⟩
  obtain ⟨_, _, _, hactive⟩ := (deposits_settled_once passingKeeper govtimelockManager
    passingKeeper_lawful govtimelockManager_lawful (votingState_start _) hwf
    ⟨.nil (votingState [(7, 10)]), .nil⟩).2.2 tallyBlock.ctx _ _ (.transactions ⟨id, .refl _ _ _⟩)
    tallyBlock_ends
  rcases hactive 7 10 (votingWorld_slot.mpr ⟨rfl, by simp⟩) (le_refl _) with
    hresolved | ⟨start, period, pre, post, _, _, _, hlog, _⟩ | ⟨_, _, hnone⟩
  · exact hresolved
  · -- the proposal passed, so it was not put back
    have hmem : .requeued 7 start period ∈ (tallied (votingState [(7, 10)]) 7 10 10 tallyBlock.log).log := by
      rw [hlog]
      simp
    simp [tallied, tallyBlock, Act.log] at hmem
  · exact absurd hnone (by decide)

end Ark.GovTimelock
