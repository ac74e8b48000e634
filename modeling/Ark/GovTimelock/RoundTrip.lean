import Ark.GovTimelock.Import

/- Exporting a genesis and importing it.

   `ExportGenesis` writes an unset activation height as 0 and an unset delay as the
   minimum, and `InitGenesis` writes neither for a value that is not positive. What
   makes the round trip work is what holds of the store after any run
   (`Run.exportable`): its times can be written, its items are positive and fit their
   types, and it is active if anything is scheduled; and that every entry names a
   passed proposal, once, which is the history of its proposal. -/
namespace Ark.GovTimelock
open Ark.Lib Ark.Gov World Effect

variable {Any Msg Rest : Type} {k : GovKeeper Any Msg Rest} {mm : Manager Any Rest}
  {s s' : St Any Rest} {Bs : List Block} {ctx : Ctx} {fallbackDelay : Duration}

/-- What every step keeps of a store. -/
structure Timelock.Exportable (t : Timelock) : Prop where
  times : ∀ {id e}, t.Entry id e → HasTimeKey e ∧ e ≠ zeroTime
  ids_pos : ∀ {id e}, t.Entry id e → 0 < id
  activated : ∀ {id e}, t.Entry id e → t.activationHeight ≠ none
  activation : ∀ {a}, t.activationHeight = some a → 0 < a ∧ a < 2 ^ 63
  delay : ∀ {d}, t.executionDelay = some d → 0 < d ∧ d < 2 ^ 63

theorem Timelock.Exportable.consistent {t : Timelock} (h : t.Exportable)
    (hone : ∀ {id e e'}, t.Entry id e → t.Entry id e' → e = e') : t.Consistent where
  one_entry := hone
  activated := by
    intro id e he
    obtain ⟨a, ha⟩ := Option.ne_none_iff_exists'.mp (h.activated he)
    exact ⟨a, ha, (h.activation ha).1⟩
  times := fun he => (h.times he).2
  ids_pos := h.ids_pos
  activation_nonneg := fun ha => (h.activation ha).1.le
  delay_nonneg := fun hd => (h.delay hd).1.le

/-! ## What is kept -/

theorem Timelock.Exportable.remove {t : Timelock} (h : t.Exportable) (e : Time) (id : Nat) :
    (t.remove e id).Exportable where
  times := fun he => h.times (KeySet.mem_remove.mp he).1
  ids_pos := fun he => h.ids_pos (KeySet.mem_remove.mp he).1
  activated := fun he => h.activated (KeySet.mem_remove.mp he).1
  activation := h.activation
  delay := h.delay

/-- A tally keeps it, since the entry it may add is for a proposal of the queue, one delay after
the block, and the timelock is active then. -/
theorem TallyStep.exportable
    {run : Nat → Msg → World Any Rest → Except String (Option (List SdkEvent) × World Any Rest)}
    {active : Bool} {prop : Pair} {act : Act}
    (h : TallyStep k run ctx fallbackDelay active prop s act s') (hpos : 0 < fallbackDelay)
    (hid : 0 < prop.k2) (hactive : active = true → s.timelock.activationHeight ≠ none)
    (hs : s.timelock.Exportable) : s'.timelock.Exportable := by
  cases h
  case scheduled e _ _ ha _ he hk _ =>
    have hlater : zeroTime < e := by
      have hdelay := s.timelock.getExecutionDelay_pos hpos
      rw [he]
      exact Int.add_pos_of_nonneg_of_pos ctx.time_nonneg hdelay
    refine ⟨fun hmem => ?_, fun hmem => ?_, fun _ => hactive ha, hs.activation, hs.delay⟩
    · rcases KeySet.mem_set.mp hmem with hkey | hmem
      · cases hkey
        exact ⟨hk, ne_of_gt hlater⟩
      · exact hs.times hmem
    · rcases KeySet.mem_set.mp hmem with hkey | hmem
      · cases hkey
        exact hid
      · exact hs.ids_pos hmem
  all_goals exact hs

theorem BeforeEndBlock.exportable {E : Ctx → World Any Rest → World Any Rest → Prop}
    (hmm : mm.Lawful) (h : BeforeEndBlock mm E ctx s s') (hs : s.timelock.Exportable) :
    s'.timelock.Exportable := by
  cases h with
  | transactions _ => exact hs
  | upgrade hup _ =>
    obtain ⟨ht, _, _⟩ := v8_5.handler_ok hmm hup
    simp only [ht]
    refine ⟨hs.times, hs.ids_pos, fun _ => nofun, fun ha => ?_, hs.delay⟩
    cases ha
    exact ⟨ctx.height_pos, ctx.height_lt⟩

/-- A block keeps it. -/
theorem BlockStep.exportable (hk : k.Lawful) (hmm : mm.Lawful) {b : Block} {φ : Nat → Phase}
    (hsim : Sim s φ) (h : BlockStep k mm Ruled s b s') (hs : s.timelock.Exportable) :
    s'.timelock.Exportable := by
  obtain ⟨s₀, hbefore, hend, _, hactive, hdelay⟩ := h
  have hs₀ := hbefore.exportable hmm hs
  obtain ⟨L₁, L₂, L₃, s₁, s₂, hS⟩ := endBlocker_steps hend
  obtain ⟨x₁, _, _, rfl, _, _, _⟩ := endBlocker_call b (x := ⟨φ, s₀, hsim.before hmm hbefore⟩) hk hS
    hactive hdelay (hdelay ▸ Timelock.getExecutionDelay_pos Timelock.minimumDelay_pos)
  -- the proposals that are tallied are those of the queue
  have hids : ∀ l ∈ L₂, 0 < l.1.k2 := fun l hl =>
    ((x₁.sim.wf.proposal _).slot_id (q := .active)
      (KeySet.mem_filter.mp (hS.tallies_due ▸ List.mem_map.mpr ⟨l, hl, rfl⟩)).1).1
  have hset : s₀.timelock.isActive b.ctx.height = true → s₀.timelock.activationHeight ≠ none := by
    intro ha
    obtain ⟨a, ha, _⟩ := Timelock.isActive_iff.mp ha
    rw [ha]
    exact nofun
  have hs₂ : s₂.timelock.Exportable ∧ s₂.timelock.activationHeight = s₀.timelock.activationHeight :=
    hS.tallies.invariant
      (fun u => u.timelock.Exportable ∧ u.timelock.activationHeight = s₀.timelock.activationHeight)
      (fun u l v hl hu hstep => ⟨hstep.exportable Timelock.minimumDelay_pos (hids l hl)
        (fun ha => hu.2 ▸ hset ha) hu.1, hstep.items_eq.1.trans hu.2⟩)
      ⟨hS.timelock_eq ▸ hs₀, by rw [hS.timelock_eq]⟩
  exact hS.matured.invariant (fun u => u.timelock.Exportable)
    (fun u l v _ hu hstep => by
      rw [hstep.timelock_eq]
      exact hu.remove _ _) hs₂.1

/-- A run keeps it, and its proposals in their phases. -/
theorem Run.exportable (hk : k.Lawful) (hmm : mm.Lawful) {φ : Nat → Phase} (hsim : Sim s φ)
    (h : Run k mm Ruled s Bs s') (hs : s.timelock.Exportable) :
    s'.timelock.Exportable ∧ ∃ φ', Sim s' φ' :=
  h.steps.invariant (fun u => u.timelock.Exportable ∧ ∃ ψ, Sim u ψ)
    (fun u b v _ hu hb => by
      obtain ⟨hu, ψ, hψ⟩ := hu
      obtain ⟨ψ', _, hψ'⟩ := hb.told hk hmm hψ
      exact ⟨hb.exportable hk hmm hψ hu, ψ', hψ'⟩) ⟨hs, φ, hsim⟩

/-! ## How a chain starts -/

/-- A chain starts with a store nothing was written to, or a consistent genesis that was
imported. -/
inductive Initial : St Any Rest → Prop
  | fresh {s : St Any Rest} : s.timelock = Timelock.fresh → Initial s
  | genesis {w : World Any Rest} {log : List Obs} {bz : RawMessage} {gs : GenesisState}
      {s : St Any Rest} : unmarshalGenesis bz = .ok gs → gs.Consistent →
      initGenesis true bz ⟨w, Timelock.fresh, log⟩ = .ok () s → Initial s

theorem unmarshalInt64_lt {field type : String} {n : Option Int} {m : Int}
    (h : unmarshalInt64 field type n = .ok m) : m < 2 ^ 63 := by
  unfold unmarshalInt64 at h
  split at h
  · cases h
    decide
  · split at h
    · rename_i hfits
      cases h
      exact hfits.2
    · cases h

/-- The numbers of a decoded genesis fit their types. -/
theorem unmarshalGenesis_lt {bz : RawMessage} {gs : GenesisState} (h : unmarshalGenesis bz = .ok gs) :
    gs.activationHeight < 2 ^ 63 ∧ gs.executionDelay < 2 ^ 63 := by
  cases bz with
  | malformed err => cases h
  | object scheduled height delay =>
    simp only [unmarshalGenesis, bind, Except.bind] at h
    split at h
    · cases h
    · split at h
      · cases h
      · rename_i hheight
        split at h
        · cases h
        · rename_i hdelay
          cases h
          exact ⟨unmarshalInt64_lt hheight, unmarshalInt64_lt hdelay⟩

theorem Initial.exportable (h : Initial s) : s.timelock.Exportable := by
  cases h with
  | fresh ht =>
    rw [ht]
    exact ⟨fun he => absurd he (KeySet.not_mem_empty _), fun he => absurd he (KeySet.not_mem_empty _),
      fun he => absurd he (KeySet.not_mem_empty _), nofun, nofun⟩
  | @genesis w log bz gs s hgs hc hi =>
    obtain ⟨gs', hgs', _, ht, hgov⟩ := imported hi
    rw [hgs] at hgs'
    cases hgs'
    obtain ⟨hheight, hdelay⟩ := unmarshalGenesis_lt hgs
    rw [ht]
    refine ⟨fun he => ?_, fun he => hc.ids_pos _ (entry_withGenesis.mp he), fun he => ?_,
      fun {a} ha => ?_, fun {d} hd => ?_⟩
    · have hmem := entry_withGenesis.mp he
      exact ⟨(hgov _ hmem).1, hc.times _ hmem⟩
    · have hpos := hc.activated (List.ne_nil_of_mem (entry_withGenesis.mp he))
      rw [withGenesis_activationHeight, if_pos hpos]
      exact nofun
    · rw [withGenesis_activationHeight] at ha
      split at ha
      · rename_i hpos
        cases ha
        exact ⟨hpos, hheight⟩
      · cases ha
    · rw [withGenesis_executionDelay] at hd
      split at hd
      · rename_i hpos
        cases hd
        exact ⟨hpos, hdelay⟩
      · cases hd

theorem Initial.sim (h : Initial s) (hwf : s.world.WF) : ∃ φ, Sim s φ := by
  cases h with
  | fresh ht =>
    obtain ⟨φ, hsim, _⟩ := Sim.of_entries hwf fun id t he => by
      rw [ht] at he
      exact absurd he (KeySet.not_mem_empty _)
    exact ⟨φ, hsim⟩
  | genesis hgs hc hi =>
    obtain ⟨gs', hgs', hw, ht, _⟩ := imported hi
    rw [hgs] at hgs'
    cases hgs'
    obtain ⟨φ, hsim, _⟩ := Sim.of_entries hwf
      (imported_waiting hi (hw ▸ hwf) (ht ▸ withGenesis_consistent.mpr hc).one_entry)
    exact ⟨φ, hsim⟩

/-! ## The round trip -/

section RoundTrip
variable {t : Timelock}

/-- The exported state can be written, when the ids fit their type. -/
theorem Timelock.Exportable.encodable (h : t.Exportable) (hids : ∀ id e, t.Entry id e → id < 2 ^ 64) :
    t.toGenesis.Encodable where
  ids := fun _ hsp => hids _ _ (Timelock.mem_toGenesis.mp hsp)
  times := fun _ hsp => (h.times (Timelock.mem_toGenesis.mp hsp)).1
  activation := by
    show -2 ^ 63 ≤ t.activationHeight.getD 0 ∧ t.activationHeight.getD 0 < 2 ^ 63
    cases ha : t.activationHeight with
    | none => decide
    | some a =>
      obtain ⟨hpos, hlt⟩ := h.activation ha
      simp only [Option.getD_some]
      exact ⟨by omega, hlt⟩
  delay := by
    show -2 ^ 63 ≤ t.getExecutionDelay minimumDelay ∧ t.getExecutionDelay minimumDelay < 2 ^ 63
    have hpos := t.getExecutionDelay_pos Timelock.minimumDelay_pos
    refine ⟨le_of_lt (lt_trans (by decide) hpos), ?_⟩
    unfold Timelock.getExecutionDelay
    split
    · decide
    · rename_i d hd
      split
      · decide
      · exact (h.delay hd).2

/-- What an export of a store and an import of it into a fresh one leave. -/
theorem Timelock.Exportable.withGenesis_toGenesis (h : t.Exportable) :
    (Timelock.fresh.withGenesis t.toGenesis).scheduledProposals = t.scheduledProposals ∧
      (Timelock.fresh.withGenesis t.toGenesis).activationHeight = t.activationHeight ∧
      (Timelock.fresh.withGenesis t.toGenesis).executionDelay =
        some (t.getExecutionDelay minimumDelay) := by
  refine ⟨KeySet.ext_mem fun key => ?_, ?_, ?_⟩
  · exact entry_withGenesis.trans Timelock.mem_toGenesis
  · rw [withGenesis_activationHeight]
    show (if 0 < t.activationHeight.getD 0 then some (t.activationHeight.getD 0) else none) = _
    cases ha : t.activationHeight with
    | none => rfl
    | some a => exact if_pos (h.activation ha).1
  · rw [withGenesis_executionDelay]
    exact if_pos (t.getExecutionDelay_pos Timelock.minimumDelay_pos)

theorem getExecutionDelay_some {d fallback : Duration} (hd : t.executionDelay = some d) (hpos : 0 < d) :
    t.getExecutionDelay fallback = d := by
  unfold Timelock.getExecutionDelay
  rw [hd]
  exact if_neg (not_le.mpr hpos)

/-- The delay in force is at least the minimum when the stored one is unset or is. -/
theorem minimumDelay_le_configured (h : t.executionDelay = none ∨
    ∃ d, t.executionDelay = some d ∧ minimumDelay ≤ d) :
    minimumDelay ≤ t.getExecutionDelay minimumDelay := by
  rcases h with hd | ⟨d, hd, hle⟩
  · unfold Timelock.getExecutionDelay
    rw [hd]
  · rw [getExecutionDelay_some hd (Timelock.minimumDelay_pos.trans_le hle)]
    exact hle

end RoundTrip

/-- The entries of a store whose proposals are in their phases name passed proposals, once, by ids
that fit their type. -/
theorem Sim.entries {φ : Nat → Phase} (h : Sim s φ) {id : Nat} {e : Time}
    (he : s.timelock.Entry id e) : (∀ e', s.timelock.Entry id e' ↔ e' = e) ∧ id < 2 ^ 64 ∧
      ∃ p, s.world.stored id = some p ∧ p.status = .passed := by
  have hP := h.holds id
  rw [h.waiting_of_entry he] at hP
  exact ⟨hP.1, hP.2.2.1.trans_le h.wf.fits, hP.2.2.2⟩

/-- **Export and import.** After any run whose scheduled proposals decode, `ExportGenesis` returns,
`InitGenesis` on a fresh store over an x/gov with the same proposals returns, and the store it
writes has the same entries, is active at the same heights and has the same delay in force. What
was exported is valid when the delay is unset or at least the minimum. -/
theorem export_import (k : GovKeeper Any Msg Rest) (mm : Manager Any Rest) (hk : k.Lawful)
    (hmm : mm.Lawful) (hstart : Initial s) (hwf : s.world.WF) (h : Run k mm Ruled s Bs s')
    (hdecodes : ∀ id e, s'.timelock.Entry id e → ∃ p, s'.world.getProposal id = .found p)
    {w : World Any Rest}
    (hgov : ∀ id p, s'.world.getProposal id = .found p → w.getProposal id = .found p)
    (hasGovKeeper : Bool) (log : List Obs) :
    ∃ bz s'', exportGenesis s'.timelock = .ok bz ∧
      initGenesis hasGovKeeper bz ⟨w, Timelock.fresh, log⟩ = .ok () s'' ∧
      s''.timelock.scheduledProposals = s'.timelock.scheduledProposals ∧
      (∀ height, s''.timelock.isActive height = s'.timelock.isActive height) ∧
      s''.timelock.getExecutionDelay minimumDelay = s'.timelock.getExecutionDelay minimumDelay ∧
      ((s'.timelock.executionDelay = none ∨
          ∃ d, s'.timelock.executionDelay = some d ∧ minimumDelay ≤ d) →
        s'.timelock.toGenesis.validate = .ok () ∧ validateGenesis bz = .ok ()) := by
  obtain ⟨φ, hsim⟩ := hstart.sim hwf
  obtain ⟨hexp, φ', hsim'⟩ := h.exportable hk hmm hsim hstart.exportable
  obtain ⟨bz, hbz, hread⟩ := unmarshalGenesis_marshalGenesis
    (hexp.encodable fun id e he => (hsim'.entries he).2.1)
  obtain ⟨hsched, hact, hdelay⟩ := hexp.withGenesis_toGenesis
  -- what waits has passed, and x/gov's import keeps the record
  have hcheck : validateAgainstGov w s'.timelock.toGenesis = .ok () := by
    refine validateAgainstGov_ok.mpr fun sp hsp => ?_
    have he := Timelock.mem_toGenesis.mp hsp
    obtain ⟨p, hp⟩ := hdecodes _ _ he
    obtain ⟨_, _, q, hq, hst⟩ := hsim'.entries he
    rw [World.stored_of_found hp] at hq
    cases hq
    exact ⟨p, hgov _ _ hp, hst⟩
  have hconsistent : s'.timelock.Consistent := hexp.consistent fun he he' =>
    ((hsim'.entries he').1 _).mp he
  refine ⟨bz, _, ?_, initGenesis_ok.mpr ⟨_, hread, fun _ => hcheck, fun sp hsp =>
    (hexp.times (Timelock.mem_toGenesis.mp hsp)).1, rfl⟩, hsched, isActive_congr hact, ?_,
    fun hconf => ?_⟩
  · rw [exportGenesis, hbz]
  · exact getExecutionDelay_some hdelay (Timelock.getExecutionDelay_pos Timelock.minimumDelay_pos)
  · have hvalid := GenesisState.validate_ok.mpr
      (hconsistent.valid (.inr (minimumDelay_le_configured hconf)))
    exact ⟨hvalid, by rw [validateGenesis, hread]; exact hvalid⟩

/-- The small chain starts from the default genesis. -/
theorem importedVoting_initial (ends : List (Nat × Time)) :
    Initial { votingState ends with log := [.initGenesis] } := by
  have himport : initGenesis true (.object (some []) (some 1) (some 0))
      ⟨votingWorld ends, Timelock.fresh, []⟩ =
        .ok () { votingState ends with log := [.initGenesis] } := rfl
  exact .genesis rfl
    ⟨fun he => absurd he List.not_mem_nil, fun hne => absurd rfl hne, by simp, by simp⟩ himport

/-- A chain with a pending proposal is exported and imported. -/
theorem tallied_export_import : ∃ (bz : RawMessage) (s'' : St Unit Unit),
    exportGenesis (tallied (votingState [(7, 10)]) 7 10 10 tallyBlock.log).timelock = .ok bz ∧
    initGenesis true bz ⟨(tallied (votingState [(7, 10)]) 7 10 10 tallyBlock.log).world,
      Timelock.fresh, []⟩ = .ok () s'' ∧
    s''.timelock.Entry 7 (10 + minimumDelay) ∧ validateGenesis bz = .ok () := by
  obtain ⟨bz, s'', hbz, hinit, hsched, _, _, hvalid⟩ := export_import passingKeeper govtimelockManager
    passingKeeper_lawful govtimelockManager_lawful (importedVoting_initial _)
    (votingWorld_wf (by decide) (by decide))
    ⟨.cons (tallyBlock_step [.initGenesis]) (.nil _), List.pairwise_singleton _ _⟩
    (fun id e he => by
      rcases KeySet.mem_set.mp he with hkey | he
      · cases hkey
        exact ⟨_, getProposal_setRecord _ (passedProposal 7 10)⟩
      · exact absurd he (KeySet.not_mem_empty _))
    (fun _ _ hp => hp) true []
  refine ⟨bz, s'', hbz, hinit, ?_, (hvalid (.inl rfl)).2⟩
  unfold Timelock.Entry
  rw [hsched]
  exact KeySet.mem_set.mpr (.inl rfl)

end Ark.GovTimelock
