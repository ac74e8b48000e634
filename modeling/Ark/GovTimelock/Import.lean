import Ark.GovTimelock.Execution

/- Importing a genesis.

   `InitGenesis` checks what it reads against x/gov and not with `Validate`. A store
   is `Consistent` when it has every property `Validate` asks for besides the minimum
   delay (`Timelock.consistent_iff`). The import leaves a consistent store exactly
   when the genesis it read has these properties (`import_consistent_iff`), and then
   no imported proposal is executed twice in any run. A genesis that schedules one
   proposal at two times is imported, and its messages are executed twice
   (`doubledGenesis_executed_twice`). -/
namespace Ark.GovTimelock
open Ark.Lib Ark.Gov World Effect

/-- What `Validate` asks for besides the minimum delay, of a store. -/
structure Timelock.Consistent (t : Timelock) : Prop where
  one_entry : ∀ {id e e'}, t.Entry id e → t.Entry id e' → e = e'
  activated : ∀ {id e}, t.Entry id e → ∃ a, t.activationHeight = some a ∧ 0 < a
  times : ∀ {id e}, t.Entry id e → e ≠ zeroTime
  ids_pos : ∀ {id e}, t.Entry id e → 0 < id
  activation_nonneg : ∀ {a}, t.activationHeight = some a → 0 ≤ a
  delay_nonneg : ∀ {d}, t.executionDelay = some d → 0 ≤ d

/-- What an import needs of a genesis for that. Naming an entry twice is harmless, naming a
proposal at two times is not. -/
structure GenesisState.Consistent (gs : GenesisState) : Prop where
  one_time : ∀ {id e e'}, ⟨id, e⟩ ∈ gs.scheduledProposals → ⟨id, e'⟩ ∈ gs.scheduledProposals → e = e'
  activated : gs.scheduledProposals ≠ [] → 0 < gs.activationHeight
  times : ∀ sp ∈ gs.scheduledProposals, sp.executionTime ≠ zeroTime
  ids_pos : ∀ sp ∈ gs.scheduledProposals, 0 < sp.proposalID

section Store
variable {t : Timelock} {gs : GenesisState}

theorem Timelock.mem_toGenesis {id : Nat} {e : Time} :
    ⟨id, e⟩ ∈ t.toGenesis.scheduledProposals ↔ t.Entry id e := Timelock.mem_exportEntries

theorem Timelock.toGenesis_ids_nodup (h : ∀ {id e e'}, t.Entry id e → t.Entry id e' → e = e') :
    (t.toGenesis.scheduledProposals.map ScheduledProposal.proposalID).Nodup := by
  have hnd : t.toGenesis.scheduledProposals.Nodup := by
    refine List.Nodup.map_on (fun x _ y _ hxy => ?_) (t.scheduledProposals.filter_nodup _)
    exact congrArg ScheduledProposal.key hxy
  refine List.Nodup.map_on (fun x hx y hy hxy => ?_) hnd
  have hey := Timelock.mem_toGenesis.mp hy
  rw [← hxy] at hey
  have he := h (Timelock.mem_toGenesis.mp hx) hey
  cases x
  cases y
  simp only at hxy he
  rw [hxy, he]

/-- A consistent store is written as a genesis that is valid up to its delay. -/
theorem Timelock.Consistent.valid (h : t.Consistent) {delay : Duration}
    (hdelay : delay = 0 ∨ minimumDelay ≤ delay) :
    ({ t.toGenesis with executionDelay := delay } : GenesisState).Valid where
  delay := hdelay
  activation_nonneg := by
    show 0 ≤ t.activationHeight.getD 0
    cases ha : t.activationHeight with
    | none => exact le_refl _
    | some a => exact h.activation_nonneg ha
  activated := by
    intro hne
    obtain ⟨sp, hsp⟩ := List.exists_mem_of_ne_nil _ hne
    obtain ⟨a, ha, hpos⟩ := h.activated (Timelock.mem_toGenesis.mp hsp)
    show 0 < t.activationHeight.getD 0
    rw [ha]
    exact hpos
  ids_pos := fun _ hsp => h.ids_pos (Timelock.mem_toGenesis.mp hsp)
  times := fun _ hsp => h.times (Timelock.mem_toGenesis.mp hsp)
  ids_distinct := Timelock.toGenesis_ids_nodup h.one_entry

/-- A store is consistent exactly when its items are not negative and `Validate` accepts it with
the minimum delay in the place of its own. -/
theorem Timelock.consistent_iff : t.Consistent ↔
    ({ t.toGenesis with executionDelay := minimumDelay } : GenesisState).validate = .ok () ∧
      ∀ {d}, t.executionDelay = some d → 0 ≤ d := by
  rw [GenesisState.validate_ok]
  constructor
  · exact fun h => ⟨h.valid (.inr (le_refl _)), h.delay_nonneg⟩
  · intro ⟨h, hdelay⟩
    refine ⟨fun he he' => ?_, fun {id e} he => ?_, fun he => h.times _ (Timelock.mem_toGenesis.mpr he),
      fun he => h.ids_pos _ (Timelock.mem_toGenesis.mpr he), fun {a} ha => ?_, hdelay⟩
    · have hinj := List.inj_on_of_nodup_map h.ids_distinct (Timelock.mem_toGenesis.mpr he)
        (Timelock.mem_toGenesis.mpr he') rfl
      exact congrArg ScheduledProposal.executionTime hinj
    · have hpos : 0 < t.activationHeight.getD 0 :=
        h.activated (List.ne_nil_of_mem (Timelock.mem_toGenesis.mpr he))
      cases ha : t.activationHeight with
      | none => simp [ha] at hpos
      | some a => exact ⟨a, rfl, by simpa [ha] using hpos⟩
    · have hnonneg : 0 ≤ t.activationHeight.getD 0 := h.activation_nonneg
      simpa [ha] using hnonneg

/-- A valid genesis is consistent. -/
theorem GenesisState.Valid.consistent (h : gs.Valid) : gs.Consistent where
  one_time := fun he he' =>
    congrArg ScheduledProposal.executionTime (List.inj_on_of_nodup_map h.ids_distinct he he' rfl)
  activated := h.activated
  times := h.times
  ids_pos := h.ids_pos

theorem withGenesis_activationHeight : (Timelock.fresh.withGenesis gs).activationHeight =
    if 0 < gs.activationHeight then some gs.activationHeight else none := rfl

theorem withGenesis_executionDelay : (Timelock.fresh.withGenesis gs).executionDelay =
    if 0 < gs.executionDelay then some gs.executionDelay else none := rfl

/-- An import writes a consistent store exactly when the genesis is consistent; a height or a
delay that is not positive is not written. -/
theorem withGenesis_consistent : (Timelock.fresh.withGenesis gs).Consistent ↔ gs.Consistent := by
  have hmem : ∀ {id e}, (Timelock.fresh.withGenesis gs).Entry id e ↔
      ⟨id, e⟩ ∈ gs.scheduledProposals := entry_withGenesis
  constructor
  · intro h
    refine ⟨fun he he' => h.one_entry (hmem.mpr he) (hmem.mpr he'), fun hne => ?_,
      fun sp hsp => h.times (hmem.mpr hsp), fun sp hsp => h.ids_pos (hmem.mpr hsp)⟩
    obtain ⟨sp, hsp⟩ := List.exists_mem_of_ne_nil _ hne
    obtain ⟨a, ha, hpos⟩ := h.activated (hmem.mpr hsp)
    rw [withGenesis_activationHeight] at ha
    split at ha
    · assumption
    · cases ha
  · intro h
    refine ⟨fun he he' => h.one_time (hmem.mp he) (hmem.mp he'), fun {id e} he => ?_,
      fun he => h.times _ (hmem.mp he), fun he => h.ids_pos _ (hmem.mp he), fun {a} ha => ?_,
      fun {d} hd => ?_⟩
    · have hpos := h.activated (List.ne_nil_of_mem (hmem.mp he))
      exact ⟨gs.activationHeight, by rw [withGenesis_activationHeight, if_pos hpos], hpos⟩
    · rw [withGenesis_activationHeight] at ha
      split at ha
      · rename_i hpos
        cases ha
        exact hpos.le
      · cases ha
    · rw [withGenesis_executionDelay] at hd
      split at hd
      · rename_i hpos
        cases hd
        exact hpos.le
      · cases hd

end Store

/-! ## Runs from an import -/

variable {Any Msg Rest : Type}

/-- **What an import establishes.** The store is consistent, and no proposal is executed twice in
any run from it, exactly when the genesis gives each proposal one time, none of them zero and
no proposal the id zero, and activates the timelock if it schedules anything. -/
theorem import_consistent_iff (k : GovKeeper Any Msg Rest) (mm : Manager Any Rest) (hk : k.Lawful)
    (hmm : mm.Lawful) {w : World Any Rest} {bz : RawMessage} {log : List Obs} {s : St Any Rest}
    (hwf : w.WF) (h : initGenesis true bz ⟨w, Timelock.fresh, log⟩ = .ok () s) :
    ∃ gs, unmarshalGenesis bz = .ok gs ∧
      ((s.timelock.Consistent ∧ ∀ Bs s', Run k mm Ruled s Bs s' →
        ∀ id, (logOf Bs).count (.executing id) ≤ 1) ↔ gs.Consistent) := by
  obtain ⟨gs, hgs, hw, htl, _⟩ := imported h
  refine ⟨gs, hgs, fun hs => ?_, fun hc => ?_⟩
  · exact withGenesis_consistent.mp (htl ▸ hs.1)
  · have hs : s.timelock.Consistent := htl ▸ withGenesis_consistent.mpr hc
    refine ⟨hs, fun Bs s' hrun id => ?_⟩
    obtain ⟨φ, hsim, _⟩ := Sim.of_entries (hw ▸ hwf) (imported_waiting h hwf hs.one_entry)
    obtain ⟨_, _, hhist⟩ := hrun.histories hk hmm hsim
    exact (hhist id).executing_count_le

/-! ## A proposal at two times -/

/-- A chain whose proposal 7 has passed. -/
def passedWorld : World Unit Unit := (votingWorld []).setRecord (passedProposal 7 10)

theorem passedWorld_wf : passedWorld.WF :=
  (votingWorld_wf (by simp) (by simp)).of_agreeOff
    (setRecord_agreeOff (votingWorld []) (passedProposal 7 10))
    (.of_noSlot (fun q t ht => by
      have hslot := setRecord_slot.mp ht
      simpa using (votingWorld_slot.mp hslot).2) (by decide))

/-- An entry of a genesis file. -/
def scheduledJson (id : Int) (time : Time) (h : HasTimeKey time) : ScheduledJson :=
  ⟨some id, some ⟨time, 0, h⟩⟩

/-- A genesis with these entries that activates the timelock from height 1. -/
def activeGenesis (scheduled : List ScheduledJson) : RawMessage := .object (some scheduled) (some 1) none

/-- The store that an import of entries for proposal 7 leaves. -/
def importedState (times : List Time) : St Unit Unit where
  world := passedWorld
  timelock := Timelock.fresh.withGenesis ⟨times.map (⟨7, ·⟩), 1, 0⟩
  log := [.initGenesis]

/-- A genesis with one entry is imported to a consistent store. -/
theorem singleGenesis_consistent :
    initGenesis true (activeGenesis [scheduledJson 7 20 (by decide)]) ⟨passedWorld, Timelock.fresh, []⟩
      = .ok () (importedState [20]) ∧ (importedState [20]).timelock.Consistent := by
  have hinit : initGenesis true (activeGenesis [scheduledJson 7 20 (by decide)])
      ⟨passedWorld, Timelock.fresh, []⟩ = .ok () (importedState [20]) := rfl
  have hgenesis : (⟨[⟨7, 20⟩], 1, 0⟩ : GenesisState).Consistent :=
    ⟨fun he he' => by simp_all, by decide, by decide, by decide⟩
  obtain ⟨gs, hgs, hiff⟩ := import_consistent_iff passingKeeper govtimelockManager
    passingKeeper_lawful govtimelockManager_lawful passedWorld_wf hinit
  have hdecoded : gs = ⟨[⟨7, 20⟩], 1, 0⟩ := (Except.ok.inj hgs).symm
  rw [hdecoded] at hiff
  exact ⟨hinit, (hiff.mpr hgenesis).1⟩

/-- A genesis that schedules proposal 7 at two times. -/
def doubledGenesis : RawMessage :=
  activeGenesis [scheduledJson 7 20 (by decide), scheduledJson 7 30 (by decide)]

/-- The block in which the entry at `time` matures. -/
def maturityBlock (height time : Nat) (h : 0 < height ∧ height < 2 ^ 63 ∧ (time : Int) < year10000) :
    Block where
  ctx := blockAt height time h
  active := true
  delay := minimumDelay
  log := (Act.executed ⟨7, time⟩ ⟨1, [], .passed, "passed"⟩).log

/-- What the execution at `time` leaves. -/
def matured (s : St Unit Unit) (time : Time) (log : List Obs) : St Unit Unit where
  world := s.world.setRecord (passedProposal 7 10)
  timelock := s.timelock.remove time 7
  log := log

/-- `InitGenesis` imports a proposal at two times, its store is not consistent, and the messages
of the proposal are executed twice. -/
theorem doubledGenesis_executed_twice : ∃ (s s' : St Unit Unit) (Bs : List Block),
    passedWorld.WF ∧ initGenesis true doubledGenesis ⟨passedWorld, Timelock.fresh, []⟩ = .ok () s ∧
    ¬ s.timelock.Consistent ∧ Run passingKeeper govtimelockManager Ruled s Bs s' ∧
    (logOf Bs).count (.executing 7) = 2 ∧ (logOf Bs).count (.delivered 7 0) = 2 := by
  let s := importedState [20, 30]
  let b := maturityBlock 1 20 (by decide)
  let c := maturityBlock 2 30 (by decide)
  have h₁ : BlockStep passingKeeper govtimelockManager Ruled s b (matured s 20 b.log) :=
    .of_endBlock ⟨id, .refl _ _ _⟩ rfl rfl rfl rfl
  have h₂ : BlockStep passingKeeper govtimelockManager Ruled (matured s 20 b.log) c
      (matured (matured s 20 b.log) 30 c.log) := .of_endBlock ⟨id, .refl _ _ _⟩ rfl rfl rfl rfl
  refine ⟨s, _, [b, c], passedWorld_wf, rfl, fun h => ?_, ⟨.cons h₁ (.cons h₂ (.nil _)), ?_⟩, by decide, by decide⟩
  · have he : ∀ t ∈ [(20 : Time), 30], s.timelock.Entry 7 t := fun t ht =>
      entry_withGenesis.mpr (List.mem_map.mpr ⟨t, ht, rfl⟩)
    exact absurd (h.one_entry (he 20 (by simp)) (he 30 (by simp))) (by decide)
  · simp [b, c, maturityBlock, blockAt]

end Ark.GovTimelock
