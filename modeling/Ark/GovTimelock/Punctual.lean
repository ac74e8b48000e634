import Ark.GovTimelock.Execution

/- When an entry is consumed.

   The delay is a lower bound for the block that executes a proposal; here it is an upper
   bound too. The block is the first active one whose time has reached the entry's: an
   active block leaves no entry that is due, and a turn consumes only an entry that is due
   (`Run.consumed_iff`). Which block that is can be told from the times of the blocks alone;
   nothing that other proposals, handlers or hooks do moves it. -/
namespace Ark.GovTimelock
open Ark.Lib Ark.Gov World Effect

variable {Any Msg Rest : Type} {k : GovKeeper Any Msg Rest} {mm : Manager Any Rest}
  {E : Ctx → World Any Rest → World Any Rest → Prop} {s s' : St Any Rest} {Bs : List Block}

/-- `c` is the first active block, after those of `mid`, whose time has reached `t`. -/
structure FirstDue (t : Time) (mid : List Block) (c : Block) : Prop where
  active : c.active = true
  due : t ≤ c.ctx.time
  first : ∀ d ∈ mid, d.active = true → d.ctx.time < t

/-- A proposal that waits from the start of a run is consumed in the first active block in which
it is due, and in no other. -/
theorem Run.consumed_iff (hk : k.Lawful) (hmm : mm.Lawful) {φ : Nat → Phase} (hsim : Sim s φ)
    {id : Nat} {e : Time} (hφ : φ id = .waiting e) {mid rest : List Block} {c : Block}
    (h : Run k mm Ruled s (mid ++ c :: rest) s') :
    ConsumedIn id c.log ↔ FirstDue e mid c := by
  obtain ⟨u, v, hmid, hc, _, _⟩ := h.split_at
  obtain ⟨ψ, hsimu, hhist⟩ := hmid.histories hk hmm hsim
  have hwait := hhist id
  rw [hφ] at hwait
  obtain ⟨χ, htold, hsimv⟩ := hc.told hk hmm hsimu
  -- no entry is left by an active block that is due
  have hnone : c.active = true → e ≤ c.ctx.time → χ id ≠ .waiting e := by
    intro ha hle hχ
    have hP := hsimv.holds id
    rw [hχ] at hP
    exact absurd (hc.not_due ha ((hP.1 e).mpr rfl)) (not_lt.mpr hle)
  rcases hwait.after_waiting with ⟨hidle, hψ⟩ | ⟨m₁, d, m₂, rfl, _, _, ha, hle, _, hψ⟩
  · -- it still waits when `c` comes
    have hturn := htold id
    rw [hψ] at hturn
    have hbefore : ∀ d ∈ mid, d.active = true → d.ctx.time < e := by
      intro d hd ha
      have hP := hsimu.holds id
      rw [hψ] at hP
      exact hmid.not_due hmm hd ha id e ((hP.1 e).mpr rfl)
    constructor
    · intro hcons
      obtain ⟨res, text, hmem⟩ := hcons.executedEvent
      obtain ⟨act, hm, _, _, _⟩ := hturn.of_mem hmem rfl
      obtain ⟨_, _, ha, hle⟩ := hm.of_waiting
      exact ⟨ha, hle, hbefore⟩
    · intro hfirst
      generalize hQ : χ id = Q at hturn
      cases hturn with
      | idle hlog => exact absurd hQ (hnone hfirst.active hfirst.due)
      | move hm hid hlog =>
        obtain ⟨hcons, _, _, _⟩ := hm.of_waiting
        rw [← hid]
        refine hcons.consumedIn ?_
        rw [hid, hlog]
  · -- it was consumed before
    constructor
    · intro hcons
      have hturn := htold id
      rw [hψ] at hturn
      obtain ⟨res, text, hmem⟩ := hcons.executedEvent
      obtain ⟨act, hm, _, _, _⟩ := hturn.of_mem hmem rfl
      cases hm
    · intro hfirst
      exact absurd (hfirst.first d (by simp) ha) (not_lt.mpr hle)

/-- **Executed on time.** A proposal that a block schedules is consumed in the first later block
whose time has reached the end of its delay, and in no other; one that has an entry when the run
starts, in the first active block whose time has reached the entry's. -/
theorem executed_on_time (k : GovKeeper Any Msg Rest) (mm : Manager Any Rest) (hk : k.Lawful)
    (hmm : mm.Lawful) (hstart : Start s) (hwf : s.world.WF) (h : Run k mm Ruled s Bs s') (id : Nat) :
    (∀ pre b mid c rest text, Bs = pre ++ b :: (mid ++ c :: rest) →
      .event (.proposalScheduled id text) ∈ b.log →
      (ConsumedIn id c.log ↔ b.ctx.time + b.delay ≤ c.ctx.time ∧
        ∀ d ∈ mid, d.ctx.time < b.ctx.time + b.delay)) ∧
    ∀ t, s.timelock.Entry id t → ∀ mid c rest, Bs = mid ++ c :: rest →
      (ConsumedIn id c.log ↔ FirstDue t mid c) := by
  obtain ⟨φ, hsim, hφ⟩ := hstart.sim hwf
  constructor
  · rintro pre b mid c rest text rfl hmem
    obtain ⟨u, v, hpre, hb, hpost, _⟩ := h.split_at
    obtain ⟨ψ, hsimu, _⟩ := hpre.histories hk hmm hsim
    obtain ⟨χ, htold, hsimv⟩ := hb.told hk hmm hsimu
    -- the block that logs the event leaves the proposal waiting
    obtain ⟨act, hm, _, _, hact⟩ := (htold id).of_mem hmem rfl
    obtain ⟨burned, e, rfl⟩ := Act.of_scheduledEvent hact
    generalize hQ : χ id = Q, ψ id = R at hm
    cases hm
    case scheduled _ ha he =>
      rw [hpost.consumed_iff hk hmm hsimv hQ, he]
      have hlater := (List.pairwise_cons.mp (List.pairwise_append.mp (h.active_mono hmm)).2.1).1
      constructor
      · intro hfirst
        exact ⟨hfirst.due, fun d hd => hfirst.first d hd (hlater d (by simp [hd]) ha)⟩
      · intro ⟨hle, hall⟩
        exact ⟨hlater c (by simp) ha, hle, fun d hd _ => hall d hd⟩
  · rintro t ht mid c rest rfl
    rcases hφ id with ⟨e, he, hentry⟩ | ⟨_, hno⟩
    · have hP := hsim.holds id
      rw [he] at hP
      rw [(hP.1 t).mp ht]
      exact h.consumed_iff hk hmm hsim he
    · exact absurd ht (hno t)

/-- The second of these blocks comes 48 hours after the first, and executes the proposal. -/
theorem deferred_on_time : ConsumedIn 7 executionBlock.log :=
  ((executed_on_time passingKeeper govtimelockManager passingKeeper_lawful govtimelockManager_lawful
    (votingState_start _) (votingWorld_wf (by decide) (by decide)) deferred_run 7).1 [] tallyBlock []
    executionBlock [] (passingKeeper.formatTime (10 + minimumDelay)) rfl
    (by simp [tallyBlock, Act.log])).mpr ⟨by decide, by simp⟩

end Ark.GovTimelock
