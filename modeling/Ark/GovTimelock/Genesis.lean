import Ark.GovTimelock.EndBlocker

/- The timelock's genesis (`x/govtimelock/types/genesis.go`, `x/govtimelock/module.go`).

   A genesis file is read in two ways. `ValidateGenesis`, behind the command line's
   `validate-genesis`, decodes it and calls `GenesisState.Validate`; `InitGenesis`
   decodes it, checks it against x/gov and writes the store, and does not call
   `Validate`.

   `RawMessage` is what `encoding/json` makes of the file: a text it cannot read as
   the object at all, or the object's fields. A field that is missing or `null`
   keeps its zero value, a number must fit its type, and a time is a date with a
   four-digit year and an offset.

   What is proved: `Validate` accepts exactly the states that are `Valid`
   (`validate_ok`), what `InitGenesis` writes (`initGenesis_ok`), and that a state
   written as JSON is read back the same (`unmarshalGenesis_marshalGenesis`). -/
namespace Ark.GovTimelock
open Ark.Lib Ark.Gov

structure GenesisState where
  scheduledProposals : List ScheduledProposal
  activationHeight : Int
  executionDelay : Duration
  deriving DecidableEq, Repr

/-- `DefaultGenesis`: active from the first block. -/
def GenesisState.default : GenesisState := ⟨[], 1, 0⟩

/-! ## `Duration.String` -/

/-- The last `prec` digits of `v` as a fraction without its trailing zeros, put before
`acc`, and the digits above them. -/
def fmtFrac (v : Nat) : (prec : Nat) → (print : Bool) → (acc : String) → String × Nat
  | 0, print, acc => (if print then "." ++ acc else acc, v)
  | prec + 1, print, acc =>
    let digit := v % 10
    let print := print || digit != 0
    fmtFrac (v / 10) prec print (if print then ToString.toString digit ++ acc else acc)

/-- A length of at least a second, as hours, minutes and seconds. -/
def fmtSeconds (u : Nat) : String :=
  let (frac, seconds) := fmtFrac u 9 false "s"
  let text := ToString.toString (seconds % 60) ++ frac
  let minutes := seconds / 60
  if minutes = 0 then text
  else
    let text := ToString.toString (minutes % 60) ++ "m" ++ text
    let hours := minutes / 60
    if hours = 0 then text else ToString.toString hours ++ "h" ++ text

/-- A length under a second, in the largest unit it has one of. -/
def fmtSubsecond (u : Nat) : String :=
  if u = 0 then "0s"
  else if u < 1000 then ToString.toString u ++ "ns"
  else if u < 1000000 then
    let (frac, units) := fmtFrac u 3 false "µs"
    ToString.toString units ++ frac
  else
    let (frac, units) := fmtFrac u 6 false "ms"
    ToString.toString units ++ frac

def formatDuration (d : Duration) : String :=
  let u := d.natAbs
  let text := if u < 1000000000 then fmtSubsecond u else fmtSeconds u
  if d < 0 then "-" ++ text else text

example : formatDuration minimumDelay = "48h0m0s" := by decide
example : formatDuration (-1500000) = "-1.5ms" := by decide

/-! ## `Validate` -/

/-- The loop of `Validate`, with the ids it has seen. -/
def validateScheduled : List Nat → List ScheduledProposal → Except String Unit
  | _, [] => .ok ()
  | seen, scheduled :: rest =>
    if scheduled.proposalID = 0 then .error "scheduled proposal ID must be positive"
    else if scheduled.executionTime = zeroTime then
      .error ("proposal " ++ ToString.toString scheduled.proposalID ++ " has zero execution time")
    else if scheduled.proposalID ∈ seen then
      .error ("proposal " ++ ToString.toString scheduled.proposalID ++
        " is scheduled more than once")
    else validateScheduled (scheduled.proposalID :: seen) rest

/-- `GenesisState.Validate`. -/
def GenesisState.validate (gs : GenesisState) : Except String Unit :=
  if gs.executionDelay < 0 then
    .error ("execution delay must not be negative, got " ++ formatDuration gs.executionDelay)
  else if gs.executionDelay ≠ 0 ∧ gs.executionDelay < minimumDelay then
    .error ("execution delay must be at least " ++ formatDuration minimumDelay ++ ", got " ++
      formatDuration gs.executionDelay)
  else if gs.activationHeight < 0 then
    .error ("activation height must not be negative, got " ++
      ToString.toString gs.activationHeight)
  else if gs.activationHeight = 0 ∧ 0 < gs.scheduledProposals.length then
    .error ("timelock is inactive (activation height 0) but " ++
      ToString.toString gs.scheduledProposals.length ++ " proposals are scheduled")
  else validateScheduled [] gs.scheduledProposals

/-- The states `Validate` is meant to accept. -/
structure GenesisState.Valid (gs : GenesisState) : Prop where
  delay : gs.executionDelay = 0 ∨ minimumDelay ≤ gs.executionDelay
  activation_nonneg : 0 ≤ gs.activationHeight
  activated : gs.scheduledProposals ≠ [] → 0 < gs.activationHeight
  ids_pos : ∀ sp ∈ gs.scheduledProposals, 0 < sp.proposalID
  times : ∀ sp ∈ gs.scheduledProposals, sp.executionTime ≠ zeroTime
  ids_distinct : (gs.scheduledProposals.map ScheduledProposal.proposalID).Nodup

theorem validateScheduled_ok {seen : List Nat} {sps : List ScheduledProposal} :
    validateScheduled seen sps = .ok () ↔
      (∀ sp ∈ sps, 0 < sp.proposalID ∧ sp.executionTime ≠ zeroTime ∧ sp.proposalID ∉ seen) ∧
        (sps.map ScheduledProposal.proposalID).Nodup := by
  induction sps generalizing seen with
  | nil => simp [validateScheduled]
  | cons sp sps ih =>
    unfold validateScheduled
    split
    · simp_all
    · split
      · simp_all
      · split
        · simp_all
        · rename_i hid htime hseen
          rw [ih]
          simp only [List.mem_cons, not_or, forall_eq_or_imp, List.map_cons, List.nodup_cons,
            List.mem_map, not_exists, not_and]
          constructor
          · intro ⟨h, hnd⟩
            refine ⟨⟨⟨by omega, htime, hseen⟩, fun a ha => ?_⟩, fun a ha => (h a ha).2.2.1, hnd⟩
            exact ⟨(h a ha).1, (h a ha).2.1, (h a ha).2.2.2⟩
          · intro ⟨⟨_, h⟩, hne, hnd⟩
            exact ⟨fun a ha => ⟨(h a ha).1, (h a ha).2.1, hne a ha, (h a ha).2.2⟩, hnd⟩

/-- `Validate` accepts exactly the valid states. -/
theorem GenesisState.validate_ok {gs : GenesisState} : gs.validate = .ok () ↔ gs.Valid := by
  have hmin := Timelock.minimumDelay_pos
  unfold GenesisState.validate
  split
  · rename_i h
    refine ⟨nofun, fun v => ?_⟩
    rcases v.delay with hd | hd
    · exact absurd h (by rw [hd]; exact lt_irrefl _)
    · exact absurd h (not_lt.mpr (hmin.le.trans hd))
  · split
    · rename_i h
      refine ⟨nofun, fun v => ?_⟩
      rcases v.delay with hd | hd
      · exact absurd hd h.1
      · exact absurd h.2 (not_lt.mpr hd)
    · split
      · rename_i h
        exact ⟨nofun, fun v => absurd v.activation_nonneg (not_le.mpr h)⟩
      · split
        · rename_i h
          refine ⟨nofun, fun v => ?_⟩
          have := v.activated (List.ne_nil_of_length_pos h.2)
          omega
        -- past the checks of the fields the loop over the entries decides
        · rename_i hneg hmin' hact hsch
          rw [validateScheduled_ok]
          constructor
          · intro ⟨h, hnd⟩
            refine ⟨?_, by omega, fun hne => ?_, fun sp hsp => (h sp hsp).1,
              fun sp hsp => (h sp hsp).2.1, hnd⟩
            · by_cases hd : gs.executionDelay = 0
              · exact .inl hd
              · exact .inr (not_lt.mp fun hlt => hmin' ⟨hd, hlt⟩)
            · have := List.length_pos_of_ne_nil hne
              omega
          · intro v
            exact ⟨fun sp hsp => ⟨v.ids_pos sp hsp, v.times sp hsp, by simp⟩, v.ids_distinct⟩

/-! ## JSON -/

/-- A JSON time: a date and time of day with a four-digit year, and the offset from UTC. -/
structure JsonTime where
  wall : Time
  offset : Duration
  wall_hasKey : HasTimeKey wall

def JsonTime.instant (t : JsonTime) : Time := t.wall - t.offset

/-- An element of `scheduled_proposals`. -/
structure ScheduledJson where
  proposalID : Option Int
  executionTime : Option JsonTime

/-- A genesis text: not the object at all, or the fields it has. -/
inductive RawMessage
  | malformed (err : String)
  | object (scheduledProposals : Option (List ScheduledJson)) (activationHeight : Option Int)
      (executionDelay : Option Int)

/-- A number that does not fit its type. -/
def numberOutOfRange (n : Int) (field type : String) : String :=
  "json: cannot unmarshal number " ++ ToString.toString n ++ " into Go struct field " ++ field ++
    " of type " ++ type

def unmarshalInt64 (field type : String) : Option Int → Except String Int
  | none => .ok 0
  | some n =>
    if -2 ^ 63 ≤ n ∧ n < 2 ^ 63 then .ok n else .error (numberOutOfRange n field type)

def unmarshalUint64 (field : String) : Option Int → Except String Nat
  | none => .ok 0
  | some n =>
    if 0 ≤ n ∧ n < 2 ^ 64 then .ok n.toNat else .error (numberOutOfRange n field "uint64")

def unmarshalScheduled (sp : ScheduledJson) : Except String ScheduledProposal := do
  let id ← unmarshalUint64 "ScheduledProposal.scheduled_proposals.proposal_id" sp.proposalID
  pure ⟨id, sp.executionTime.elim zeroTime JsonTime.instant⟩

/-- `json.Unmarshal` into a `GenesisState`. -/
def unmarshalGenesis : RawMessage → Except String GenesisState
  | .malformed err => .error err
  | .object scheduled height delay => do
    let scheduledProposals ← (scheduled.getD []).mapM unmarshalScheduled
    let activationHeight ← unmarshalInt64 "GenesisState.activation_height" "int64" height
    let executionDelay ← unmarshalInt64 "GenesisState.execution_delay" "time.Duration" delay
    pure ⟨scheduledProposals, activationHeight, executionDelay⟩

/-- A scheduled proposal as JSON; a time whose year has not four digits has no JSON. -/
def marshalScheduled (sp : ScheduledProposal) : Except String ScheduledJson :=
  if h : HasTimeKey sp.executionTime then .ok ⟨some sp.proposalID, some ⟨sp.executionTime, 0, h⟩⟩
  else .error ("json: error calling MarshalJSON for type time.Time: " ++
    "Time.MarshalJSON: year outside of range [0,9999]")

/-- `json.Marshal` of a `GenesisState`. -/
def marshalGenesis (gs : GenesisState) : Except String RawMessage := do
  let scheduled ← gs.scheduledProposals.mapM marshalScheduled
  pure (.object (some scheduled) (some gs.activationHeight) (some gs.executionDelay))

/-- The states whose numbers fit their types and whose times have a four-digit year. -/
structure GenesisState.Encodable (gs : GenesisState) : Prop where
  ids : ∀ sp ∈ gs.scheduledProposals, sp.proposalID < 2 ^ 64
  times : ∀ sp ∈ gs.scheduledProposals, HasTimeKey sp.executionTime
  activation : -2 ^ 63 ≤ gs.activationHeight ∧ gs.activationHeight < 2 ^ 63
  delay : -2 ^ 63 ≤ gs.executionDelay ∧ gs.executionDelay < 2 ^ 63

theorem unmarshalUint64_natCast {id : Nat} {field : String} (h : id < 2 ^ 64) :
    unmarshalUint64 field (some id) = .ok id := by
  have hfits : (0 : Int) ≤ id ∧ (id : Int) < 2 ^ 64 := ⟨Int.natCast_nonneg _, by exact_mod_cast h⟩
  simp only [unmarshalUint64]
  rw [if_pos hfits, Int.toNat_natCast]

theorem unmarshalScheduled_marshalScheduled {sp : ScheduledProposal} (hid : sp.proposalID < 2 ^ 64)
    (htime : HasTimeKey sp.executionTime) :
    ∃ doc, marshalScheduled sp = .ok doc ∧ unmarshalScheduled doc = .ok sp := by
  refine ⟨⟨some sp.proposalID, some ⟨sp.executionTime, 0, htime⟩⟩, dif_pos htime, ?_⟩
  simp only [unmarshalScheduled, unmarshalUint64_natCast hid]
  show Except.ok (⟨sp.proposalID, sp.executionTime - 0⟩ : ScheduledProposal) = .ok sp
  rw [Int.sub_zero]

theorem mapM_marshalScheduled {sps : List ScheduledProposal}
    (hids : ∀ sp ∈ sps, sp.proposalID < 2 ^ 64) (htimes : ∀ sp ∈ sps, HasTimeKey sp.executionTime) :
    ∃ docs, sps.mapM marshalScheduled = .ok docs ∧ docs.mapM unmarshalScheduled = .ok sps := by
  induction sps with
  | nil => exact ⟨[], rfl, rfl⟩
  | cons sp sps ih =>
    obtain ⟨docs, hm, hu⟩ := ih (fun a ha => hids a (by simp [ha]))
      (fun a ha => htimes a (by simp [ha]))
    obtain ⟨doc, hm₁, hu₁⟩ :=
      unmarshalScheduled_marshalScheduled (hids sp (by simp)) (htimes sp (by simp))
    refine ⟨doc :: docs, ?_, ?_⟩
    · rw [List.mapM_cons, hm, hm₁]
      rfl
    · rw [List.mapM_cons, hu, hu₁]
      rfl

/-- A state written as JSON is read back the same. -/
theorem unmarshalGenesis_marshalGenesis {gs : GenesisState} (h : gs.Encodable) :
    ∃ bz, marshalGenesis gs = .ok bz ∧ unmarshalGenesis bz = .ok gs := by
  obtain ⟨docs, hm, hu⟩ := mapM_marshalScheduled h.ids h.times
  refine ⟨.object (some docs) (some gs.activationHeight) (some gs.executionDelay), ?_, ?_⟩
  · simp [marshalGenesis, hm, bind, Except.bind, pure, Except.pure]
  · simp only [unmarshalGenesis, Option.getD_some, hu, unmarshalInt64, h.activation, h.delay,
      and_self, if_true, bind, Except.bind, pure, Except.pure]

/-! ## The module's genesis -/

/-- `AppModuleBasic.DefaultGenesis`. -/
def defaultGenesis : Except Fault RawMessage :=
  match marshalGenesis GenesisState.default with
  | .ok bz => .ok bz
  | .error err => .error (.panic err)

/-- `AppModuleBasic.ValidateGenesis`. -/
def validateGenesis (bz : RawMessage) : Except String Unit :=
  match unmarshalGenesis bz with
  | .error err => .error ("failed to unmarshal " ++ moduleName ++ " genesis state: " ++ err)
  | .ok state => state.validate

/-- The loop of `validateAgainstGov`. -/
def validateScheduledAgainstGov {Any Rest : Type} (w : World Any Rest) :
    List ScheduledProposal → Except String Unit
  | [] => .ok ()
  | scheduled :: rest =>
    let missing (err : String) : Except String Unit :=
      .error (moduleName ++ " genesis schedules proposal " ++
        ToString.toString scheduled.proposalID ++ ", which does not exist in x/gov: " ++ err)
    match w.getProposal scheduled.proposalID with
    | .errNotFound => missing (proposalNotFound scheduled.proposalID)
    | .errEncoding _ err => missing err
    | .found proposal =>
      if proposal.status ≠ .passed then
        .error (moduleName ++ " genesis schedules proposal " ++
          ToString.toString scheduled.proposalID ++ " with status " ++ proposal.status.toString ++
          ", expected " ++ ProposalStatus.passed.toString)
      else validateScheduledAgainstGov w rest

/-- `validateAgainstGov`. -/
def validateAgainstGov {Any Rest : Type} (w : World Any Rest) (state : GenesisState) :
    Except String Unit :=
  validateScheduledAgainstGov w state.scheduledProposals

/-- A result whose error the caller panics with. -/
def orPanic {α Any Rest : Type} : Except String α → M Any Rest α
  | .ok a => pure a
  | .error err => throw (.panic err)

def setActivationHeight {Any Rest : Type} (height : Int) : M Any Rest Unit := do
  setTimelock ((← getTimelock).setActivationHeight height)

def setExecutionDelay {Any Rest : Type} (delay : Duration) : M Any Rest Unit := do
  setTimelock ((← getTimelock).setExecutionDelay delay)

/-- `AppModule.InitGenesis`; `hasGovKeeper` is whether the module's gov keeper is not `nil`. -/
def initGenesis {Any Rest : Type} (hasGovKeeper : Bool) (bz : RawMessage) : M Any Rest Unit := do
  observe [.initGenesis]
  let state ← orPanic (unmarshalGenesis bz)
  let w ← getWorld
  runIf hasGovKeeper (orPanic (validateAgainstGov w state))
  state.scheduledProposals.forM fun scheduled =>
    schedule scheduled.proposalID scheduled.executionTime
  runIf (decide (0 < state.activationHeight)) (setActivationHeight state.activationHeight)
  runIf (decide (0 < state.executionDelay)) (setExecutionDelay state.executionDelay)

/-- The state `ExportGenesis` writes. -/
def Timelock.toGenesis (t : Timelock) : GenesisState :=
  ⟨t.exportEntries, t.getActivationHeight, t.getExecutionDelay minimumDelay⟩

/-- `AppModule.ExportGenesis`. -/
def exportGenesis (t : Timelock) : Except Fault RawMessage :=
  match marshalGenesis t.toGenesis with
  | .ok bz => .ok bz
  | .error err => .error (.panic err)

/-! ## What the two operations do -/

section Spec
open Effect
variable {α Any Rest : Type} {s s' : St Any Rest} {w : World Any Rest} {t : Timelock}

@[simp] theorem orPanic_ok {x : Except String α} {a : α} :
    orPanic x s = .ok a s' ↔ x = .ok a ∧ s = s' := by
  cases x with
  | error err => simp [orPanic]
  | ok b => simp [orPanic]

@[simp] theorem setActivationHeight_ok {height : Int} {u : Unit} :
    setActivationHeight height s = .ok u s' ↔
      s' = { s with timelock := s.timelock.setActivationHeight height } := by
  simp [setActivationHeight]

@[simp] theorem setExecutionDelay_ok {delay : Duration} {u : Unit} :
    setExecutionDelay delay s = .ok u s' ↔
      s' = { s with timelock := s.timelock.setExecutionDelay delay } := by
  simp [setExecutionDelay]

/-- The check against x/gov passes exactly when every entry names a proposal that loads and
has passed. -/
theorem validateAgainstGov_ok {gs : GenesisState} :
    validateAgainstGov w gs = .ok () ↔ ∀ sp ∈ gs.scheduledProposals,
      ∃ p, w.getProposal sp.proposalID = .found p ∧ p.status = .passed := by
  unfold validateAgainstGov
  induction gs.scheduledProposals with
  | nil => simp [validateScheduledAgainstGov]
  | cons sp sps ih =>
    rw [validateScheduledAgainstGov, List.forall_mem_cons]
    cases hg : w.getProposal sp.proposalID with
    | errNotFound => simp
    | errEncoding p err => simp
    | found p =>
      by_cases hst : p.status = .passed
      · simp [hst, ih]
      · simp [hst]

/-- The store after a genesis state has been written over it. -/
def Timelock.withGenesis (t : Timelock) (gs : GenesisState) : Timelock where
  scheduledProposals := gs.scheduledProposals.foldl (fun q sp => q.set sp.key) t.scheduledProposals
  activationHeight :=
    if 0 < gs.activationHeight then some gs.activationHeight else t.activationHeight
  executionDelay := if 0 < gs.executionDelay then some gs.executionDelay else t.executionDelay

@[simp] theorem Timelock.mem_withGenesis {gs : GenesisState} {key : Pair} :
    key ∈ (t.withGenesis gs).scheduledProposals ↔
      key ∈ t.scheduledProposals ∨ ∃ sp ∈ gs.scheduledProposals, sp.key = key :=
  KeySet.mem_foldl_set

theorem schedule_forM_ok {sps : List ScheduledProposal} {u : Unit} :
    sps.forM (fun sp => schedule sp.proposalID sp.executionTime) s = .ok u s' ↔
      (∀ sp ∈ sps, HasTimeKey sp.executionTime) ∧
        s' = { s with timelock := { s.timelock with
          scheduledProposals :=
            sps.foldl (fun q sp => q.set sp.key) s.timelock.scheduledProposals } } := by
  induction sps generalizing s with
  | nil =>
    show (pure () : M Any Rest Unit) s = _ ↔ _
    simp [eq_comm]
  | cons sp sps ih =>
    show (schedule sp.proposalID sp.executionTime >>= fun _ => sps.forM _) s = _ ↔ _
    rw [bind_ok, List.forall_mem_cons]
    constructor
    · intro ⟨_, _, h, hs⟩
      obtain ⟨hk, rfl⟩ := schedule_ok.mp h
      obtain ⟨hks, rfl⟩ := ih.mp hs
      exact ⟨⟨hk, hks⟩, rfl⟩
    · rintro ⟨⟨hk, hks⟩, rfl⟩
      exact ⟨(), _, schedule_ok.mpr ⟨hk, rfl⟩, ih.mpr ⟨hks, rfl⟩⟩

@[simp] theorem runIf_setActivationHeight_ok {height : Int} {u : Unit} :
    runIf (decide (0 < height)) (setActivationHeight height) s = .ok u s' ↔
      s' = { s with timelock := { s.timelock with
        activationHeight := if 0 < height then some height else s.timelock.activationHeight } } := by
  by_cases h : 0 < height
  · simp [h, Timelock.setActivationHeight]
  · simpa [h] using eq_comm

@[simp] theorem runIf_setExecutionDelay_ok {delay : Duration} {u : Unit} :
    runIf (decide (0 < delay)) (setExecutionDelay delay) s = .ok u s' ↔
      s' = { s with timelock := { s.timelock with
        executionDelay := if 0 < delay then some delay else s.timelock.executionDelay } } := by
  by_cases h : 0 < delay
  · simp [h, Timelock.setExecutionDelay]
  · simpa [h] using eq_comm

/-- `InitGenesis` returns exactly when the text decodes, agrees with x/gov if that is looked
at, and holds no time without a key; then it has written the decoded state. -/
theorem initGenesis_ok {hasGovKeeper : Bool} {bz : RawMessage} {u : Unit} :
    initGenesis hasGovKeeper bz s = .ok u s' ↔ ∃ gs, unmarshalGenesis bz = .ok gs ∧
      (hasGovKeeper = true → validateAgainstGov s.world gs = .ok ()) ∧
      (∀ sp ∈ gs.scheduledProposals, HasTimeKey sp.executionTime) ∧
      s' = { s with timelock := s.timelock.withGenesis gs, log := s.log ++ [.initGenesis] } := by
  have hcheck : ∀ {gs : GenesisState} {v v' : St Any Rest} {u : Unit},
      runIf hasGovKeeper (orPanic (validateAgainstGov s.world gs)) v = .ok u v' ↔
        (hasGovKeeper = true → validateAgainstGov s.world gs = .ok ()) ∧ v = v' := by
    intro gs v v' u
    cases hasGovKeeper <;> simp
  simp only [initGenesis, bind_ok, observe_ok, orPanic_ok, getWorld_ok, schedule_forM_ok,
    runIf_setActivationHeight_ok, runIf_setExecutionDelay_ok]
  constructor
  · rintro ⟨_, _, rfl, gs, _, ⟨hgs, rfl⟩, _, _, ⟨rfl, rfl⟩, _, _, hv, _, _, ⟨hk, rfl⟩, _, _, rfl, rfl⟩
    obtain ⟨hgov, rfl⟩ := hcheck.mp hv
    exact ⟨gs, hgs, hgov, hk, rfl⟩
  · rintro ⟨gs, hgs, hv, hk, rfl⟩
    exact ⟨(), _, rfl, gs, _, ⟨hgs, rfl⟩, _, _, ⟨rfl, rfl⟩, (), _, hcheck.mpr ⟨hv, rfl⟩, (), _,
      ⟨hk, rfl⟩, (), _, rfl, rfl⟩

end Spec

end Ark.GovTimelock
