import Ark.DenomMetadata

/- What a message does to the bank's metadata.

   The loop looks up each base in the store that the entries before it have already
   changed. They change no base that is not taken, so the lookups come out as in the
   store at the start, and the loop ends in the store overridden by all entries or
   fails (`setEntries_done`, `setEntries_succeeds`). The order of the entries drops out
   because `validateBasic` lets no base through twice (`validateBasic_ok`). -/
namespace Ark.DenomMetadata
open Ark.Sdk Ark.Lib Ark.Lib.Checks

variable {outside : Outside} {authority : String} {msg : MsgSetDenomMetadata} {s s' : State}
  {mds mds' : List Metadata}

/-! ## ValidateBasic -/

theorem validateEntries_ok {i : Nat} {seen : List String} :
    validateEntries outside i seen mds = .ok () ↔ (∀ md ∈ mds, outside.validate md = none) ∧
      (mds.map Metadata.base).Nodup ∧ ∀ md ∈ mds, md.base ∉ seen := by
  induction mds generalizing i seen with
  | nil => simp [validateEntries]
  | cons md rest ih =>
    unfold validateEntries
    cases hv : outside.validate md with
    | some err => simp [hv]
    | none =>
      simp only [bind_ok, failIf_ok, exists_const, ih]
      rw [List.forall_mem_cons, List.forall_mem_cons, List.map_cons, List.nodup_cons, List.mem_map]
      constructor
      · intro h
        obtain ⟨hseen, hvalid, hnodup, hrest⟩ := h
        refine ⟨⟨hv, hvalid⟩, ⟨?_, hnodup⟩, hseen, ?_⟩
        · intro h
          obtain ⟨other, hother, he⟩ := h
          apply hrest other hother
          rw [he]
          exact List.mem_cons_self
        · intro other hother hin
          exact hrest other hother (List.mem_cons_of_mem _ hin)
      · intro h
        obtain ⟨⟨_, hvalid⟩, ⟨hfirst, hnodup⟩, hseen, hrest⟩ := h
        refine ⟨hseen, hvalid, hnodup, fun other hother hin => ?_⟩
        cases List.mem_cons.mp hin with
        | inl he => exact hfirst ⟨other, hother, he⟩
        | inr hin => exact hrest other hother hin

theorem validateBasic_ok : validateBasic outside msg = .ok () ↔
    (∃ a, outside.codec.accAddressFromBech32 msg.authority = .ok a) ∧ msg.metadata ≠ [] ∧
      (∀ md ∈ msg.metadata, outside.validate md = none) ∧ (msg.metadata.map Metadata.base).Nodup := by
  unfold validateBasic
  cases outside.codec.accAddressFromBech32 msg.authority with
  | error err => simp
  | ok a => simp [validateEntries_ok]

/-! ## The loop -/

/-- The store overridden by the entries, each of them announced. -/
def State.corrected (s : State) (mds : List Metadata) : State where
  denomMetadata := KeyedMap.putAll Metadata.base s.denomMetadata mds
  events := s.events ++ mds.map fun md => ⟨md.base, md.display⟩

/-- Every entry is for a denom that has metadata. -/
def State.Knows (s : State) (mds : List Metadata) : Prop :=
  ∀ md ∈ mds, (s.denomMetadata md.base).isSome = true

theorem corrected_cons {md : Metadata} : s.corrected (md :: mds) =
    ((s.setDenomMetaData md).emit ⟨md.base, md.display⟩).corrected mds := by
  simp [State.corrected, State.setDenomMetaData, State.emit]

/-- A write under a base that is taken changes no lookup of the entries after it. -/
theorem knows_cons {md : Metadata} {event : EventSetDenomMetadata} : s.Knows (md :: mds) ↔
    (s.denomMetadata md.base).isSome = true ∧ ((s.setDenomMetaData md).emit event).Knows mds := by
  unfold State.Knows
  rw [List.forall_mem_cons]
  apply and_congr_right
  intro hmd
  apply forall₂_congr
  intro other _
  rw [State.emit, State.setDenomMetaData, KeyedMap.put_isSome hmd]

theorem setEntries_done (h : setEntries outside mds s = (none, s')) :
    s.Knows mds ∧ s' = s.corrected mds := by
  -- the rest of the entries runs in the store that the first one has changed
  induction mds generalizing s with
  | nil =>
    cases h
    exact ⟨nofun, by simp [State.corrected]⟩
  | cons md rest ih =>
    unfold setEntries State.getDenomMetaData at h
    cases hmd : s.denomMetadata md.base with
    | none =>
      rw [hmd] at h
      cases h
    | some existing =>
      simp only [hmd] at h
      cases hemit : outside.emitTypedEvent ⟨md.base, md.display⟩ with
      | some err =>
        rw [hemit] at h
        cases h
      | none =>
        rw [hemit] at h
        obtain ⟨hknows, hs'⟩ := ih h
        rw [corrected_cons]
        exact ⟨knows_cons.mpr ⟨by rw [hmd]; rfl, hknows⟩, hs'⟩

/-- Events can always be encoded. -/
def Outside.Emits (outside : Outside) : Prop := ∀ event, outside.emitTypedEvent event = none

theorem setEntries_succeeds (hemits : outside.Emits) (h : s.Knows mds) :
    setEntries outside mds s = (none, s.corrected mds) := by
  induction mds generalizing s with
  | nil => simp [setEntries, State.corrected]
  | cons md rest ih =>
    obtain ⟨hmd, hrest⟩ := knows_cons.mp h
    obtain ⟨existing, hexisting⟩ := Option.isSome_iff_exists.mp hmd
    unfold setEntries State.getDenomMetaData
    simp only [hexisting, hemits ⟨md.base, md.display⟩]
    rw [ih hrest, corrected_cons]

/-! ## Messages -/

theorem setDenomMetadata_done (h : setDenomMetadata outside authority msg s = (none, s')) :
    authority = msg.authority ∧ s.Knows msg.metadata ∧ s' = s.corrected msg.metadata := by
  unfold setDenomMetadata at h
  by_cases ha : authority = msg.authority
  · rw [if_neg (not_not_intro ha)] at h
    exact ⟨ha, setEntries_done h⟩
  · rw [if_pos ha] at h
    cases h

theorem setDenomMetadata_succeeds (hemits : outside.Emits) :
    (setDenomMetadata outside authority msg s).1 = none ↔
      authority = msg.authority ∧ s.Knows msg.metadata := by
  constructor
  · intro h
    obtain ⟨ha, hknows, _⟩ := setDenomMetadata_done (Prod.ext h rfl)
    exact ⟨ha, hknows⟩
  · intro ⟨ha, hknows⟩
    unfold setDenomMetadata
    rw [if_neg (not_not_intro ha), setEntries_succeeds hemits hknows]

/-- With its writes dropped on an error, a message either overrides the store or leaves it. -/
theorem execute_cases : (setDenomMetadata outside authority msg s).1 = none ∧
      s.Knows msg.metadata ∧ execute outside authority s msg = s.corrected msg.metadata ∨
    (setDenomMetadata outside authority msg s).1 ≠ none ∧ execute outside authority s msg = s := by
  unfold execute
  cases h : setDenomMetadata outside authority msg s with
  | mk err s' =>
    cases err with
    | none =>
      obtain ⟨_, hknows, hs'⟩ := setDenomMetadata_done h
      exact .inl ⟨rfl, hknows, hs'⟩
    | some err => exact .inr ⟨nofun, rfl⟩

theorem execute_isSome {denom : String} :
    ((execute outside authority s msg).denomMetadata denom).isSome =
      (s.denomMetadata denom).isSome := by
  obtain ⟨_, hknows, he⟩ | ⟨_, he⟩ := @execute_cases outside authority msg s
  · rw [he]
    exact KeyedMap.putAll_isSome hknows
  · rw [he]

theorem run_isSome {msgs : List MsgSetDenomMetadata} {denom : String} :
    ((run outside authority s msgs).denomMetadata denom).isSome =
      (s.denomMetadata denom).isSome := by
  induction msgs generalizing s with
  | nil => rfl
  | cons msg msgs ih =>
    have hstep := @execute_isSome outside authority msg s denom
    rw [← hstep]
    exact ih

theorem Knows.perm (h : s.Knows mds) (hperm : mds.Perm mds') : s.Knows mds' :=
  fun md hmd => h md (hperm.mem_iff.mpr hmd)

/-- Entries for distinct denoms may come in any order. -/
theorem setDenomMetadata_perm (hemits : outside.Emits) (hnodup : (mds.map Metadata.base).Nodup)
    (hperm : mds.Perm mds') {sender : String} :
    ((setDenomMetadata outside authority ⟨sender, mds'⟩ s).1 = none ↔
      (setDenomMetadata outside authority ⟨sender, mds⟩ s).1 = none) ∧
    (execute outside authority s ⟨sender, mds'⟩).denomMetadata =
      (execute outside authority s ⟨sender, mds⟩).denomMetadata := by
  have hiff : (setDenomMetadata outside authority ⟨sender, mds'⟩ s).1 = none ↔
      (setDenomMetadata outside authority ⟨sender, mds⟩ s).1 = none := by
    rw [setDenomMetadata_succeeds hemits, setDenomMetadata_succeeds hemits]
    constructor
    · intro ⟨ha, hknows⟩
      exact ⟨ha, Knows.perm hknows hperm.symm⟩
    · intro ⟨ha, hknows⟩
      exact ⟨ha, Knows.perm hknows hperm⟩
  refine ⟨hiff, ?_⟩
  obtain ⟨hok, _, he⟩ | ⟨hfail, he⟩ := @execute_cases outside authority ⟨sender, mds⟩ s
  · obtain ⟨_, _, he'⟩ | ⟨hfail, _⟩ := @execute_cases outside authority ⟨sender, mds'⟩ s
    · rw [he, he']
      exact (KeyedMap.putAll_perm hnodup hperm).symm
    · exact absurd (hiff.mpr hok) hfail
  · obtain ⟨hok, _, _⟩ | ⟨_, he'⟩ := @execute_cases outside authority ⟨sender, mds'⟩ s
    · exact absurd (hiff.mp hok) hfail
    · rw [he, he']

/-- A message that passes `validateBasic` succeeds exactly when it comes from the authority and all
its denoms have metadata. Then the store is overridden by its entries and by nothing else, in
whatever order they come; otherwise the store is what it was. No run of messages gives metadata to
a denom that had none, or takes it away. -/
theorem corrects_only (outside : Outside) (hemits : outside.Emits) (authority : String) :
    (∀ (s : State) (msg : MsgSetDenomMetadata), validateBasic outside msg = .ok () →
      ((setDenomMetadata outside authority msg s).1 = none ↔ authority = msg.authority ∧
        ∀ md ∈ msg.metadata, (s.denomMetadata md.base).isSome = true) ∧
      ((setDenomMetadata outside authority msg s).1 = none →
        (∀ md ∈ msg.metadata,
          (execute outside authority s msg).denomMetadata md.base = some md) ∧
        ∀ denom, (∀ md ∈ msg.metadata, md.base ≠ denom) →
          (execute outside authority s msg).denomMetadata denom = s.denomMetadata denom) ∧
      (∀ mds, msg.metadata.Perm mds →
        ((setDenomMetadata outside authority ⟨msg.authority, mds⟩ s).1 = none ↔
          (setDenomMetadata outside authority msg s).1 = none) ∧
        (execute outside authority s ⟨msg.authority, mds⟩).denomMetadata =
          (execute outside authority s msg).denomMetadata) ∧
      ((setDenomMetadata outside authority msg s).1 ≠ none →
        (execute outside authority s msg).denomMetadata = s.denomMetadata)) ∧
    ∀ (s : State) (msgs : List MsgSetDenomMetadata) (denom : String),
      ((run outside authority s msgs).denomMetadata denom).isSome =
        (s.denomMetadata denom).isSome := by
  refine ⟨fun s msg hvalid => ?_, fun s msgs denom => run_isSome⟩
  have hnodup := (validateBasic_ok.mp hvalid).2.2.2
  refine ⟨?_, ?_, fun mds hperm => setDenomMetadata_perm hemits hnodup hperm, ?_⟩
  · exact setDenomMetadata_succeeds hemits
  · intro h
    obtain ⟨_, _, he⟩ | ⟨hfail, _⟩ := @execute_cases outside authority msg s
    · rw [he]
      constructor
      · intro md hmd
        exact KeyedMap.putAll_of_mem hnodup hmd
      · intro denom hdenom
        exact KeyedMap.putAll_of_notMem hdenom
    · exact absurd h hfail
  · intro hfail
    obtain ⟨hok, _⟩ | ⟨_, he⟩ := @execute_cases outside authority msg s
    · exact absurd hok hfail
    · rw [he]

/-! ## A small bank -/

def esp : Metadata :=
  ⟨"", [⟨"esp", 0, []⟩, ⟨"espees", 9, []⟩, ⟨"KASH", 18, []⟩], "esp", "KASH", "KASH", "KASH", "", ""⟩

def wrapped : Metadata :=
  ⟨"", [⟨"wesp", 0, []⟩, ⟨"wKASH", 18, []⟩], "wesp", "wKASH", "Wrapped KASH", "WKASH", "", ""⟩

/-- The bank accepts both entries, and every event is encoded. -/
def smallOutside : Outside where
  codec := arkCodec
  validate _ := none
  emitTypedEvent _ := none
  isPrint c := 32 ≤ c.toNat ∧ c.toNat < 127

def smallAuthority : String := arkCodec.string (List.replicate 20 9)

/-- Both denoms have metadata without units. -/
def smallState : State where
  denomMetadata denom :=
    if denom = "esp" ∨ denom = "wesp" then some ⟨"", [], denom, denom, "", "", "", ""⟩ else none
  events := []

theorem smallAuthority_parses :
    arkCodec.accAddressFromBech32 smallAuthority = .ok (List.replicate 20 9) := by
  rw [arkCodec_parse, smallAuthority, arkCodec_string, String.toList_ofList]
  exact parseAccAddress_print (by decide)

theorem small_validateBasic :
    validateBasic smallOutside ⟨smallAuthority, [esp, wrapped]⟩ = .ok () := by
  rw [validateBasic_ok]
  exact ⟨⟨_, smallAuthority_parses⟩, by simp, fun _ _ => rfl, by decide⟩

/-- The authority corrects both denoms, in either order. -/
theorem corrects_small :
    (execute smallOutside smallAuthority smallState
      ⟨smallAuthority, [esp, wrapped]⟩).denomMetadata esp.base = some esp ∧
    (execute smallOutside smallAuthority smallState
      ⟨smallAuthority, [wrapped, esp]⟩).denomMetadata esp.base = some esp := by
  obtain ⟨hsucceeds, hwrites, hperm, _⟩ :=
    (corrects_only smallOutside (fun _ => rfl) smallAuthority).1 smallState _ small_validateBasic
  have hesp := (hwrites (hsucceeds.mpr ⟨rfl, by decide⟩)).1 esp List.mem_cons_self
  refine ⟨hesp, ?_⟩
  rw [(hperm [wrapped, esp] (List.Perm.swap wrapped esp [])).2]
  exact hesp

end Ark.DenomMetadata
