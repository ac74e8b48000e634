import Mathlib.Data.Set.Insert
import Ark.GovTimelock.Keeper
import Ark.Lib.Calendar
import Ark.Lib.SortedKeys

/- The schedule as the store has it: keys that are bytes.

   `sdk.TimeKey` writes a time in UTC as text of fixed width, to the nanosecond,
   `Uint64Key` writes an id as 8 bytes, most significant first, and a pair is the one after
   the other. The store walks its keys in the order of the bytes. The prefix of the
   collection starts every key and is left out.

   The order of the bytes is the order of (time, id) (`pairKey_lt_iff`), so the keys of a
   sorted set of entries are the sorted set of their keys (`run_bytes`), as they are of
   the schedule that is walked by pairs (`run_timelock`); and each key is read back to
   its entry (`decodePair_pairKey`).

   Correspondence (Go ↔ Lean):
     `sdk.TimeKey.Encode`                      ↔ `timeKey`
     `PairKeyCodec(TimeKey, Uint64Key)`        ↔ `pairKey`, `decodePair`
     `NewPrefixUntilPairRange(now)`            ↔ `untilPrefix (timeKey now)`
     `k.ScheduledProposals`                    ↔ `ScheduleBytes` -/
namespace Ark.GovTimelock
open Ark.Lib Ark.Lib.Positional Ark.Lib.Go Ark.Lib.SortedKeys Ark.Gov

/-! ## Keys -/

/-- `2006-01-02T15:04:05.000000000`. -/
def sortableTimeFormat : List (Nat × Text) :=
  [(4, ascii "-"), (2, ascii "-"), (2, ascii "T"), (2, ascii ":"), (2, ascii ":"), (2, ascii "."),
    (9, [])]

/-- The time, counted from the start of the year 0. -/
def sinceYearZero (t : Time) : Nat := (t - yearZero).toNat

def timeKey (t : Time) : Text := layout sortableTimeFormat (Calendar.fields (sinceYearZero t))

def pairKey (executionTime : Time) (proposalID : Nat) : Text :=
  timeKey executionTime ++ bigEndian 8 proposalID

def decodePair (key : Text) : Option ScheduledProposal :=
  match readLayout sortableTimeFormat key with
  | none => none
  | some (fields, rest) =>
    match Calendar.instant fields with
    | none => none
    | some n => if rest.length = 8 then some ⟨ofBigEndian rest, n + yearZero⟩ else none

theorem sinceYearZero_add {t : Time} (h : HasTimeKey t) : sinceYearZero t + yearZero = t := by
  have hlow := Int.sub_nonneg_of_le h.1
  rw [sinceYearZero, Int.toNat_of_nonneg hlow, Int.sub_add_cancel]

theorem sinceYearZero_lt_iff {s t : Time} (hs : HasTimeKey s) (ht : HasTimeKey t) :
    sinceYearZero s < sinceYearZero t ↔ s < t := by
  have hadd : (sinceYearZero s : Int) + yearZero < sinceYearZero t + yearZero ↔ s < t := by
    rw [sinceYearZero_add hs, sinceYearZero_add ht]
  rw [← hadd, Int.add_lt_add_iff_right, Int.ofNat_lt]

/-- The year is below 10000: it has four digits. -/
theorem fields_fit {t : Time} (h : HasTimeKey t) :
    Fit sortableTimeFormat (Calendar.fields (sinceYearZero t)) := by
  -- the days from the year 0 to the year 10000
  have hlength : (year10000 - yearZero : Int) = (3652425 * 86400000000000 : Nat) := by decide
  have hspan : sinceYearZero t < 3652425 * 86400000000000 := by
    have hhigh := Int.sub_lt_sub_right h.2 yearZero
    rw [← sinceYearZero_add h, Int.add_sub_cancel, hlength] at hhigh
    exact Int.ofNat_lt.mp hhigh
  have hstart : Calendar.yearStart 10000 = 3652425 := by decide
  have hday : sinceYearZero t / Calendar.dayLength < Calendar.yearStart 10000 := by
    rw [hstart]
    exact Nat.div_lt_of_lt_mul (by rw [Calendar.dayLength]; omega)
  have hwidths : sortableTimeFormat.map Prod.fst = [4, 2, 2, 2, 2, 2, 9] := rfl
  have hfit := Calendar.fields_fit hday
  rw [← hwidths] at hfit
  exact List.forall₂_map_left_iff.mp hfit

theorem length_timeKey {t : Time} (h : HasTimeKey t) : (timeKey t).length = 29 :=
  length_layout (fields_fit h)

example : timeKey 63923947200000000001 = ascii "2026-09-02T12:00:00.000000001" := by
  decide +kernel

theorem timeKey_lt_iff {s t : Time} (hs : HasTimeKey s) (ht : HasTimeKey t) :
    timeKey s < timeKey t ↔ s < t := by
  rw [timeKey, timeKey, layout_lt_iff (fields_fit hs) (fields_fit ht), Calendar.fields_lt_iff,
    sinceYearZero_lt_iff hs ht]

theorem timeKey_eq_iff {s t : Time} (hs : HasTimeKey s) (ht : HasTimeKey t) :
    timeKey s = timeKey t ↔ s = t := by
  constructor
  · exact eq_of_lt_iff List.lt_irrefl (timeKey_lt_iff hs ht) (timeKey_lt_iff ht hs)
  · intro h
    rw [h]

theorem pairKey_lt_iff {s t : Time} {m n : Nat} (hs : HasTimeKey s) (ht : HasTimeKey t)
    (hm : m < 256 ^ 8) (hn : n < 256 ^ 8) :
    pairKey s m < pairKey t n ↔ s < t ∨ s = t ∧ m < n := by
  have hlen : (timeKey s).length = (timeKey t).length := by
    rw [length_timeKey hs, length_timeKey ht]
  have hid : bigEndian 8 m < bigEndian 8 n ↔ m < n :=
    write_lt_iff rising_bigEndian (by decide) hm hn
  rw [pairKey, pairKey, append_lt_append_iff hlen, timeKey_lt_iff hs ht, timeKey_eq_iff hs ht, hid]

theorem decodePair_pairKey {t : Time} {id : Nat} (ht : HasTimeKey t) (hid : id < 256 ^ 8) :
    decodePair (pairKey t id) = some ⟨id, t⟩ := by
  rw [decodePair, pairKey, timeKey, readLayout_layout (fields_fit ht)]
  simp only [Calendar.instant_fields, length_bigEndian, if_true, ofBigEndian_bigEndian hid,
    sinceYearZero_add ht]

/-- The range ends with the last key of the time, whatever its id. -/
theorem untilPrefix_pairKey {t now : Time} (ht : HasTimeKey t) (hnow : HasTimeKey now) (id : Nat) :
    untilPrefix (timeKey now) (pairKey t id) = true ↔ t ≤ now := by
  have hlen : (timeKey t).length = (timeKey now).length := by
    rw [length_timeKey ht, length_timeKey hnow]
  rw [pairKey, untilPrefix_append hlen, timeKey_lt_iff ht hnow, timeKey_eq_iff ht hnow,
    Int.le_iff_lt_or_eq]

/-! ## The store -/

/-- The keys of `ScheduledProposals`. -/
abbrev ScheduleBytes := KeySet Text

namespace ScheduleBytes

/-- `Schedule`. Encoding the key of a time outside years 0 to 9999 panics. -/
def schedule (k : ScheduleBytes) (proposalID : Nat) (executionTime : Time) :
    Except Fault ScheduleBytes :=
  if HasTimeKey executionTime then .ok (k.set (pairKey executionTime proposalID))
  else .error (.panic "time has no key")

/-- `Remove`. -/
def remove (k : ScheduleBytes) (executionTime : Time) (proposalID : Nat) : ScheduleBytes :=
  KeySet.remove k (pairKey executionTime proposalID)

/-- `ClearSchedule`. -/
def clearSchedule (_ : ScheduleBytes) : ScheduleBytes := KeySet.empty

/-- `collect`: the keys in the range, in their order, each read back. -/
def collect (k : ScheduleBytes) (rng : Text → Bool) : Option (List ScheduledProposal) :=
  (k.filter rng).mapM decodePair

/-- `Due`. -/
def due (k : ScheduleBytes) (now : Time) : Option (List ScheduledProposal) :=
  collect k (untilPrefix (timeKey now))

/-- `Export`. -/
def exportEntries (k : ScheduleBytes) : Option (List ScheduledProposal) := collect k fun _ => true

end ScheduleBytes

/-! ## Entries -/

/-- A time that has a key, and a `uint64`. -/
structure Entry where
  proposal : ScheduledProposal
  hasKey : HasTimeKey proposal.executionTime
  isUint64 : proposal.proposalID < 2 ^ 64

namespace Entry

theorem proposalID_lt (e : Entry) : e.proposal.proposalID < 256 ^ 8 := e.isUint64

def key (e : Entry) : Pair := e.proposal.key

theorem key_injective : Function.Injective key := by
  intro e e' h
  have hproposal : e.proposal = e'.proposal := congrArg ScheduledProposal.ofKey h
  cases e
  cases e'
  cases hproposal
  rfl

instance : LinearOrder Entry := LinearOrder.lift' key key_injective

def bytes (e : Entry) : Text := pairKey e.proposal.executionTime e.proposal.proposalID

theorem bytes_lt_iff {e e' : Entry} : e.bytes < e'.bytes ↔ e < e' := by
  show _ ↔ e.key < e'.key
  rw [Pair.lt_iff]
  exact pairKey_lt_iff e.hasKey e'.hasKey e.proposalID_lt e'.proposalID_lt

def toPair : Entry ↪o Pair := OrderEmbedding.ofStrictMono key fun _ _ h => h

def toBytes : Entry ↪o Text := OrderEmbedding.ofStrictMono bytes fun _ _ h => bytes_lt_iff.mpr h

theorem decodePair_bytes (e : Entry) : decodePair e.bytes = some e.proposal :=
  decodePair_pairKey e.hasKey e.proposalID_lt

end Entry

/-- A timelock with the entries scheduled and nothing else. -/
def Timelock.ofEntries (s : KeySet Entry) : Timelock :=
  { Timelock.fresh with scheduledProposals := s.map Entry.toPair }

/-! ## Calls -/

inductive ScheduleCall
  | schedule (e : Entry)
  | remove (e : Entry)
  | clearSchedule

namespace ScheduleCall

/-- The call on the store. -/
def onBytes (k : ScheduleBytes) : ScheduleCall → Except Fault ScheduleBytes
  | schedule e => k.schedule e.proposal.proposalID e.proposal.executionTime
  | remove e => .ok (k.remove e.proposal.executionTime e.proposal.proposalID)
  | clearSchedule => .ok k.clearSchedule

/-- The call on the schedule that is walked by pairs. -/
def onTimelock (t : Timelock) : ScheduleCall → Except Fault Timelock
  | schedule e => t.schedule e.proposal.proposalID e.proposal.executionTime
  | remove e => .ok (t.remove e.proposal.executionTime e.proposal.proposalID)
  | clearSchedule => .ok t.clearSchedule

/-- The call on a sorted set of entries. -/
def onEntries (s : KeySet Entry) : ScheduleCall → KeySet Entry
  | schedule e => s.set e
  | remove e => s.remove e
  | clearSchedule => KeySet.empty

/-- What the call does to the set of scheduled entries. -/
def effect (s : Set Entry) : ScheduleCall → Set Entry
  | schedule e => insert e s
  | remove e => s \ {e}
  | clearSchedule => ∅

theorem onBytes_map (s : KeySet Entry) (c : ScheduleCall) :
    c.onBytes (s.map Entry.toBytes) = .ok ((c.onEntries s).map Entry.toBytes) := by
  cases c with
  | schedule e =>
    show ScheduleBytes.schedule _ _ _ = _
    rw [ScheduleBytes.schedule, if_pos e.hasKey, onEntries, KeySet.map_set]
    rfl
  | remove e =>
    rw [onEntries, KeySet.map_remove]
    rfl
  | clearSchedule => rfl

theorem onTimelock_ofEntries (s : KeySet Entry) (c : ScheduleCall) :
    c.onTimelock (Timelock.ofEntries s) = .ok (Timelock.ofEntries (c.onEntries s)) := by
  cases c with
  | schedule e =>
    show Timelock.schedule _ _ _ = _
    rw [Timelock.schedule, if_pos e.hasKey, Timelock.ofEntries, Timelock.ofEntries, onEntries,
      KeySet.map_set]
    rfl
  | remove e =>
    rw [onEntries, Timelock.ofEntries, Timelock.ofEntries, KeySet.map_remove]
    rfl
  | clearSchedule => rfl

theorem mem_onEntries {s : KeySet Entry} {S : Set Entry} (h : ∀ e, e ∈ s ↔ e ∈ S)
    (c : ScheduleCall) (e : Entry) : e ∈ c.onEntries s ↔ e ∈ c.effect S := by
  cases c with
  | schedule e' => rw [onEntries, effect, KeySet.mem_set, Set.mem_insert_iff, h]
  | remove e' => rw [onEntries, effect, KeySet.mem_remove, Set.mem_sdiff, Set.mem_singleton_iff, h]
  | clearSchedule => simp [onEntries, effect]

end ScheduleCall

/-- The store after the calls. -/
def ScheduleBytes.run (calls : List ScheduleCall) : Except Fault ScheduleBytes :=
  calls.foldlM ScheduleCall.onBytes KeySet.empty

/-- The schedule that is walked by pairs, after the calls. -/
def Timelock.runCalls (calls : List ScheduleCall) : Except Fault Timelock :=
  calls.foldlM ScheduleCall.onTimelock Timelock.fresh

def entriesAfter (calls : List ScheduleCall) : KeySet Entry :=
  calls.foldl ScheduleCall.onEntries KeySet.empty

/-- The entries scheduled, and neither removed nor cleared since. -/
def scheduled (calls : List ScheduleCall) : Set Entry := calls.foldl ScheduleCall.effect ∅

/-- Calls that never fail on an image run on what it is the image of. -/
theorem foldlM_map {σ τ : Type} (f : σ → τ) {step : σ → ScheduleCall → σ}
    {stepM : τ → ScheduleCall → Except Fault τ}
    (hstep : ∀ s c, stepM (f s) c = .ok (f (step s c))) (calls : List ScheduleCall) (s : σ) :
    calls.foldlM stepM (f s) = .ok (f (calls.foldl step s)) := by
  induction calls generalizing s with
  | nil => rfl
  | cons c calls ih =>
    rw [List.foldlM_cons, hstep]
    exact ih (step s c)

theorem run_bytes (calls : List ScheduleCall) :
    ScheduleBytes.run calls = .ok ((entriesAfter calls).map Entry.toBytes) :=
  foldlM_map (KeySet.map Entry.toBytes) ScheduleCall.onBytes_map calls KeySet.empty

theorem run_timelock (calls : List ScheduleCall) :
    Timelock.runCalls calls = .ok (Timelock.ofEntries (entriesAfter calls)) :=
  foldlM_map Timelock.ofEntries ScheduleCall.onTimelock_ofEntries calls KeySet.empty

theorem mem_entriesAfter (calls : List ScheduleCall) (e : Entry) :
    e ∈ entriesAfter calls ↔ e ∈ scheduled calls := by
  -- from any set and its sorted form, not from the empty ones only
  suffices h : ∀ (s : KeySet Entry) (S : Set Entry), (∀ e, e ∈ s ↔ e ∈ S) →
      ∀ e, e ∈ calls.foldl ScheduleCall.onEntries s ↔ e ∈ calls.foldl ScheduleCall.effect S from
    h KeySet.empty ∅ (by simp) e
  induction calls with
  | nil =>
    intro s S h
    exact h
  | cons c calls ih =>
    intro s S h
    exact ih (c.onEntries s) (c.effect S) (ScheduleCall.mem_onEntries h c)

/-! ## What is read back -/

theorem mapM_decodePair (entries : List Entry) :
    (entries.map Entry.toBytes).mapM decodePair = some (entries.map Entry.proposal) := by
  induction entries with
  | nil => rfl
  | cons e entries ih =>
    have hread : decodePair (Entry.toBytes e) = some e.proposal := e.decodePair_bytes
    rw [List.map_cons, List.mapM_cons, hread, ih]
    rfl

theorem collect_map (s : KeySet Entry) (rng : Text → Bool) :
    ScheduleBytes.collect (s.map Entry.toBytes) rng =
      some ((s.filter fun e => rng e.bytes).map Entry.proposal) := by
  rw [ScheduleBytes.collect, KeySet.filter_map, mapM_decodePair]
  rfl

theorem due_map (s : KeySet Entry) {now : Time} (hnow : HasTimeKey now) :
    ScheduleBytes.due (s.map Entry.toBytes) now =
      some ((s.filter fun e => e.proposal.executionTime ≤ now).map Entry.proposal) := by
  have hrng : (fun e : Entry => untilPrefix (timeKey now) e.bytes) =
      fun e => decide (e.proposal.executionTime ≤ now) := by
    funext e
    rw [Bool.eq_iff_iff, decide_eq_true_eq]
    exact untilPrefix_pairKey e.hasKey hnow e.proposal.proposalID
  rw [ScheduleBytes.due, collect_map, hrng]

theorem exportEntries_map (s : KeySet Entry) :
    ScheduleBytes.exportEntries (s.map Entry.toBytes) = some (s.keys.map Entry.proposal) := by
  rw [ScheduleBytes.exportEntries, collect_map, KeySet.filter, List.filter_true]

theorem remove_map (s : KeySet Entry) (e : Entry) :
    ScheduleBytes.remove (s.map Entry.toBytes) e.proposal.executionTime e.proposal.proposalID =
      (s.remove e).map Entry.toBytes :=
  (KeySet.map_remove Entry.toBytes s e).symm

/-- What is read of the store is what is read of the schedule that is walked by pairs. -/
theorem reads_agree (calls : List ScheduleCall) :
    ∃ k t, ScheduleBytes.run calls = .ok k ∧ Timelock.runCalls calls = .ok t ∧
      k.exportEntries = some t.exportEntries ∧
      ∀ now, HasTimeKey now → k.due now = some (t.due now) := by
  refine ⟨_, _, run_bytes calls, run_timelock calls, ?_, ?_⟩
  · rw [exportEntries_map]
    show _ = some ((KeySet.filter (KeySet.map Entry.toPair _) _).map ScheduledProposal.ofKey)
    rw [KeySet.filter_map, List.map_map, KeySet.filter, List.filter_true]
    rfl
  · intro now hnow
    rw [due_map _ hnow]
    show _ = some ((KeySet.filter (KeySet.map Entry.toPair _) _).map ScheduledProposal.ofKey)
    rw [KeySet.filter_map, List.map_map]
    rfl

/-- **The schedule is a sorted set.** Whatever calls were made, there is one ascending list of
    the entries that are scheduled: `Export` returns it, `Due` its part up to `now`, and
    removing an entry takes that entry off it. -/
theorem schedule_faithful (calls : List ScheduleCall) :
    ∃ k, ScheduleBytes.run calls = .ok k ∧
      ∃ entries : List Entry,
        entries.Pairwise (fun e e' => e.proposal.key < e'.proposal.key) ∧
        (∀ e, e ∈ entries ↔ e ∈ scheduled calls) ∧
        k.exportEntries = some (entries.map Entry.proposal) ∧
        (∀ now, HasTimeKey now →
          k.due now =
            some ((entries.filter fun e => e.proposal.executionTime ≤ now).map Entry.proposal)) ∧
        ∀ e ∈ entries,
          (k.remove e.proposal.executionTime e.proposal.proposalID).exportEntries =
            some ((entries.filter (· ≠ e)).map Entry.proposal) := by
  refine ⟨_, run_bytes calls, (entriesAfter calls).keys, (entriesAfter calls).sorted,
    mem_entriesAfter calls, exportEntries_map _, ?_, ?_⟩
  · intro now hnow
    exact due_map _ hnow
  · intro e _
    rw [remove_map, exportEntries_map]
    rfl

end Ark.GovTimelock
