import Mathlib.Data.List.DropRight
import Ark.DenomMetadata.Corrections

/- What an accepted entry does to the ERC-20 of an IBC denom.

   The README says how the precompile's `Decimals()` reads the entry: the last segment
   of `display` is looked up among the units. The bank's check looks up the whole of
   `display` (`BankValid`). The two lookups agree on a display without a slash
   (`decimals_eq_voted`), and on no other: the last segment is then another denom, so
   there is no unit for it, or one with another exponent (`decimals_ne_voted`). The
   exponent 0 of the README's report does not come back (`decimals_ne_zero`): the one
   unit at 0 is the base, whose denom has a slash. -/
namespace Ark.DenomMetadata
open Ark.Sdk Ark.Lib Ark.Lib.Checks

/-! ## The two lookups -/

/-- The unit of a denom. -/
def Metadata.unitOf (md : Metadata) (denom : String) : Option DenomUnit :=
  md.denomUnits.find? fun unit => unit.denom = denom

/-- The exponent that was voted for: that of the unit `display`. -/
def Metadata.votedDecimals (md : Metadata) : Option UInt32 :=
  (md.unitOf md.display).map DenomUnit.exponent

/-- What follows the last slash. -/
def lastSegment (text : String) : String :=
  String.ofList (text.toList.rtakeWhile (· ≠ '/'))

/-- `Decimals()` of an `ibc/` denom; `none` when the call reverts. -/
def Metadata.decimals (md : Metadata) : Option UInt32 :=
  (md.unitOf (lastSegment md.display)).map DenomUnit.exponent

/-- The base is the denom of an asset that came over IBC. -/
def Metadata.Ibc (md : Metadata) : Prop := "ibc/".toList <+: md.base.toList

instance (md : Metadata) : Decidable md.Ibc :=
  inferInstanceAs (Decidable ("ibc/".toList <+: md.base.toList))

/-- What `Metadata.Validate` asks of the units; a denom may contain slashes. -/
structure BankValid (md : Metadata) : Prop where
  first : md.denomUnits.head?.map (fun unit => (unit.denom, unit.exponent)) = some (md.base, 0)
  ascending : md.denomUnits.Pairwise fun x y => x.exponent < y.exponent
  unique : (md.denomUnits.map DenomUnit.denom).Nodup
  denoms : ∀ unit ∈ md.denomUnits, validateDenom unit.denom = true
  display : ∃ unit ∈ md.denomUnits, unit.denom = md.display

section
variable {md : Metadata} {unit other : DenomUnit}

theorem lastSegment_noSlash (text : String) : '/' ∉ (lastSegment text).toList := by
  unfold lastSegment
  rw [String.toList_ofList]
  intro h
  have := List.mem_rtakeWhile_imp h
  simp at this

theorem lastSegment_eq {text : String} (h : '/' ∉ text.toList) : lastSegment text = text := by
  have hall : text.toList.rtakeWhile (· ≠ '/') = text.toList := by
    rw [List.rtakeWhile_eq_self_iff]
    intro c hc
    simp only [ne_eq, decide_eq_true_eq]
    intro he
    exact h (he ▸ hc)
  unfold lastSegment
  rw [hall, String.ofList_toList]

theorem unitOf_some {denom : String} (h : md.unitOf denom = some unit) :
    unit ∈ md.denomUnits ∧ unit.denom = denom := by
  unfold Metadata.unitOf at h
  have hdenom := List.find?_some h
  exact ⟨List.mem_of_find?_eq_some h, by simpa using hdenom⟩

/-- A valid entry has one unit for each of its denoms. -/
theorem BankValid.unitOf_eq (h : BankValid md) (hunit : unit ∈ md.denomUnits) :
    md.unitOf unit.denom = some unit := by
  cases hfind : md.unitOf unit.denom with
  | none =>
    unfold Metadata.unitOf at hfind
    have := List.find?_eq_none.mp hfind unit hunit
    simp at this
  | some found =>
    obtain ⟨hfound, he⟩ := unitOf_some hfind
    rw [List.inj_on_of_nodup_map h.unique hfound hunit he]

/-- No two of its units have the same exponent. -/
theorem BankValid.exponent_injective (h : BankValid md) (hunit : unit ∈ md.denomUnits)
    (hother : other ∈ md.denomUnits) (he : unit.exponent = other.exponent) : unit = other := by
  have hnodup : (md.denomUnits.map DenomUnit.exponent).Nodup := by
    apply List.pairwise_map.mpr
    apply h.ascending.imp
    intro x y hlt heq
    rw [heq] at hlt
    exact UInt32.lt_irrefl _ hlt
  exact List.inj_on_of_nodup_map hnodup hunit hother he

theorem BankValid.voted (h : BankValid md) :
    ∃ unit ∈ md.denomUnits, unit.denom = md.display ∧ md.votedDecimals = some unit.exponent := by
  obtain ⟨unit, hunit, hdisplay⟩ := h.display
  refine ⟨unit, hunit, hdisplay, ?_⟩
  unfold Metadata.votedDecimals
  rw [← hdisplay, h.unitOf_eq hunit, Option.map_some]

theorem decimals_eq_voted (h : '/' ∉ md.display.toList) : md.decimals = md.votedDecimals := by
  unfold Metadata.decimals Metadata.votedDecimals
  rw [lastSegment_eq h]

theorem decimals_ne_voted (hvalid : BankValid md) (h : '/' ∈ md.display.toList) :
    md.decimals ≠ md.votedDecimals := by
  obtain ⟨unit, hunit, hdisplay, hvoted⟩ := hvalid.voted
  rw [hvoted]
  unfold Metadata.decimals
  intro he
  obtain ⟨found, hfind, hexponent⟩ := Option.map_eq_some_iff.mp he
  obtain ⟨hfound, hsegment⟩ := unitOf_some hfind
  -- the unit found has the exponent of `display`, so it is that unit
  have hsame := hvalid.exponent_injective hfound hunit hexponent
  have hdenom : lastSegment md.display = md.display := by
    rw [← hsegment, hsame, hdisplay]
  apply lastSegment_noSlash md.display
  rw [hdenom]
  exact h

/-- The call never answers 0 for an accepted entry. -/
theorem decimals_ne_zero (hvalid : BankValid md) (hibc : md.Ibc) : md.decimals ≠ some 0 := by
  intro h
  obtain ⟨found, hfind, hexponent⟩ := Option.map_eq_some_iff.mp h
  obtain ⟨hfound, hsegment⟩ := unitOf_some hfind
  obtain ⟨first, hhead, hfirst⟩ := Option.map_eq_some_iff.mp hvalid.first
  obtain ⟨hbase, hzero⟩ := Prod.mk.inj hfirst
  have hmem := List.mem_of_head? hhead
  have hsame := hvalid.exponent_injective hfound hmem (hexponent.trans hzero.symm)
  apply lastSegment_noSlash md.display
  rw [← hsegment, hsame, hbase]
  apply hibc.subset
  decide

end

/-! ## Accepted messages -/

/-- For the entries of an accepted message with an `ibc/` base, `Decimals()` answers what was
voted exactly when no display has a slash. -/
theorem decimals_as_voted (outside : Outside)
    (hbank : ∀ md, outside.validate md = none → BankValid md) (msg : MsgSetDenomMetadata)
    (haccept : validateBasic outside msg = .ok ()) :
    (∀ md ∈ msg.metadata, md.Ibc → ∃ unit ∈ md.denomUnits, unit.denom = lastSegment md.display ∧
      md.decimals = some unit.exponent ∧ md.votedDecimals = some unit.exponent) ↔
    ∀ md ∈ msg.metadata, md.Ibc → '/' ∉ md.display.toList := by
  obtain ⟨_, _, hvalid, _⟩ := validateBasic_ok.mp haccept
  constructor
  · intro h md hmd hibc hslash
    obtain ⟨unit, _, _, hdecimals, hvoted⟩ := h md hmd hibc
    apply decimals_ne_voted (hbank md (hvalid md hmd)) hslash
    rw [hdecimals, hvoted]
  · intro h md hmd hibc
    have hslash := h md hmd hibc
    obtain ⟨unit, hunit, hdisplay, hvoted⟩ := (hbank md (hvalid md hmd)).voted
    refine ⟨unit, hunit, ?_, ?_, hvoted⟩
    · rw [lastSegment_eq hslash, hdisplay]
    · rw [decimals_eq_voted hslash, hvoted]

/-- A bank that checks the units. -/
def bankOutside : Outside :=
  { smallOutside with
    validate := fun md =>
      if md.denomUnits.head?.map (fun unit => (unit.denom, unit.exponent)) = some (md.base, 0) ∧
        (md.denomUnits.Pairwise fun x y => x.exponent < y.exponent) ∧
        (md.denomUnits.map DenomUnit.denom).Nodup ∧
        (∀ unit ∈ md.denomUnits, validateDenom unit.denom = true) ∧
        ∃ unit ∈ md.denomUnits, unit.denom = md.display
      then none else some (.errorf "invalid metadata") }

theorem bankOutside_valid (md : Metadata) (h : bankOutside.validate md = none) :
    BankValid md := by
  unfold bankOutside at h
  simp only at h
  split at h
  · rename_i hvalid
    obtain ⟨hfirst, hascending, hunique, hdenoms, hdisplay⟩ := hvalid
    exact ⟨hfirst, hascending, hunique, hdenoms, hdisplay⟩
  · cases h

/-- The asset of the README's report, with its precision and the display that was voted for. -/
def amantra (display : String) : Metadata :=
  ⟨"", [⟨"ibc/784D26", 0, []⟩, ⟨display, 18, []⟩], "ibc/784D26", display, "MANTRA", "OM", "", ""⟩

/-- With a display without a slash it has 18 decimals. -/
theorem decimals_as_voted_mantra : (amantra "mantra").decimals = some 18 := by
  have haccept : validateBasic bankOutside ⟨smallAuthority, [amantra "mantra"]⟩ = .ok () := by
    rw [validateBasic_ok]
    refine ⟨⟨_, smallAuthority_parses⟩, by simp, ?_, by simp⟩
    rw [List.forall_mem_singleton]
    decide
  have hdisplay : ∀ md ∈ [amantra "mantra"], md.Ibc → '/' ∉ md.display.toList := by
    rw [List.forall_mem_singleton]
    decide
  obtain ⟨unit, _, _, hdecimals, hvoted⟩ := (decimals_as_voted bankOutside bankOutside_valid _
    haccept).mpr hdisplay _ (List.mem_singleton_self _) (by decide)
  rw [hdecimals, ← hvoted]
  decide

/-- With the display that the transfer module writes it is accepted, and the call reverts. -/
theorem decimals_reverts :
    validateBasic bankOutside ⟨smallAuthority, [amantra "transfer/channel-0/amantra"]⟩ = .ok () ∧
    (amantra "transfer/channel-0/amantra").Ibc ∧
    (amantra "transfer/channel-0/amantra").votedDecimals = some 18 ∧
    (amantra "transfer/channel-0/amantra").decimals = none := by
  refine ⟨?_, by decide, by decide, by decide⟩
  rw [validateBasic_ok]
  refine ⟨⟨_, smallAuthority_parses⟩, by simp, ?_, by simp⟩
  rw [List.forall_mem_singleton]
  decide

end Ark.DenomMetadata
