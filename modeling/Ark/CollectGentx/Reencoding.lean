import Mathlib.Data.List.TakeWhile
import Ark.CollectGentx
import Ark.Lib.Bech32.Checksum

/- Re-encoding an operator address under the prefix of accounts.

   The script decodes an address and encodes its data under another prefix. A text that
   it decodes is, in lower case, the encoding of what it got (`decode_eq_some`): the
   separator is the last '1', since no symbol is a '1', and the checksum is the only one
   that fits. And an encoding under a prefix in lower case is decoded to what it was
   made from (`decode_encode`). So re-encoding loses nothing: under the first prefix
   again it gives the first address, and two addresses meet exactly when they have
   the same data. -/
namespace Ark.CollectGentx.Reencode
open Ark.Lib.Bech32

/-- A prefix that the standard allows, in lower case. -/
structure Hrp (hrp : List Char) : Prop where
  ne : hrp ≠ []
  printable : ∀ c ∈ hrp, 33 ≤ c.toNat ∧ c.toNat ≤ 126
  lower : hrp.map Char.toLower = hrp

/-! ## Encodings are decoded -/

theorem symbolChar_plain : ∀ d : Symbol, (33 ≤ (symbolChar d).toNat ∧ (symbolChar d).toNat ≤ 126) ∧
    (symbolChar d).toLower = symbolChar d ∧ symbolChar d ≠ '1' := by
  decide

theorem symbolChar_injective : Function.Injective symbolChar := by
  intro a b h
  have ha := charSymbol_symbolChar a
  rw [h, charSymbol_symbolChar] at ha
  exact (Option.some.inj ha).symm

theorem map_toLower_symbols (data : List Symbol) :
    (data.map symbolChar).map Char.toLower = data.map symbolChar := by
  rw [List.map_map]
  apply List.map_congr_left
  intro d _
  exact (symbolChar_plain d).2.1

/-- What follows the last '1' of a text. -/
theorem takeWhile_separator {front back : List Char} (h : '1' ∉ back) :
    ((front ++ '1' :: back).reverse.takeWhile fun c => c ≠ '1').reverse = back := by
  have hback : ∀ c ∈ back.reverse, decide (c ≠ '1') = true := by
    intro c hc
    apply decide_eq_true
    intro heq
    rw [heq] at hc
    exact h (List.mem_reverse.mp hc)
  rw [List.reverse_append, List.reverse_cons, List.append_assoc, List.takeWhile_append_of_pos hback]
  simp

theorem take_data {g : List Char} (d : List Symbol) :
    (d ++ checksum g d).take ((d ++ checksum g d).length - 6) = d := by
  rw [List.length_append, length_checksum, Nat.add_sub_cancel, List.take_left]

/-! ## What is decoded -/

/-- The checks of the characters. -/
structure OneCase (bech : List Char) : Prop where
  printable : ∀ c ∈ bech, 33 ≤ c.toNat ∧ c.toNat ≤ 126
  cased : bech.map Char.toLower = bech ∨ bech.map Char.toUpper = bech

/-- The rest of the decoding, split at the last '1'. -/
def decodeParts (hrp dataPart : List Char) : Option (List Char × List Symbol) :=
  if hrp = [] ∨ dataPart.length < 6 then none
  else
    match dataPart.mapM charSymbol with
    | none => none
    | some data =>
      if polymod (hrpExpand hrp ++ data.map Fin.val) ≠ 1 then none
      else some (hrp, data.take (data.length - 6))

theorem decode_split {bech front back : List Char} (hcase : OneCase bech)
    (hlower : bech.map Char.toLower = front ++ '1' :: back) (hno : '1' ∉ back) :
    decode bech = decodeParts front back := by
  have hprintable : ¬ (bech.any fun c => c.toNat < 33 ∨ c.toNat > 126) = true := by
    rw [List.any_eq_true]
    intro h
    obtain ⟨c, hc, hout⟩ := h
    have := hcase.printable c hc
    have := of_decide_eq_true hout
    omega
  have hcased : ¬ (bech.map Char.toLower ≠ bech ∧ bech.map Char.toUpper ≠ bech) := by
    have := hcase.cased
    tauto
  have hpos : (front ++ '1' :: back).length - back.length - 1 = front.length := by
    simp
    omega
  have hmem : '1' ∈ front ++ '1' :: back := by simp
  rw [decode, if_neg hprintable, if_neg hcased]
  simp only [hlower, takeWhile_separator hno, hpos, hmem, not_true_eq_false, false_or,
    List.take_left]
  unfold decodeParts
  congr 1
  rw [List.length_append, List.length_cons, ← List.length_eq_zero_iff]
  apply propext
  omega

theorem oneCase_of_decode {bech : List Char} {parts : List Char × List Symbol}
    (h : decode bech = some parts) : OneCase bech ∧ '1' ∈ bech.map Char.toLower := by
  unfold decode at h
  split at h
  case isTrue => cases h
  case isFalse hprintable =>
    split at h
    case isTrue => cases h
    case isFalse hcased =>
      refine ⟨⟨?_, by tauto⟩, ?_⟩
      · intro c hc
        by_contra hout
        apply hprintable
        rw [List.any_eq_true]
        exact ⟨c, hc, decide_eq_true (by omega)⟩
      · by_contra hno
        simp [hno] at h

/-- A text has a last '1'. -/
theorem last_separator {text : List Char} (h : '1' ∈ text) :
    ∃ front back, text = front ++ '1' :: back ∧ '1' ∉ back := by
  obtain ⟨after, before, hsplit, hno⟩ := List.eq_append_cons_of_mem (List.mem_reverse.mpr h)
  refine ⟨before.reverse, after.reverse, ?_, by simpa using hno⟩
  rw [← List.reverse_reverse text, hsplit]
  simp

theorem map_symbolChar_of_mapM {text : List Char} {data : List Symbol}
    (h : text.mapM charSymbol = some data) : text = data.map symbolChar := by
  induction text generalizing data with
  | nil =>
    cases h
    rfl
  | cons c text ih =>
    rw [List.mapM_cons] at h
    cases hc : charSymbol c with
    | none => simp [hc] at h
    | some d =>
      cases hrest : text.mapM charSymbol with
      | none => simp [hc, hrest] at h
      | some rest =>
        have hd : symbolChar d = c := by
          have := List.find?_some hc
          simpa using this
        rw [hc, hrest] at h
        cases h
        rw [List.map_cons, hd, ← ih hrest]

/-- The parts are decoded exactly when they are a prefix and symbols with their checksum. -/
theorem decodeParts_eq_some {hrp dataPart : List Char} {h : List Char} {d : List Symbol} :
    decodeParts hrp dataPart = some (h, d) ↔
      h = hrp ∧ hrp ≠ [] ∧ dataPart = (d ++ checksum hrp d).map symbolChar := by
  constructor
  · intro hparts
    unfold decodeParts at hparts
    split at hparts
    case isTrue => cases hparts
    case isFalse hlen =>
      rw [not_or] at hlen
      split at hparts
      case h_1 => cases hparts
      case h_2 data hdata =>
        split at hparts
        case isTrue => cases hparts
        case isFalse hpoly =>
          cases hparts
          have hpart := map_symbolChar_of_mapM hdata
          have hdatalen : 6 ≤ data.length := by
            have := hlen.2
            rw [hpart, List.length_map] at this
            omega
          have hsplit := List.take_append_drop (data.length - 6) data
          have hlast : (data.drop (data.length - 6)).length = 6 := by
            rw [List.length_drop]
            omega
          refine ⟨rfl, hlen.1, ?_⟩
          rw [← (polymod_checksum_iff hrp _ hlast).mp ?_, hsplit, hpart]
          rw [List.append_assoc, ← List.map_append, hsplit]
          exact not_not.mp hpoly
  · intro hparts
    obtain ⟨hh, hne, hpart⟩ := hparts
    have hlen : ¬ (hrp = [] ∨ dataPart.length < 6) := by
      rw [hpart, List.length_map, List.length_append, length_checksum]
      rw [not_or]
      exact ⟨hne, by omega⟩
    have hpoly := polymod_checksum hrp d
    rw [List.append_assoc, ← List.map_append] at hpoly
    rw [decodeParts, if_neg hlen, hpart, mapM_charSymbol]
    simp only [hpoly, take_data, hh]
    rfl

/-- **What the decoder accepts**: a text in one case whose lower-case form is the encoding of a
prefix and data. -/
theorem decode_eq_some {bech h : List Char} {d : List Symbol} :
    decode bech = some (h, d) ↔
      OneCase bech ∧ h ≠ [] ∧ bech.map Char.toLower = encode h d := by
  -- no symbol is a '1', so the separator is the last one
  have hno : '1' ∉ (d ++ checksum h d).map symbolChar := by
    intro hmem
    obtain ⟨s, _, hs⟩ := List.mem_map.mp hmem
    exact (symbolChar_plain s).2.2 hs
  constructor
  · intro hdecode
    obtain ⟨hcase, hmem⟩ := oneCase_of_decode hdecode
    obtain ⟨front, back, hlower, hlast⟩ := last_separator hmem
    rw [decode_split hcase hlower hlast, decodeParts_eq_some] at hdecode
    obtain ⟨hh, hne, hback⟩ := hdecode
    rw [hlower, encode, hh]
    exact ⟨hcase, hne, by rw [hback]⟩
  · intro hparts
    obtain ⟨hcase, hne, hlower⟩ := hparts
    rw [decode_split hcase hlower hno, decodeParts_eq_some]
    exact ⟨rfl, hne, rfl⟩

/-! ## Re-encoding -/

theorem encode_oneCase {g : List Char} (hg : Hrp g) (d : List Symbol) :
    OneCase (encode g d) ∧ (encode g d).map Char.toLower = encode g d := by
  have hlower : (encode g d).map Char.toLower = encode g d := by
    rw [encode, List.map_append, List.map_cons, hg.lower, map_toLower_symbols]
    rfl
  refine ⟨⟨?_, Or.inl hlower⟩, hlower⟩
  intro c hc
  rw [encode, List.mem_append, List.mem_cons, List.mem_map] at hc
  rcases hc with hc | hc | ⟨s, _, hs⟩
  · exact hg.printable c hc
  · rw [hc]
    decide
  · rw [← hs]
    exact (symbolChar_plain s).1

theorem decode_encode {g : List Char} (hg : Hrp g) (d : List Symbol) :
    decode (encode g d) = some (g, d) :=
  decode_eq_some.mpr ⟨(encode_oneCase hg d).1, hg.ne, (encode_oneCase hg d).2⟩

theorem encode_injective {g : List Char} {d d' : List Symbol} (h : encode g d = encode g d') :
    d = d' := by
  have hsymbols := (List.cons.inj (List.append_cancel_left h)).2
  have hdata := List.map_injective_iff.mpr symbolChar_injective hsymbols
  rw [← take_data (g := g) d, hdata, take_data]

theorem reencode_of_decode {a h g : List Char} {d : List Symbol} (ha : decode a = some (h, d)) :
    reencode a g = some (encode g d) := by
  rw [reencode, ha]
  rfl

/-- **Re-encoding is a bijection on the data.** Under any prefix in lower case the data of an
accepted address is decoded again, and re-encoding it under the first prefix gives the address in
lower case; two addresses are re-encoded alike exactly when they have the same data. The checksum
leaves the remainder 1, whatever the prefix and the data. -/
theorem reencode_bijective :
    (∀ (a h : List Char) (d : List Symbol), decode a = some (h, d) → ∀ g, Hrp g →
      reencode a g = some (encode g d) ∧ decode (encode g d) = some (g, d) ∧
        reencode (encode g d) h = some (a.map Char.toLower)) ∧
    (∀ (a h a' h' : List Char) (d d' : List Symbol), decode a = some (h, d) →
      decode a' = some (h', d') → ∀ g, reencode a g = reencode a' g ↔ d = d') ∧
    (∀ (hrp : List Char) (data : List Symbol),
      polymod (hrpExpand hrp ++ data.map Fin.val ++ (checksum hrp data).map Fin.val) = 1) := by
  refine ⟨?_, ?_, polymod_checksum⟩
  · intro a h d ha g hg
    refine ⟨reencode_of_decode ha, decode_encode hg d, ?_⟩
    rw [reencode_of_decode (decode_encode hg d), (decode_eq_some.mp ha).2.2]
  · intro a h a' h' d d' ha ha' g
    rw [reencode_of_decode ha, reencode_of_decode ha', Option.some.injEq]
    constructor
    · exact encode_injective
    · intro hd
      rw [hd]

end Ark.CollectGentx.Reencode
