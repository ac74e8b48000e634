import Mathlib.Data.List.TakeWhile
import Ark.Lib.GoText

/- The EVM chain id of a Cosmos chain id (`app/config.go`).

   A known chain has its id in a table. Any other is written name_N-E, at most 48 bytes
   of it, and N is the id. The regular expression is anchored at both ends and each of its
   separators is outside the class before it, so a match takes every run as far as
   it goes (`evmosChainID`); that it is the only match is `evmosChainID_eq_some`.

   A chain id is trimmed bytes; the checks count bytes, the regular expression runes. On
   what it accepts the two are the same, since its classes are ASCII.

   Correspondence (Go ↔ Lean):
     `EVMChainIDMap[chainID]`                  ↔ `evmChainIDMap.lookup`
     `evmosChainID.FindStringSubmatch`         ↔ `evmosChainID`
     `matches[1]`, `matches[2]`                ↔ the first two of the three texts
     `return 0, err`                           ↔ `.error` with the text of the error -/
namespace Ark.ChainID
open Ark.Lib.Go

def evmChainIDMap : List (Text × UInt64) :=
  [(ascii "arkconstellation-1", 11199),
   (ascii "arkdevnet_9000-1", 9000),
   (ascii "ark_11199-1", 11199),
   (ascii "mantra-1", 5888),
   (ascii "mantra-dukong-1", 5887),
   (ascii "mantra-canary-net-1", 7888)]

/-- `[a-z]`. -/
def isLetter (c : UInt8) : Bool := 0x61 ≤ c && c ≤ 0x7a

/-- `^([a-z]{1,})_{1}([1-9][0-9]*)-{1}([1-9][0-9]*)$`. -/
def evmosChainID (s : Text) : Option (Text × Text × Text) :=
  -- neither separator is a letter or a digit, so a match takes whole runs of them
  let name := s.takeWhile isLetter
  match s.dropWhile isLetter with
  | 0x5f :: s =>
    let eip155 := s.takeWhile isDigit
    match s.dropWhile isDigit with
    | 0x2d :: epoch =>
      if name ≠ [] ∧ isNumeral eip155 ∧ isNumeral epoch then some (name, eip155, epoch) else none
    | _ => none
  | _ => none

def parseChainID (chainID : Text) : Except Text UInt64 :=
  let chainID := trimSpace chainID
  match evmChainIDMap.lookup chainID with
  | some id => .ok id
  | none =>
    if chainID.length > 48 then
      .error (ascii "chain-id '" ++ chainID ++ ascii "' cannot exceed 48 chars")
    else
      match evmosChainID chainID with
      | none => .error (chainID ++ ascii ": []")
      | some (_, eip155, _) =>
        match parseUint eip155 with
        | none => .error (ascii "epoch " ++ eip155 ++ ascii " must be base-10 integer format")
        | some chainIDUint => .ok chainIDUint

/-! ## The grammar -/

/-- The text is name_N-E. -/
structure Spelled (text name eip155 epoch : Text) : Prop where
  eq : text = name ++ 0x5f :: (eip155 ++ 0x2d :: epoch)
  name_ne : name ≠ []
  letters : ∀ c ∈ name, isLetter c = true
  eip155 : isNumeral eip155 = true
  epoch : isNumeral epoch = true

theorem takeWhile_run {p : UInt8 → Bool} {run : Text} {c : UInt8} (rest : Text)
    (hrun : ∀ x ∈ run, p x = true) (hc : p c = false) :
    (run ++ c :: rest).takeWhile p = run ∧ (run ++ c :: rest).dropWhile p = c :: rest := by
  constructor
  · rw [List.takeWhile_append_of_pos hrun, List.takeWhile_cons_of_neg (by simp [hc]),
      List.append_nil]
  · rw [List.dropWhile_append_of_pos hrun, List.dropWhile_cons_of_neg (by simp [hc])]

/-- The regular expression matches the texts of the grammar, and has one match for each. -/
theorem evmosChainID_eq_some {s name eip155 epoch : Text} :
    evmosChainID s = some (name, eip155, epoch) ↔ Spelled s name eip155 epoch := by
  constructor
  · intro h
    unfold evmosChainID at h
    have hname := List.takeWhile_append_dropWhile (p := isLetter) (l := s)
    split at h
    case h_2 => cases h
    case h_1 rest hrest =>
      have heip := List.takeWhile_append_dropWhile (p := isDigit) (l := rest)
      simp only at h
      split at h
      case h_2 => cases h
      case h_1 e he =>
        split at h
        case isFalse => cases h
        case isTrue hparts =>
          obtain ⟨hne, hnumeral, hepoch⟩ := hparts
          cases h
          rw [he] at heip
          rw [hrest, ← heip] at hname
          exact ⟨hname.symm, hne, fun c hc => List.mem_takeWhile_imp hc, hnumeral, hepoch⟩
  · intro h
    have hdigits := List.all_eq_true.mp (isNumeral_digits h.eip155).2
    obtain ⟨hname, hrest⟩ := takeWhile_run (eip155 ++ 0x2d :: epoch) h.letters
      (by decide : isLetter 0x5f = false)
    obtain ⟨heip, hepoch⟩ := takeWhile_run epoch hdigits
      (by decide : isDigit 0x2d = false)
    unfold evmosChainID
    rw [h.eq]
    simp only [hname, hrest, heip, hepoch]
    rw [if_pos ⟨h.name_ne, h.eip155, h.epoch⟩]

theorem Spelled.unique {s name eip155 epoch name' eip155' epoch' : Text}
    (h : Spelled s name eip155 epoch) (h' : Spelled s name' eip155' epoch') :
    name = name' ∧ eip155 = eip155' ∧ epoch = epoch' := by
  have heq := evmosChainID_eq_some.mpr h
  rw [evmosChainID_eq_some.mpr h'] at heq
  cases heq
  exact ⟨rfl, rfl, rfl⟩

/-! ## What the parser accepts -/

/-- The id is the number in the middle, where a word holds it. -/
theorem Spelled.parseUint {s name eip155 epoch : Text} (h : Spelled s name eip155 epoch)
    {id : UInt64} :
    parseUint eip155 = some id ↔
      ∃ name eip155 epoch, Spelled s name eip155 epoch ∧ id.toNat = readDecimal 0 eip155 := by
  rw [parseUint_eq_some]
  constructor
  · intro hparse
    exact ⟨name, eip155, epoch, h, hparse.2.2⟩
  · intro hspelled
    obtain ⟨name', eip155', epoch', h', hid⟩ := hspelled
    obtain ⟨hne, hdigits⟩ := isNumeral_digits h.eip155
    rw [(h.unique h').2.1] at hne hdigits ⊢
    exact ⟨hne, hdigits, hid⟩

theorem parseChainID_eq_ok {s : Text} {id : UInt64} :
    parseChainID s = .ok id ↔
      evmChainIDMap.lookup (trimSpace s) = some id ∨
        evmChainIDMap.lookup (trimSpace s) = none ∧ (trimSpace s).length ≤ 48 ∧
          ∃ name eip155 epoch, Spelled (trimSpace s) name eip155 epoch ∧
            id.toNat = readDecimal 0 eip155 := by
  simp only [parseChainID]
  generalize trimSpace s = t
  cases hlookup : evmChainIDMap.lookup t with
  | some known => simp
  | none =>
    by_cases hlen : t.length > 48
    · have hnot : ¬ t.length ≤ 48 := by omega
      simp [hlen, hnot]
    · have hle : t.length ≤ 48 := by omega
      cases hmatch : evmosChainID t with
      | none =>
        have hno : ∀ name eip155 epoch, ¬ Spelled t name eip155 epoch := by
          intro name eip155 epoch h
          rw [evmosChainID_eq_some.mpr h] at hmatch
          cases hmatch
        simp [hlen, hno]
      | some parts =>
        obtain ⟨name, eip155, epoch⟩ := parts
        have hspelled := evmosChainID_eq_some.mp hmatch
        simp only [if_neg hlen, hle, true_and, reduceCtorEq, false_or, ← hspelled.parseUint]
        cases parseUint eip155 with
        | none => simp
        | some chainIDUint => simp

theorem lookup_eq_none {t : Text} :
    evmChainIDMap.lookup t = none ↔ t ∉ evmChainIDMap.map Prod.fst := by
  rw [List.lookup_eq_none_iff]
  constructor
  · intro h hmem
    obtain ⟨entry, hentry, ht⟩ := List.mem_map.mp hmem
    exact bne_iff_ne.mp (h entry hentry) ht.symm
  · intro h entry hentry
    rw [bne_iff_ne]
    intro ht
    rw [ht] at h
    exact h (List.mem_map_of_mem hentry)

/-- What a chain id outside the table gives. -/
theorem parseChainID_spelled {s : Text} {id : UInt64} (h : parseChainID s = .ok id)
    (hunknown : trimSpace s ∉ evmChainIDMap.map Prod.fst) :
    (trimSpace s).length ≤ 48 ∧ ∃ name eip155 epoch, Spelled (trimSpace s) name eip155 epoch ∧
      id.toNat = readDecimal 0 eip155 := by
  rcases parseChainID_eq_ok.mp h with hknown | hspelled
  · rw [lookup_eq_none.mpr hunknown] at hknown
    cases hknown
  · exact hspelled.2

theorem parseChainID_value {s : Text} {id : UInt64} (h : parseChainID s = .ok id)
    (hunknown : trimSpace s ∉ evmChainIDMap.map Prod.fst) {name eip155 epoch : Text}
    (hspelled : Spelled (trimSpace s) name eip155 epoch) : id.toNat = readDecimal 0 eip155 := by
  obtain ⟨_, name', eip155', epoch', hspelled', hid⟩ := parseChainID_spelled h hunknown
  rw [(hspelled.unique hspelled').2.1]
  exact hid

theorem parseChainID_accepts (s : Text) : (∃ id, parseChainID s = .ok id) ↔
    trimSpace s ∈ evmChainIDMap.map Prod.fst ∨
      (trimSpace s).length ≤ 48 ∧ ∃ name eip155 epoch,
        Spelled (trimSpace s) name eip155 epoch ∧ readDecimal 0 eip155 < 2 ^ 64 := by
  by_cases hknown : trimSpace s ∈ evmChainIDMap.map Prod.fst
  · have hlookup := mt lookup_eq_none.mp (not_not_intro hknown)
    obtain ⟨id, hid⟩ := Option.ne_none_iff_exists'.mp hlookup
    simp only [hknown, true_or, iff_true]
    exact ⟨id, parseChainID_eq_ok.mpr (Or.inl hid)⟩
  · constructor
    · intro h
      obtain ⟨id, hid⟩ := h
      obtain ⟨hlen, name, eip155, epoch, hspelled, hvalue⟩ := parseChainID_spelled hid hknown
      have hlt := id.toNat_lt
      exact Or.inr ⟨hlen, name, eip155, epoch, hspelled, by omega⟩
    · intro h
      rcases h with h | ⟨hlen, name, eip155, epoch, hspelled, hlt⟩
      · exact absurd h hknown
      · refine ⟨UInt64.ofNat (readDecimal 0 eip155), parseChainID_eq_ok.mpr (Or.inr ?_)⟩
        exact ⟨lookup_eq_none.mpr hknown, hlen, name, eip155, epoch, hspelled,
          UInt64.toNat_ofNat_of_lt' hlt⟩

/-- The ids of the table are not zero. -/
theorem evmChainIDMap_ne_zero {t : Text} {id : UInt64} (h : evmChainIDMap.lookup t = some id) :
    id ≠ 0 := by
  have hall : ∀ entry ∈ evmChainIDMap, entry.2 ≠ 0 := by decide
  obtain ⟨before, after, hmap, _⟩ := List.lookup_eq_some_iff.mp h
  exact hall (t, id) (by simp [hmap])

theorem parseChainID_ne_zero {s : Text} {id : UInt64} (h : parseChainID s = .ok id) : id ≠ 0 := by
  rcases parseChainID_eq_ok.mp h with h | ⟨_, _, name, eip155, epoch, hspelled, hid⟩
  · exact evmChainIDMap_ne_zero h
  · have hpos := readDecimal_pos hspelled.eip155
    intro hzero
    rw [hzero] at hid
    have : (0 : UInt64).toNat = 0 := rfl
    omega

theorem parseChainID_trimSpace (s : Text) : parseChainID (trimSpace s) = parseChainID s := by
  unfold parseChainID
  rw [trimSpace_trimSpace]

/-- **The parser accepts exactly its grammar.** A known chain id gives the id of the table. Any
other is accepted when it has at most 48 bytes, is written name_N-E and N fits 64 bits, and gives
N. The split is the only one, name, N and E belong to one text, and no id is 0. -/
theorem parseChainID_grammar :
    (∀ s : Text, (∃ id, parseChainID s = .ok id) ↔
      trimSpace s ∈ evmChainIDMap.map Prod.fst ∨
        (trimSpace s).length ≤ 48 ∧ ∃ name eip155 epoch,
          Spelled (trimSpace s) name eip155 epoch ∧ readDecimal 0 eip155 < 2 ^ 64) ∧
    (∀ s id, evmChainIDMap.lookup (trimSpace s) = some id → parseChainID s = .ok id) ∧
    (∀ s id name eip155 epoch, parseChainID s = .ok id →
      trimSpace s ∉ evmChainIDMap.map Prod.fst → Spelled (trimSpace s) name eip155 epoch →
        id.toNat = readDecimal 0 eip155) ∧
    (∀ t name eip155 epoch name' eip155' epoch', Spelled t name eip155 epoch →
      Spelled t name' eip155' epoch' → name = name' ∧ eip155 = eip155' ∧ epoch = epoch') ∧
    (∀ s s' id name eip155 eip155' epoch, parseChainID s = .ok id → parseChainID s' = .ok id →
      trimSpace s ∉ evmChainIDMap.map Prod.fst → trimSpace s' ∉ evmChainIDMap.map Prod.fst →
      Spelled (trimSpace s) name eip155 epoch → Spelled (trimSpace s') name eip155' epoch →
        trimSpace s = trimSpace s') ∧
    (∀ s, parseChainID s ≠ .ok 0) := by
  refine ⟨parseChainID_accepts, ?_, ?_, ?_, ?_, ?_⟩
  · intro s id h
    exact parseChainID_eq_ok.mpr (Or.inl h)
  · intro s id name eip155 epoch h hunknown hspelled
    exact parseChainID_value h hunknown hspelled
  · intro t name eip155 epoch name' eip155' epoch' h h'
    exact h.unique h'
  · intro s s' id name eip155 eip155' epoch h h' hunknown hunknown' hspelled hspelled'
    have hid := parseChainID_value h hunknown hspelled
    have hid' := parseChainID_value h' hunknown' hspelled'
    have heip : eip155 = eip155' :=
      readDecimal_injective hspelled.eip155 hspelled'.eip155 (hid.symm.trans hid')
    rw [hspelled.eq, hspelled'.eq, heip]
  · intro s h
    exact parseChainID_ne_zero h rfl

end Ark.ChainID
