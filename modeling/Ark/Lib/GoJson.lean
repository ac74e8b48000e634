import Ark.Lib.GoText

/- `encoding/json`: texts that hold one value.

   Names and strings are runes once they are unquoted; bytes that are no UTF-8 become
   U+FFFD. The scanner is a descent with fuel, two rounds for each byte being enough
   (`scanValue_fuel`). A text that is read is a text of the grammar, of the value that is
   read (`parse_sound`). -/
namespace Ark.Lib.Go

inductive Json
  | null
  | bool (b : Bool)
  | number (raw : Text)
  | string (runes : List Nat)
  | array (items : List Json)
  | object (fields : List (List Nat × Json))

namespace Json

/-! ## Strings -/

def hexValue (c : UInt8) : Option Nat :=
  if 0x30 ≤ c ∧ c ≤ 0x39 then some (c.toNat - 0x30)
  else if 0x61 ≤ c ∧ c ≤ 0x66 then some (c.toNat - 0x57)
  else if 0x41 ≤ c ∧ c ≤ 0x46 then some (c.toNat - 0x37)
  else none

def isHex (c : UInt8) : Bool := (hexValue c).isSome

/-- `getu4`, of four hex digits. -/
def hex4 (digits : Text) : Nat := digits.foldl (fun n c => 16 * n + (hexValue c).getD 0) 0

/-- What may follow a backslash, and the rune it stands for. -/
def escapes : List (UInt8 × Nat) :=
  [(0x22, 0x22), (0x5c, 0x5c), (0x2f, 0x2f), (0x62, 0x08), (0x66, 0x0c), (0x6e, 0x0a), (0x72, 0x0d),
    (0x74, 0x09)]

/-- `unicode.ReplacementChar`. -/
def replacementChar : Nat := 0xfffd

/-- Ranges of the first byte, and of the second after it, with the bytes there are in all. -/
def utf8Ranges : List (UInt8 × UInt8 × UInt8 × UInt8 × Nat) :=
  [(0xc2, 0xdf, 0x80, 0xbf, 2), (0xe0, 0xe0, 0xa0, 0xbf, 3), (0xe1, 0xec, 0x80, 0xbf, 3),
    (0xed, 0xed, 0x80, 0x9f, 3), (0xee, 0xef, 0x80, 0xbf, 3), (0xf0, 0xf0, 0x90, 0xbf, 4),
    (0xf1, 0xf3, 0x80, 0xbf, 4), (0xf4, 0xf4, 0x80, 0x8f, 4)]

/-- `utf8.DecodeRune`: the rune and the bytes it takes. -/
def decodeRune : Text → Nat × Nat
  | [] => (replacementChar, 0)
  | c :: s =>
    if c < 0x80 then (c.toNat, 1)
    else
      match utf8Ranges.find? fun (low, high, _) => low ≤ c && c ≤ high with
      | none => (replacementChar, 1)
      | some (_, _, low, high, width) =>
        let tail := s.take (width - 1)
        if tail.length = width - 1 ∧ (tail.head?.any fun c => low ≤ c && c ≤ high) ∧
            tail.all fun c => 0x80 ≤ c && c ≤ 0xbf then
          (tail.foldl (fun n c => 64 * n + (c.toNat - 0x80)) (c.toNat % 2 ^ (7 - width)), width)
        else (replacementChar, 1)

/-- `utf16.IsSurrogate`. -/
def isSurrogate (r : Nat) : Bool := 0xd800 ≤ r && r < 0xe000

/-- `utf16.DecodeRune`. -/
def decodeSurrogates (r1 r2 : Nat) : Nat :=
  if 0xd800 ≤ r1 ∧ r1 < 0xdc00 ∧ 0xdc00 ≤ r2 ∧ r2 < 0xe000 then
    (r1 - 0xd800) * 0x400 + (r2 - 0xdc00) + 0x10000
  else replacementChar

/-- The rune after a backslash and `u`, and what comes after it. -/
def unquoteUnicode (s : Text) : Nat × Text :=
  let r := hex4 (s.take 4)
  let rest := s.drop 4
  if isSurrogate r then
    let r2 := if (ascii "\\u").isPrefixOf rest then hex4 ((rest.drop 2).take 4) else 0
    let dec := decodeSurrogates r r2
    -- a surrogate without its other half takes its own escape only
    if dec = replacementChar then (replacementChar, rest) else (dec, rest.drop 6)
  else (r, rest)

/-- A round takes at least one byte, so the length of the text is fuel enough. -/
def unquoteWithin : Nat → Text → List Nat
  | 0, _ => []
  | _, [] => []
  | fuel + 1, c :: s =>
    if c = 0x5c then
      match s with
      | [] => []
      | e :: s =>
        if e = 0x75 then (unquoteUnicode s).1 :: unquoteWithin fuel (unquoteUnicode s).2
        else ((escapes.lookup e).getD 0) :: unquoteWithin fuel s
    else (decodeRune (c :: s)).1 :: unquoteWithin fuel ((c :: s).drop (decodeRune (c :: s)).2)

/-- The runes between the quotes. -/
def unquote (raw : Text) : List Nat := unquoteWithin raw.length raw

/-! ## The scanner -/

def isSpace (c : UInt8) : Bool := c = 0x20 || c = 0x09 || c = 0x0d || c = 0x0a

def skipSpace (s : Text) : Text := s.dropWhile isSpace

/-- What comes after white space and this byte. -/
def expect (c : UInt8) (s : Text) : Option Text :=
  match skipSpace s with
  | [] => none
  | d :: rest => if d = c then some rest else none

def prepend (front : Text) (res : Option (Text × Text)) : Option (Text × Text) :=
  res.map fun r => (front ++ r.1, r.2)

/-- What is before the closing quote, and what is after it. -/
def scanString : Text → Option (Text × Text)
  | [] => none
  | c :: s =>
    if c = 0x22 then some ([], s)
    else if c = 0x5c then
      match s with
      | [] => none
      | e :: s =>
        if e = 0x75 then
          match s with
          | h1 :: h2 :: h3 :: h4 :: s =>
            if [h1, h2, h3, h4].all isHex then prepend [c, e, h1, h2, h3, h4] (scanString s) else none
          | _ => none
        else if (escapes.lookup e).isSome then prepend [c, e] (scanString s)
        else none
    else if c < 0x20 then none
    else prepend [c] (scanString s)

/-- Digits, at least one. -/
def scanDigits (s : Text) : Option (Text × Text) :=
  if s.takeWhile isDigit = [] then none else some (s.takeWhile isDigit, s.dropWhile isDigit)

def scanInteger (s : Text) : Option (Text × Text) :=
  if s.head? = some 0x30 then some ([0x30], s.drop 1) else scanDigits s

def scanFraction (s : Text) : Option (Text × Text) :=
  if s.head? = some 0x2e then prepend [0x2e] (scanDigits (s.drop 1)) else some ([], s)

/-- One of these bytes, if it is there. -/
def scanOne (choices s : Text) : Text × Text :=
  match s with
  | [] => ([], s)
  | c :: rest => if c ∈ choices then ([c], rest) else ([], s)

def scanExponent (s : Text) : Option (Text × Text) :=
  match scanOne [0x65, 0x45] s with
  | ([], s) => some ([], s)
  | (e, s) =>
    let sign := scanOne [0x2b, 0x2d] s
    prepend (e ++ sign.1) (scanDigits sign.2)

def scanNumber (s : Text) : Option (Text × Text) :=
  let sign := scanOne [0x2d] s
  match scanInteger sign.2 with
  | none => none
  | some (int, s) =>
    match scanFraction s with
    | none => none
    | some (frac, s) => prepend (sign.1 ++ int ++ frac) (scanExponent s)

/-- The literals. -/
def literals : List (Text × Json) :=
  [(ascii "null", null), (ascii "true", bool true), (ascii "false", bool false)]

mutual

/-- A value, with the nesting that is left. -/
def scanValue : Nat → Nat → Text → Option (Json × Text)
  | 0, _, _ => none
  | fuel + 1, depth, s =>
    match literals.find? fun l => l.1.isPrefixOf s with
    | some l => some (l.2, s.drop l.1.length)
    | none =>
      match s with
      | [] => none
      | c :: rest =>
        if c = 0x22 then (scanString rest).map fun r => (string (unquote r.1), r.2)
        else if c = 0x5b then
          if depth = 0 then none
          else
            match expect 0x5d rest with
            | some rest => some (array [], rest)
            | none => (scanItems fuel (depth - 1) rest).map fun r => (array r.1, r.2)
        else if c = 0x7b then
          if depth = 0 then none
          else
            match expect 0x7d rest with
            | some rest => some (object [], rest)
            | none => (scanMembers fuel (depth - 1) rest).map fun r => (object r.1, r.2)
        else (scanNumber s).map fun r => (number r.1, r.2)

/-- Values up to the closing bracket. -/
def scanItems : Nat → Nat → Text → Option (List Json × Text)
  | 0, _, _ => none
  | fuel + 1, depth, s =>
    match scanValue fuel depth (skipSpace s) with
    | none => none
    | some (v, s) =>
      match expect 0x5d s with
      | some rest => some ([v], rest)
      | none =>
        match expect 0x2c s with
        | none => none
        | some s => (scanItems fuel depth s).map fun r => (v :: r.1, r.2)

/-- Names and values up to the closing brace. -/
def scanMembers : Nat → Nat → Text → Option (List (List Nat × Json) × Text)
  | 0, _, _ => none
  | fuel + 1, depth, s =>
    match (expect 0x22 s).bind scanString with
    | none => none
    | some (raw, s) =>
      match expect 0x3a s with
      | none => none
      | some s =>
        match scanValue fuel depth (skipSpace s) with
        | none => none
        | some (v, s) =>
          match expect 0x7d s with
          | some rest => some ([(unquote raw, v)], rest)
          | none =>
            match expect 0x2c s with
            | none => none
            | some s => (scanMembers fuel depth s).map fun r => ((unquote raw, v) :: r.1, r.2)

end

/-- The nesting that `encoding/json` allows. -/
def maxNestingDepth : Nat := 10000

/-- The value of a text: `none` where `checkValid` fails. -/
def parse (text : Text) : Option Json :=
  match scanValue (2 * text.length + 2) maxNestingDepth (skipSpace text) with
  | none => none
  | some (v, rest) => if rest.all isSpace then some v else none

/-! ## The grammar -/

/-- White space. -/
def Blank (ws : Text) : Prop := ws.all isSpace = true

/-- White space, this byte, and the rest. -/
def After (c : UInt8) (s rest : Text) : Prop := ∃ ws, Blank ws ∧ s = ws ++ c :: rest

/-- What may stand between quotes. -/
inductive Chars : Text → Prop
  | nil : Chars []
  | plain {c : UInt8} {s : Text} : c ≠ 0x22 → c ≠ 0x5c → ¬ c < 0x20 → Chars s → Chars (c :: s)
  | escape {e : UInt8} {s : Text} : (escapes.lookup e).isSome = true → Chars s →
    Chars (0x5c :: e :: s)
  | unicode {digits s : Text} : digits.length = 4 → digits.all isHex = true → Chars s →
    Chars (0x5c :: 0x75 :: (digits ++ s))

def Digits (s : Text) : Prop := s ≠ [] ∧ s.all isDigit = true

inductive Fraction : Text → Prop
  | none : Fraction []
  | some {digits : Text} : Digits digits → Fraction (0x2e :: digits)

inductive Exponent : Text → Prop
  | none : Exponent []
  | some {e : UInt8} {sign digits : Text} : e = 0x65 ∨ e = 0x45 →
    sign = [] ∨ sign = [0x2b] ∨ sign = [0x2d] → Digits digits → Exponent (e :: (sign ++ digits))

/-- A number: no zero stands before other digits. -/
inductive Number : Text → Prop
  | mk {sign int frac exp : Text} : sign = [] ∨ sign = [0x2d] →
    int = [0x30] ∨ Digits int ∧ int.head? ≠ .some 0x30 → Fraction frac → Exponent exp →
    Number (sign ++ int ++ frac ++ exp)

mutual

/-- The text is one of the value and the rest. -/
inductive Value : Text → Json → Text → Prop
  | null {rest : Text} : Value (ascii "null" ++ rest) .null rest
  | true {rest : Text} : Value (ascii "true" ++ rest) (.bool Bool.true) rest
  | false {rest : Text} : Value (ascii "false" ++ rest) (.bool Bool.false) rest
  | number {raw rest : Text} : Number raw → Value (raw ++ rest) (.number raw) rest
  | string {raw rest : Text} : Chars raw →
    Value (0x22 :: (raw ++ 0x22 :: rest)) (.string (unquote raw)) rest
  | emptyArray {s rest : Text} : After 0x5d s rest → Value (0x5b :: s) (.array []) rest
  | array {s rest : Text} {vs : List Json} : Items s vs rest → Value (0x5b :: s) (.array vs) rest
  | emptyObject {s rest : Text} : After 0x7d s rest → Value (0x7b :: s) (.object []) rest
  | object {s rest : Text} {fields : List (List Nat × Json)} : Members s fields rest →
    Value (0x7b :: s) (.object fields) rest

/-- Values with commas between them, the closing bracket, and the rest. -/
inductive Items : Text → List Json → Text → Prop
  | last {ws s s' rest : Text} {v : Json} : Blank ws → Value s v s' → After 0x5d s' rest →
    Items (ws ++ s) [v] rest
  | cons {ws s s' s'' rest : Text} {v : Json} {vs : List Json} : Blank ws → Value s v s' →
    After 0x2c s' s'' → Items s'' vs rest → Items (ws ++ s) (v :: vs) rest

/-- Names and values with commas between them, the closing brace, and the rest. -/
inductive Members : Text → List (List Nat × Json) → Text → Prop
  | last {s raw s₁ ws s₂ s₃ rest : Text} {v : Json} : After 0x22 s (raw ++ 0x22 :: s₁) →
    Chars raw → After 0x3a s₁ (ws ++ s₂) → Blank ws → Value s₂ v s₃ → After 0x7d s₃ rest →
    Members s [(unquote raw, v)] rest
  | cons {s raw s₁ ws s₂ s₃ s₄ rest : Text} {v : Json} {fields : List (List Nat × Json)} :
    After 0x22 s (raw ++ 0x22 :: s₁) → Chars raw → After 0x3a s₁ (ws ++ s₂) → Blank ws →
    Value s₂ v s₃ → After 0x2c s₃ s₄ → Members s₄ fields rest →
    Members s ((unquote raw, v) :: fields) rest

end

/-- The text is a JSON text of the value. -/
def Spells (text : Text) (v : Json) : Prop :=
  ∃ ws s rest, text = ws ++ s ∧ Blank ws ∧ Value s v rest ∧ Blank rest

/-! ## What is read is of the grammar -/

theorem skipSpace_split (s : Text) : ∃ ws, Blank ws ∧ s = ws ++ skipSpace s :=
  ⟨s.takeWhile isSpace, List.all_takeWhile, List.takeWhile_append_dropWhile.symm⟩

theorem after_of_expect {c : UInt8} {s rest : Text} (h : expect c s = some rest) : After c s rest := by
  obtain ⟨ws, hws, hs⟩ := skipSpace_split s
  unfold expect at h
  split at h
  · cases h
  · rename_i d tail htail
    split at h
    · rename_i hd
      cases h
      exact ⟨ws, hws, by rw [← hd, ← htail]; exact hs⟩
    · cases h

theorem prepend_eq_some {front raw rest : Text} {res : Option (Text × Text)}
    (h : prepend front res = some (raw, rest)) :
    ∃ tail, res = some (tail, rest) ∧ raw = front ++ tail := by
  obtain ⟨r, hr, heq⟩ := Option.map_eq_some_iff.mp h
  cases heq
  exact ⟨r.1, hr, rfl⟩

theorem chars_of_scanString {s raw rest : Text} (h : scanString s = some (raw, rest)) :
    Chars raw ∧ s = raw ++ 0x22 :: rest := by
  fun_induction scanString s generalizing raw with
  | case1 => cases h
  | case2 s =>
    cases h
    exact ⟨.nil, rfl⟩
  | case3 => cases h
  | case4 h1 h2 h3 h4 s hhex _ ih =>
    obtain ⟨tail, htail, hraw⟩ := prepend_eq_some h
    obtain ⟨hchars, hs⟩ := ih htail
    rw [hraw, hs]
    exact ⟨.unicode rfl hhex hchars, rfl⟩
  | case5 => cases h
  | case6 => cases h
  | case7 e s _ hescape _ ih =>
    obtain ⟨tail, htail, hraw⟩ := prepend_eq_some h
    obtain ⟨hchars, hs⟩ := ih htail
    rw [hraw, hs]
    exact ⟨.escape hescape hchars, rfl⟩
  | case8 => cases h
  | case9 => cases h
  | case10 c s hquote hslash hcontrol ih =>
    obtain ⟨tail, htail, hraw⟩ := prepend_eq_some h
    obtain ⟨hchars, hs⟩ := ih htail
    rw [hraw, hs]
    exact ⟨.plain hquote hslash hcontrol hchars, rfl⟩

/-! ### Numbers -/

theorem digits_of_scan {s digits rest : Text} (h : scanDigits s = some (digits, rest)) :
    Digits digits ∧ s = digits ++ rest := by
  unfold scanDigits at h
  split at h
  · cases h
  · rename_i hne
    cases h
    exact ⟨⟨hne, List.all_takeWhile⟩, List.takeWhile_append_dropWhile.symm⟩

theorem integer_of_scan {s int rest : Text} (h : scanInteger s = some (int, rest)) :
    (int = [0x30] ∨ Digits int ∧ int.head? ≠ some 0x30) ∧ s = int ++ rest := by
  unfold scanInteger at h
  split at h
  · rename_i hzero
    cases h
    refine ⟨.inl rfl, ?_⟩
    cases s with
    | nil => cases hzero
    | cons c s =>
      cases hzero
      rfl
  · rename_i hzero
    obtain ⟨hdigits, hs⟩ := digits_of_scan h
    refine ⟨.inr ⟨hdigits, ?_⟩, hs⟩
    rw [hs, List.head?_append_of_ne_nil _ hdigits.1] at hzero
    exact hzero

theorem fraction_of_scan {s frac rest : Text} (h : scanFraction s = some (frac, rest)) :
    Fraction frac ∧ s = frac ++ rest := by
  unfold scanFraction at h
  split at h
  · rename_i hdot
    obtain ⟨digits, hscan, hfrac⟩ := prepend_eq_some h
    obtain ⟨hdigits, hs⟩ := digits_of_scan hscan
    cases s with
    | nil => cases hdot
    | cons c s =>
      cases hdot
      rw [hfrac]
      exact ⟨.some hdigits, congrArg (0x2e :: ·) hs⟩
  · cases h
    exact ⟨.none, rfl⟩

theorem scanOne_split (choices s : Text) :
    ((scanOne choices s).1 = [] ∨ ∃ c ∈ choices, (scanOne choices s).1 = [c]) ∧
      s = (scanOne choices s).1 ++ (scanOne choices s).2 := by
  cases s with
  | nil => exact ⟨.inl rfl, rfl⟩
  | cons c s =>
    have hone : scanOne choices (c :: s) = if c ∈ choices then ([c], s) else ([], c :: s) := rfl
    rw [hone]
    by_cases hc : c ∈ choices
    · rw [if_pos hc]
      exact ⟨.inr ⟨c, hc, rfl⟩, rfl⟩
    · rw [if_neg hc]
      exact ⟨.inl rfl, rfl⟩

theorem exponent_of_scan {s exp rest : Text} (h : scanExponent s = some (exp, rest)) :
    Exponent exp ∧ s = exp ++ rest := by
  unfold scanExponent at h
  obtain ⟨hletter, hs⟩ := scanOne_split [0x65, 0x45] s
  split at h
  · rename_i tail hnone
    rw [hnone] at hs
    cases h
    exact ⟨.none, hs⟩
  · rename_i front tail hne hfront
    rw [hfront] at hletter hs
    obtain ⟨e, he, hfront⟩ := hletter.resolve_left hne
    obtain ⟨digits, hscan, hexp⟩ := prepend_eq_some h
    obtain ⟨hdigits, hdigitsSplit⟩ := digits_of_scan hscan
    obtain ⟨hsign, htail⟩ := scanOne_split [0x2b, 0x2d] tail
    have hfront : front = [e] := hfront
    have hs : s = front ++ tail := hs
    rw [hexp, hfront]
    constructor
    · apply Exponent.some (by simpa using he) _ hdigits
      simpa using hsign
    · rw [hs, hfront]
      conv_lhs => rw [htail, hdigitsSplit]
      simp

theorem number_of_scan {s raw rest : Text} (h : scanNumber s = some (raw, rest)) :
    Number raw ∧ s = raw ++ rest := by
  unfold scanNumber at h
  simp only at h
  split at h
  · cases h
  · rename_i int s₁ hint
    split at h
    · cases h
    · rename_i frac s₂ hfrac
      obtain ⟨exp, hexp, hraw⟩ := prepend_eq_some h
      obtain ⟨hint, hs₁⟩ := integer_of_scan hint
      obtain ⟨hfrac, hs₂⟩ := fraction_of_scan hfrac
      obtain ⟨hexp, hs₃⟩ := exponent_of_scan hexp
      obtain ⟨hsign, hs⟩ := scanOne_split [0x2d] s
      rw [hraw]
      constructor
      · exact .mk (by simpa using hsign) hint hfrac hexp
      · conv_lhs => rw [hs, hs₁, hs₂, hs₃]
        simp

/-! ### Values -/

theorem literal_of_find {s : Text} {l : Text × Json}
    (h : literals.find? (fun l => l.1.isPrefixOf s) = some l) :
    Value s l.2 (s.drop l.1.length) := by
  have hmem := List.mem_of_find?_eq_some h
  have hpre : l.1.isPrefixOf s = true := by simpa using List.find?_some h
  obtain ⟨rest, hrest⟩ := List.isPrefixOf_iff_prefix.mp hpre
  rw [← hrest, List.drop_left]
  simp only [literals, List.mem_cons, List.not_mem_nil, or_false] at hmem
  obtain rfl | rfl | rfl := hmem
  · exact .null
  · exact .true
  · exact .false

/-- A step of the descent: what is read with less fuel is of the grammar. -/
theorem scan_sound (fuel : Nat) :
    (∀ depth s v rest, scanValue fuel depth s = some (v, rest) → Value s v rest) ∧
    (∀ depth s vs rest, scanItems fuel depth s = some (vs, rest) → Items s vs rest) ∧
    (∀ depth s fields rest, scanMembers fuel depth s = some (fields, rest) →
      Members s fields rest) := by
  induction fuel with
  | zero =>
    refine ⟨?_, ?_, ?_⟩
    · intro depth s v rest h
      cases h
    · intro depth s vs rest h
      cases h
    · intro depth s fields rest h
      cases h
  | succ fuel ih =>
    obtain ⟨ihValue, ihItems, ihMembers⟩ := ih
    refine ⟨?_, ?_, ?_⟩
    · intro depth s v rest h
      unfold scanValue at h
      split at h
      · rename_i l hl
        cases h
        exact literal_of_find hl
      · split at h
        · cases h
        · rename_i c s
          -- the first byte tells a string, an array and an object from a number
          split at h
          · rename_i hc
            obtain ⟨r, hr, heq⟩ := Option.map_eq_some_iff.mp h
            obtain ⟨hchars, hs⟩ := chars_of_scanString hr
            cases heq
            rw [hc, hs]
            exact .string hchars
          · split at h
            · rename_i hc
              rw [hc]
              split at h
              · cases h
              · split at h
                · rename_i hclose
                  cases h
                  exact .emptyArray (after_of_expect hclose)
                · obtain ⟨r, hr, heq⟩ := Option.map_eq_some_iff.mp h
                  cases heq
                  exact .array (ihItems _ _ _ _ hr)
            · split at h
              · rename_i hc
                rw [hc]
                split at h
                · cases h
                · split at h
                  · rename_i hclose
                    cases h
                    exact .emptyObject (after_of_expect hclose)
                  · obtain ⟨r, hr, heq⟩ := Option.map_eq_some_iff.mp h
                    cases heq
                    exact .object (ihMembers _ _ _ _ hr)
              · obtain ⟨r, hr, heq⟩ := Option.map_eq_some_iff.mp h
                obtain ⟨hnumber, hs⟩ := number_of_scan hr
                cases heq
                rw [hs]
                exact .number hnumber
    · intro depth s vs rest h
      unfold scanItems at h
      split at h
      · cases h
      · rename_i v s₁ hv
        obtain ⟨ws, hws, hs⟩ := skipSpace_split s
        have hv := ihValue _ _ _ _ hv
        rw [hs]
        split at h
        · rename_i hclose
          cases h
          exact .last hws hv (after_of_expect hclose)
        · split at h
          · cases h
          · rename_i s₂ hcomma
            obtain ⟨r, hr, heq⟩ := Option.map_eq_some_iff.mp h
            cases heq
            exact .cons hws hv (after_of_expect hcomma) (ihItems _ _ _ _ hr)
    · intro depth s fields rest h
      unfold scanMembers at h
      split at h
      · cases h
      · rename_i raw s₁ hname
        obtain ⟨body, hquote, hscan⟩ := Option.bind_eq_some_iff.mp hname
        obtain ⟨hchars, hbody⟩ := chars_of_scanString hscan
        have hquote := after_of_expect hquote
        rw [hbody] at hquote
        split at h
        · cases h
        · rename_i s₂ hcolon
          obtain ⟨ws, hws, hs₂⟩ := skipSpace_split s₂
          have hcolon := after_of_expect hcolon
          rw [hs₂] at hcolon
          split at h
          · cases h
          · rename_i v s₃ hv
            have hv := ihValue _ _ _ _ hv
            split at h
            · rename_i hclose
              cases h
              exact .last hquote hchars hcolon hws hv (after_of_expect hclose)
            · split at h
              · cases h
              · rename_i s₄ hcomma
                obtain ⟨r, hr, heq⟩ := Option.map_eq_some_iff.mp h
                cases heq
                exact .cons hquote hchars hcolon hws hv (after_of_expect hcomma)
                  (ihMembers _ _ _ _ hr)

/-- **A text that is read is JSON, and of the value that is read.** -/
theorem parse_sound {text : Text} {v : Json} (h : parse text = some v) : Spells text v := by
  unfold parse at h
  split at h
  · cases h
  · rename_i v' rest hscan
    split at h
    · rename_i hrest
      cases h
      obtain ⟨ws, hws, htext⟩ := skipSpace_split text
      exact ⟨ws, _, rest, htext, hws, (scan_sound _).1 _ _ _ _ hscan, hrest⟩
    · cases h

/-! ## The fuel is enough -/

theorem After.length_lt {c : UInt8} {s rest : Text} (h : After c s rest) : rest.length < s.length := by
  obtain ⟨ws, _, hs⟩ := h
  rw [hs, List.length_append, List.length_cons]
  omega

theorem length_lt_append {front rest : Text} (h : front ≠ []) :
    rest.length < (front ++ rest).length := by
  have hpos := List.length_pos_iff.mpr h
  rw [List.length_append]
  omega

theorem Number.ne_nil {raw : Text} (h : Number raw) : raw ≠ [] := by
  obtain ⟨_, hint, _, _⟩ := h
  intro hnil
  simp only [List.append_eq_nil_iff] at hnil
  cases hint with
  | inl hzero =>
    rw [hzero] at hnil
    cases hnil.1.1.2
  | inr hdigits => exact hdigits.1.1 hnil.1.1.2

mutual

theorem Value.length_lt {s rest : Text} {v : Json} : Value s v rest → rest.length < s.length
  | .null => length_lt_append (by decide)
  | .true => length_lt_append (by decide)
  | .false => length_lt_append (by decide)
  | .number h => length_lt_append h.ne_nil
  | .string _ => by
    rw [List.length_cons, List.length_append, List.length_cons]
    omega
  | .emptyArray h => Nat.lt_succ_of_lt h.length_lt
  | .array h => Nat.lt_succ_of_lt h.length_lt
  | .emptyObject h => Nat.lt_succ_of_lt h.length_lt
  | .object h => Nat.lt_succ_of_lt h.length_lt

theorem Items.length_lt {s rest : Text} {vs : List Json} : Items s vs rest → rest.length < s.length
  | .last _ hv hend => by
    have hv := hv.length_lt
    have hend := hend.length_lt
    rw [List.length_append]
    omega
  | .cons _ hv hcomma hitems => by
    have hv := hv.length_lt
    have hcomma := hcomma.length_lt
    have hitems := hitems.length_lt
    rw [List.length_append]
    omega

theorem Members.length_lt {s rest : Text} {fields : List (List Nat × Json)} :
    Members s fields rest → rest.length < s.length
  | .last hquote _ hcolon _ hv hend => by
    have hquote := hquote.length_lt
    have hcolon := hcolon.length_lt
    have hv := hv.length_lt
    have hend := hend.length_lt
    rw [List.length_append] at *
    rw [List.length_cons] at hquote
    omega
  | .cons hquote _ hcolon _ hv hcomma hmembers => by
    have hquote := hquote.length_lt
    have hcolon := hcolon.length_lt
    have hv := hv.length_lt
    have hcomma := hcomma.length_lt
    have hmembers := hmembers.length_lt
    rw [List.length_append] at *
    rw [List.length_cons] at hquote
    omega

end

theorem skipSpace_length_le (s : Text) : (skipSpace s).length ≤ s.length :=
  (List.dropWhile_suffix isSpace).length_le

/-- Once there are two rounds for each byte, one more changes nothing. -/
theorem scan_succ (fuel : Nat) :
    (∀ depth s, 2 * s.length + 1 ≤ fuel → scanValue (fuel + 1) depth s = scanValue fuel depth s) ∧
    (∀ depth s, 2 * s.length + 2 ≤ fuel → scanItems (fuel + 1) depth s = scanItems fuel depth s) ∧
    (∀ depth s, 2 * s.length + 2 ≤ fuel →
      scanMembers (fuel + 1) depth s = scanMembers fuel depth s) := by
  induction fuel with
  | zero =>
    refine ⟨?_, ?_, ?_⟩
    · intro depth s h
      omega
    · intro depth s h
      omega
    · intro depth s h
      omega
  | succ fuel ih =>
    obtain ⟨ihValue, ihItems, ihMembers⟩ := ih
    refine ⟨?_, ?_, ?_⟩
    · intro depth s h
      rw [scanValue.eq_def (fuel + 1 + 1), scanValue.eq_def (fuel + 1)]
      cases s with
      | nil => rfl
      | cons c s =>
        rw [List.length_cons] at h
        simp only [ihItems (depth - 1) s (by omega), ihMembers (depth - 1) s (by omega)]
    · intro depth s h
      have hskip := skipSpace_length_le s
      rw [scanItems.eq_def (fuel + 1 + 1), scanItems.eq_def (fuel + 1)]
      simp only [ihValue depth (skipSpace s) (by omega)]
      cases hv : scanValue fuel depth (skipSpace s) with
      | none => rfl
      | some r =>
        -- what comes after a value is shorter, so that less fuel does for it
        have hlt := ((scan_sound fuel).1 _ _ _ _ hv).length_lt
        simp only
        cases hend : expect 0x5d r.2 with
        | some rest => rfl
        | none =>
          cases hcomma : expect 0x2c r.2 with
          | none => rfl
          | some s' =>
            have hcomma := (after_of_expect hcomma).length_lt
            simp only [ihItems depth s' (by omega)]
    · intro depth s h
      unfold scanMembers
      cases hname : (expect 0x22 s).bind scanString with
      | none => simp only
      | some name =>
        obtain ⟨body, hquote, hscan⟩ := Option.bind_eq_some_iff.mp hname
        have hquote := (after_of_expect hquote).length_lt
        have hbody := congrArg List.length (chars_of_scanString hscan).2
        rw [List.length_append, List.length_cons] at hbody
        simp only
        cases hcolon : expect 0x3a name.2 with
        | none => rfl
        | some s₁ =>
          have hcolon := (after_of_expect hcolon).length_lt
          have hskip := skipSpace_length_le s₁
          simp only [ihValue depth (skipSpace s₁) (by omega)]
          cases hv : scanValue fuel depth (skipSpace s₁) with
          | none => rfl
          | some r =>
            have hlt := ((scan_sound fuel).1 _ _ _ _ hv).length_lt
            simp only
            cases hend : expect 0x7d r.2 with
            | some rest => rfl
            | none =>
              cases hcomma : expect 0x2c r.2 with
              | none => rfl
              | some s' =>
                have hcomma := (after_of_expect hcomma).length_lt
                simp only [ihMembers depth s' (by omega)]

/-- More fuel reads the same. -/
theorem scanValue_fuel {fuel depth : Nat} {s : Text} (h : 2 * s.length + 1 ≤ fuel) :
    scanValue fuel depth s = scanValue (2 * s.length + 1) depth s := by
  induction fuel, h using Nat.le_induction with
  | base => rfl
  | succ fuel h ih => rw [(scan_succ fuel).1 depth s h, ih]

end Json
end Ark.Lib.Go
