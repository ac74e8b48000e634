import Mathlib.Algebra.Order.Ring.Rat
import Mathlib.Data.List.Infix
import Mathlib.Data.List.TakeWhile
import Ark.Lib.Checks

/- Python values, as they come out of `json.loads`, and what a script does with them.

   A document is null, a boolean, a number, a text, a list, or a dict, whose fields stand
   in the order they were read and name no key twice. Where an operation does not
   fit the value it gets, it raises: `get` on what is no dict, an order between a number and a
   text, the length of a number.

   Numbers compare by value, a boolean as 0 or 1, and nan is not equal to itself. Inside
   lists and dicts it is, since the parser has one object for it and identity comes
   before equality (`same`). -/
namespace Ark.Lib.Python

inductive Exception where
  | attributeError
  | typeError
  | unicodeDecodeError
  | timeoutExpired
  deriving DecidableEq

/-! ## Numbers -/

/-- An int or a float, by its value. -/
inductive Number where
  | finite (q : ℚ)
  | infinity (negative : Bool)
  | nan
  deriving DecidableEq

namespace Number

def lt : Number → Number → Bool
  | .finite a, .finite b => a < b
  | .finite _, .infinity negative => !negative
  | .infinity negative, .finite _ => negative
  | .infinity a, .infinity b => a && !b
  | _, _ => false

def eq : Number → Number → Bool
  | .nan, _ => false
  | a, b => a = b

end Number

/-! ## Values -/

inductive Json where
  | null
  | bool (b : Bool)
  | int (n : Int)
  | float (x : Number)
  | str (s : String)
  | arr (items : List Json)
  | obj (fields : List (String × Json))

namespace Json

def isNull : Json → Bool
  | .null => true
  | _ => false

/-- `v is True`. -/
def isTrue : Json → Bool
  | .bool b => b
  | _ => false

def number : Json → Option Number
  | .bool b => some (.finite (if b then 1 else 0))
  | .int n => some (.finite n)
  | .float x => some x
  | _ => none

def truthy : Json → Bool
  | .null => false
  | .bool b => b
  | .int n => n ≠ 0
  | .float x => x ≠ .finite 0
  | .str s => s ≠ ""
  | .arr items => !items.isEmpty
  | .obj fields => !fields.isEmpty

/-- `v or w`. -/
def orElse (v w : Json) : Json := if v.truthy then v else w

/-- `v.get(key, default)`. -/
def get (v : Json) (key : String) (default : Json) : Except Exception Json :=
  match v with
  | .obj fields => .ok ((fields.lookup key).getD default)
  | _ => .error .attributeError

/-- `len(v)`. -/
def len : Json → Except Exception Nat
  | .str s => .ok s.length
  | .arr items => .ok items.length
  | .obj fields => .ok fields.length
  | _ => .error .typeError

/-- What `for x in v` goes through. -/
def iterate : Json → Except Exception (List Json)
  | .str s => .ok (s.toList.map fun c => .str (String.ofList [c]))
  | .arr items => .ok items
  | .obj fields => .ok (fields.map fun field => .str field.1)
  | _ => .error .typeError

mutual

/-- Identical or equal. -/
def same : Json → Json → Bool
  | .null, .null => true
  | .str a, .str b => a = b
  | .arr xs, .arr ys => sameItems xs ys
  | .obj xs, .obj ys => xs.length = ys.length && sameFields xs ys
  | v, w =>
    match v.number, w.number with
    | some .nan, some .nan => true
    | some x, some y => x.eq y
    | _, _ => false

def sameItems : List Json → List Json → Bool
  | [], [] => true
  | x :: xs, y :: ys => same x y && sameItems xs ys
  | _, _ => false

def sameFields : List (String × Json) → List (String × Json) → Bool
  | [], _ => true
  | (key, x) :: xs, ys =>
    match ys.lookup key with
    | some y => same x y && sameFields xs ys
    | none => false

end

/-- `v == w`. -/
def pyEq (v w : Json) : Bool :=
  match v.number, w.number with
  | some x, some y => x.eq y
  | _, _ => same v w

mutual

/-- `v > w`, or `v >= w` with `orEqual`. -/
def above (orEqual : Bool) : Json → Json → Except Exception Bool
  | .str a, .str b => .ok (b < a || (orEqual && a = b))
  | .arr xs, .arr ys => aboveItems orEqual xs ys
  | v, w =>
    match v.number, w.number with
    | some x, some y => .ok (y.lt x || (orEqual && y.eq x))
    | _, _ => .error .typeError

/-- By the first items that differ, or else by the length. -/
def aboveItems (orEqual : Bool) : List Json → List Json → Except Exception Bool
  | [], ys => .ok (orEqual && ys.isEmpty)
  | _ :: _, [] => .ok true
  | x :: xs, y :: ys => if same x y then aboveItems orEqual xs ys else above orEqual x y

end

def gt (v w : Json) : Except Exception Bool := above false v w

def ge (v w : Json) : Except Exception Bool := above true v w

end Json

/-- `x and y`. -/
def pyAnd (x y : Except Exception Bool) : Except Exception Bool := do
  if ← x then y else pure false

/-! ## Texts -/

/-- How Python prints a value. -/
structure Printer where
  /-- `str`, of a value that is no text. -/
  str : Json → String
  repr : Json → String

/-- `str(v)`. -/
def Printer.text (p : Printer) : Json → String
  | .str s => s
  | v => p.str v

/-- `str.upper`, as far as it leads to ASCII letters, one for one. -/
def upper (text : String) : String :=
  String.ofList (text.toList.map fun c =>
    if c.toNat = 0x131 then 'I' else if c.toNat = 0x17F then 'S' else c.toUpper)

/-- `str.lower`, as far as it leads to ASCII letters, one for one. -/
def lower (text : String) : String :=
  String.ofList (text.toList.map fun c => if c.toNat = 0x212A then 'k' else c.toLower)

def endsWith (suffix text : String) : Bool := suffix.toList.isSuffixOf text.toList

/-- `part in text`. -/
def contains (part text : String) : Bool := part.toList <:+: text.toList

/-- The letters that a pattern without case takes for one another. -/
def foldCase (c : Char) : Char :=
  if c.toNat = 0x130 ∨ c.toNat = 0x131 then 'i'
  else if c.toNat = 0x17F then 's'
  else if c.toNat = 0x212A then 'k'
  else c.toLower

/-- `re.search(part, text, re.IGNORECASE)`, for a part that is lower-case letters. -/
def searchIgnoreCase (part text : String) : Bool :=
  part.toList <:+: text.toList.map foldCase

/-- `Path(text).name`, of a text that does not end in a slash or a dot. -/
def pathName (text : String) : String :=
  String.ofList (text.toList.reverse.takeWhile (· ≠ '/')).reverse

/-- `str.isspace`, of a text of one character. -/
def isSpace (c : Char) : Bool :=
  let n := c.toNat
  (9 ≤ n ∧ n ≤ 13) ∨ (28 ≤ n ∧ n ≤ 32) ∨ n = 0x85 ∨ n = 0xA0 ∨ n = 0x1680 ∨
    (0x2000 ≤ n ∧ n ≤ 0x200A) ∨ n = 0x2028 ∨ n = 0x2029 ∨ n = 0x202F ∨ n = 0x205F ∨ n = 0x3000

/-- `bool(v.strip())`. -/
def stripTruthy : Json → Except Exception Bool
  | .str s => .ok (s.toList.any fun c => !isSpace c)
  | _ => .error .attributeError

/-- `text.strip()`. -/
def strip (text : List Char) : List Char :=
  ((text.dropWhile isSpace).reverse.dropWhile isSpace).reverse

theorem strip_append_left {a b : List Char} (h : ∀ c ∈ a, isSpace c = true) :
    strip (a ++ b) = strip b := by
  unfold strip
  rw [List.dropWhile_append_of_pos h]

theorem strip_append_right {a b : List Char} (h : ∀ c ∈ b, isSpace c = true) :
    strip (a ++ b) = strip a := by
  have hb : ∀ c ∈ b.reverse, isSpace c = true := fun c hc => h c (List.mem_reverse.mp hc)
  unfold strip
  rw [List.dropWhile_append]
  cases hempty : (a.dropWhile isSpace).isEmpty with
  | true =>
    rw [List.isEmpty_iff.mp hempty, if_pos rfl, List.dropWhile_eq_nil_iff.mpr h]
  | false =>
    rw [if_neg Bool.false_ne_true, List.reverse_append, List.dropWhile_append_of_pos hb]

/-- What stands between two characters that are no blanks stays. -/
theorem mem_strip {a b : List Char} {c x y : Char} (hx : x ∈ a) (hy : y ∈ b)
    (hax : isSpace x = false) (hby : isSpace y = false) : c ∈ strip (a ++ c :: b) := by
  have ha : (a.dropWhile isSpace).isEmpty = false := by
    cases hempty : (a.dropWhile isSpace).isEmpty with
    | false => rfl
    | true =>
      have hall := List.dropWhile_eq_nil_iff.mp (List.isEmpty_iff.mp hempty) x hx
      rw [hall] at hax
      exact absurd hax (by decide)
  have hb : (b.reverse.dropWhile isSpace).isEmpty = false := by
    cases hempty : (b.reverse.dropWhile isSpace).isEmpty with
    | false => rfl
    | true =>
      have hall := List.dropWhile_eq_nil_iff.mp (List.isEmpty_iff.mp hempty) y
        (List.mem_reverse.mpr hy)
      rw [hall] at hby
      exact absurd hby (by decide)
  unfold strip
  rw [List.dropWhile_append, if_neg (by simp [ha]), List.reverse_append, List.reverse_cons,
    List.append_assoc, List.dropWhile_append, if_neg (by simp [hb])]
  simp

/-! ## Numbers in texts -/

/-- A digit by its value; `unicode` knows those beyond ASCII. -/
def digitOf (unicode : Char → Option Nat) (c : Char) : Option Nat :=
  if c.isDigit then some (c.toNat - 48) else if c.toNat < 128 then none else unicode c

/-- Digits after a number so far, with an underscore only between two of them. -/
def parseDigits (unicode : Char → Option Nat) : Nat → Bool → List Char → Option Nat
  | n, afterDigit, [] => if afterDigit then some n else none
  | n, afterDigit, c :: cs =>
    if c = '_' then if afterDigit then parseDigits unicode n false cs else none
    else (digitOf unicode c).bind fun d => parseDigits unicode (10 * n + d) true cs

/-- `int(text)`, where it raises no `ValueError`. -/
def parseInt (unicode : Char → Option Nat) (text : List Char) : Option Int :=
  let text := strip text
  if (text.filter fun c => (digitOf unicode c).isSome).length > 4300 then none
  else
    match text with
    | '-' :: cs => (parseDigits unicode 0 false cs).map fun n => -Int.ofNat n
    | '+' :: cs => (parseDigits unicode 0 false cs).map Int.ofNat
    | cs => (parseDigits unicode 0 false cs).map Int.ofNat

theorem parseInt_congr {unicode : Char → Option Nat} {a b : List Char} (h : strip a = strip b) :
    parseInt unicode a = parseInt unicode b := by
  unfold parseInt
  rw [h]

theorem parseDigits_noBreak {unicode : Char → Option Nat} {n m : Nat} {afterDigit : Bool}
    {cs : List Char} (h : parseDigits unicode n afterDigit cs = some m) : '\n' ∉ cs := by
  induction cs generalizing n afterDigit with
  | nil => exact List.not_mem_nil
  | cons c cs ih =>
    unfold parseDigits at h
    by_cases hunderscore : c = '_'
    · rw [if_pos hunderscore] at h
      split at h
      · rw [List.mem_cons, not_or, hunderscore]
        exact ⟨by decide, ih h⟩
      · cases h
    · rw [if_neg hunderscore] at h
      obtain ⟨d, hd, h⟩ := Option.bind_eq_some_iff.mp h
      rw [List.mem_cons, not_or]
      refine ⟨?_, ih h⟩
      intro hc
      rw [← hc] at hd
      exact absurd hd (by simp [digitOf, Char.isDigit])

/-- A text that is a number has no line break between its blanks. -/
theorem parseInt_noBreak {unicode : Char → Option Nat} {text : List Char} {n : Int}
    (h : parseInt unicode text = some n) : '\n' ∉ strip text ∧ strip text ≠ [] := by
  unfold parseInt at h
  simp only at h
  split at h
  · cases h
  · split at h
    · rename_i cs heq
      obtain ⟨m, hm, _⟩ := Option.map_eq_some_iff.mp h
      rw [heq]
      exact ⟨by simpa using parseDigits_noBreak hm, List.cons_ne_nil _ _⟩
    · rename_i cs heq
      obtain ⟨m, hm, _⟩ := Option.map_eq_some_iff.mp h
      rw [heq]
      exact ⟨by simpa using parseDigits_noBreak hm, List.cons_ne_nil _ _⟩
    · obtain ⟨m, hm, _⟩ := Option.map_eq_some_iff.mp h
      refine ⟨parseDigits_noBreak hm, ?_⟩
      intro hnil
      rw [hnil] at hm
      cases hm

end Ark.Lib.Python
