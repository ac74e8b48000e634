import Ark.Lib.GoJson

/- How `encoding/json` reads a value into structures of booleans.

   A name stands for a field when both fold to the same runes. Values are read one after
   the other over what is there, and `null` changes nothing, so of several values under
   one name the last that is not `null` counts (`readBools_eq_some`). -/
namespace Ark.Lib.Go.Json

/-! ## Names -/

/-- The smallest rune that `unicode.SimpleFold` reaches, where it is of ASCII: two runes beyond
ASCII fold into it. The others stay beyond it, and stand for themselves. -/
def foldRune (r : Nat) : Nat :=
  if 0x61 ≤ r ∧ r ≤ 0x7a then r - 0x20
  else if r = 0x212a then 0x4b
  else if r = 0x17f then 0x53
  else r

def foldName (name : List Nat) : List Nat := name.map foldRune

def runes (s : String) : List Nat := s.toList.map Char.toNat

/-- The name stands for the field. -/
def standsFor (field : String) (name : List Nat) : Bool := foldName name = foldName (runes field)

/-! ## Reading -/

variable {α : Type}

/-- A structure with one field: `none` where the value has another type. -/
def readFields (field : String) (read : Json → α → Option α) :
    List (List Nat × Json) → α → Option α
  | [], a => some a
  | (name, v) :: fields, a =>
    if standsFor field name then
      match read v a with
      | none => none
      | some a => readFields field read fields a
    else readFields field read fields a

def readStruct (field : String) (read : Json → α → Option α) : Json → α → Option α
  | null, a => some a
  | object fields, a => readFields field read fields a
  | _, _ => none

def readBool : Json → Bool → Option Bool
  | null, b => some b
  | bool b, _ => some b
  | _, _ => none

/-! ## What is read -/

/-- The values under a field, in their order. -/
def under (field : String) : Json → List Json
  | object fields => (fields.filter fun f => standsFor field f.1).map Prod.snd
  | _ => []

def IsStruct : Json → Prop
  | null => True
  | object _ => True
  | _ => False

def IsBool : Json → Prop
  | null => True
  | bool _ => True
  | _ => False

def asBool : Json → Option Bool
  | bool b => some b
  | _ => none

/-- Values read one after the other. -/
def readAll (read : Json → α → Option α) : List Json → α → Option α
  | [], a => some a
  | v :: vs, a => (read v a).bind (readAll read vs)

variable {field : String} {read : Json → α → Option α}

theorem readAll_append (vs ws : List Json) (a : α) :
    readAll read (vs ++ ws) a = (readAll read vs a).bind (readAll read ws) := by
  induction vs generalizing a with
  | nil => rfl
  | cons v vs ih =>
    rw [List.cons_append, readAll, readAll]
    cases read v a with
    | none => rfl
    | some b => exact ih b

theorem readFields_eq (fields : List (List Nat × Json)) (a : α) :
    readFields field read fields a = readAll read (under field (object fields)) a := by
  induction fields generalizing a with
  | nil => rfl
  | cons f fields ih =>
    unfold readFields
    by_cases hname : standsFor field f.1 = true
    · have hunder : under field (object (f :: fields)) = f.2 :: under field (object fields) := by
        simp [under, hname]
      rw [if_pos hname, hunder, readAll]
      cases read f.2 a with
      | none => rfl
      | some b => exact ih b
    · have hunder : under field (object (f :: fields)) = under field (object fields) := by
        simp [under, hname]
      rw [if_neg hname, hunder, ih]

theorem readStruct_eq_some {v : Json} {a b : α} :
    readStruct field read v a = some b ↔ IsStruct v ∧ readAll read (under field v) a = some b := by
  cases v with
  | object fields => simp [readStruct, IsStruct, readFields_eq]
  | null => simp [readStruct, IsStruct, under, readAll]
  | bool _ => simp [readStruct, IsStruct]
  | number _ => simp [readStruct, IsStruct]
  | string _ => simp [readStruct, IsStruct]
  | array _ => simp [readStruct, IsStruct]

/-- Structures read one after the other are read as one. -/
theorem readAll_structs {vs : List Json} {a b : α} :
    readAll (readStruct field read) vs a = some b ↔
      (∀ v ∈ vs, IsStruct v) ∧ readAll read (vs.flatMap (under field)) a = some b := by
  induction vs generalizing a with
  | nil => simp [readAll]
  | cons v vs ih =>
    rw [readAll, Option.bind_eq_some_iff, List.forall_mem_cons, List.flatMap_cons, readAll_append,
      Option.bind_eq_some_iff]
    simp only [readStruct_eq_some, ih]
    constructor
    · intro h
      obtain ⟨c, ⟨hv, hread⟩, hvs, hrest⟩ := h
      exact ⟨⟨hv, hvs⟩, c, hread, hrest⟩
    · intro h
      obtain ⟨⟨hv, hvs⟩, c, hread, hrest⟩ := h
      exact ⟨c, ⟨hv, hread⟩, hvs, hrest⟩

theorem readBool_eq_some {v : Json} {b c : Bool} :
    readBool v b = some c ↔ IsBool v ∧ c = (asBool v).getD b := by
  cases v with
  | null => simp [readBool, IsBool, asBool, eq_comm]
  | bool x => simp [readBool, IsBool, asBool, eq_comm]
  | number _ => simp [readBool, IsBool]
  | string _ => simp [readBool, IsBool]
  | array _ => simp [readBool, IsBool]
  | object _ => simp [readBool, IsBool]

theorem readBools_eq_some {vs : List Json} {b c : Bool} :
    readAll readBool vs b = some c ↔
      (∀ v ∈ vs, IsBool v) ∧ c = ((vs.filterMap asBool).getLast?).getD b := by
  induction vs generalizing b with
  | nil => simp [readAll, eq_comm]
  | cons v vs ih =>
    rw [readAll, Option.bind_eq_some_iff, List.forall_mem_cons]
    simp only [readBool_eq_some, ih]
    -- the first value counts only when no later one is a boolean
    have hlast : (((v :: vs).filterMap asBool).getLast?).getD b =
        ((vs.filterMap asBool).getLast?).getD ((asBool v).getD b) := by
      rw [List.filterMap_cons]
      cases asBool v with
      | none => rfl
      | some x =>
        simp only [List.getLast?_cons, Option.getD_some]
    rw [hlast]
    constructor
    · intro h
      obtain ⟨x, ⟨hv, hx⟩, hvs, hc⟩ := h
      rw [hx] at hc
      exact ⟨⟨hv, hvs⟩, hc⟩
    · intro h
      obtain ⟨⟨hv, hvs⟩, hc⟩ := h
      exact ⟨_, ⟨hv, rfl⟩, hvs, hc⟩

end Ark.Lib.Go.Json
