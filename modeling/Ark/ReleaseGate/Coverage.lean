import Ark.ReleaseGate

/- Which contracts a Slither document covers.

   A text of the document stands below a path of dict keys (`Holds`); lists leave no
   trace on it. `collectSolFilenames` goes by the last key of the path, since `walk`
   hands each field's own key down. What is meant is any key of the path: a manifest
   map below "filenames" holds its entries too, whatever their keys are.

   So the names that are collected are held below a filename-like key
   (`collectSolFilenames_sound`), but a text in a map below such a key is missed
   unless its own key is filename-like or its name is found elsewhere. -/
namespace Ark.ReleaseGate
open Ark.Lib Ark.Lib.Python

/-- A text of the document, with the keys from the top down to it. -/
inductive Holds : Json → List String → String → Prop
  | text (s : String) : Holds (.str s) [] s
  | item {items : List Json} {item : Json} {keys : List String} {s : String} (mem : item ∈ items)
      (holds : Holds item keys s) : Holds (.arr items) keys s
  | field {fields : List (String × Json)} {key : String} {value : Json} {keys : List String}
      {s : String} (mem : (key, value) ∈ fields) (holds : Holds value keys s) :
      Holds (.obj fields) (key :: keys) s

/-- `FILENAME_KEY_RE.search(key)`. -/
def filenameLike (key : String) : Bool := searchIgnoreCase "filename" key

/-- Some `.sol` text with this name stands right at a filename-like key. -/
def NearFilename (obj : Json) (name : String) : Prop :=
  ∃ keys s, Holds obj keys s ∧ endsWith ".sol" s ∧
    (∃ key, keys.getLast? = some key ∧ filenameLike key) ∧ pathName s = name

/-- Some `.sol` text with this name stands anywhere below a filename-like key. -/
def UnderFilename (obj : Json) (name : String) : Prop :=
  ∃ keys s, Holds obj keys s ∧ endsWith ".sol" s ∧
    (∃ key ∈ keys, filenameLike key) ∧ pathName s = name

/-! ## What the walk finds -/

theorem mem_walkItems {keyHint name : String} {items : List Json} :
    name ∈ walkItems keyHint items ↔ ∃ item ∈ items, name ∈ walk keyHint item := by
  induction items with
  | nil => simp [walkItems]
  | cons item items ih => simp [walkItems, ih]

theorem mem_walkFields {name : String} {fields : List (String × Json)} :
    name ∈ walkFields fields ↔ ∃ key value, (key, value) ∈ fields ∧ name ∈ walk key value := by
  induction fields with
  | nil => simp [walkFields]
  | cons field fields ih =>
    obtain ⟨key, value⟩ := field
    simp only [walkFields, List.mem_append, ih, List.mem_cons, Prod.mk.injEq]
    constructor
    · intro h
      rcases h with h | ⟨key', value', hmem, h⟩
      · exact ⟨key, value, Or.inl ⟨rfl, rfl⟩, h⟩
      · exact ⟨key', value', Or.inr hmem, h⟩
    · intro h
      obtain ⟨key', value', hmem, h⟩ := h
      rcases hmem with ⟨hkey, hvalue⟩ | hmem
      · rw [hkey, hvalue] at h
        exact Or.inl h
      · exact Or.inr ⟨key', value', hmem, h⟩

/-- The hint of a text is the last key above it. -/
theorem mem_walk_of_holds {obj : Json} {keys : List String} {s : String} (h : Holds obj keys s)
    {keyHint : String} (hsol : endsWith ".sol" s = true)
    (hlike : filenameLike (keys.getLastD keyHint) = true) : pathName s ∈ walk keyHint obj := by
  induction h generalizing keyHint with
  | text s =>
    rw [walk, if_pos]
    · exact List.mem_singleton_self _
    · rw [hsol, Bool.true_and]
      exact hlike
  | item mem _ ih =>
    rw [walk, mem_walkItems]
    exact ⟨_, mem, ih hsol hlike⟩
  | @field fields key value keys s mem _ ih =>
    rw [walk, mem_walkFields]
    refine ⟨key, value, mem, ih hsol ?_⟩
    rw [List.getLastD_cons] at hlike
    exact hlike

mutual

theorem holds_of_mem_walk {keyHint name : String} : (obj : Json) → name ∈ walk keyHint obj →
    ∃ keys s, Holds obj keys s ∧ endsWith ".sol" s ∧
      filenameLike (keys.getLastD keyHint) ∧ pathName s = name
  | .str s, h => by
    rw [walk] at h
    split at h
    · rename_i hs
      rw [Bool.and_eq_true] at hs
      exact ⟨[], s, Holds.text s, hs.1, hs.2, (List.mem_singleton.mp h).symm⟩
    · cases h
  | .arr items, h => by
    rw [walk] at h
    obtain ⟨item, hmem, keys, s, hholds, hrest⟩ := holds_of_mem_walkItems items h
    exact ⟨keys, s, Holds.item hmem hholds, hrest⟩
  | .obj fields, h => by
    rw [walk] at h
    obtain ⟨key, value, hmem, keys, s, hholds, hsol, hlike, hname⟩ :=
      holds_of_mem_walkFields fields h
    refine ⟨key :: keys, s, Holds.field hmem hholds, hsol, ?_, hname⟩
    rw [List.getLastD_cons]
    exact hlike
  | .null, h => by simp [walk] at h
  | .bool _, h => by simp [walk] at h
  | .int _, h => by simp [walk] at h
  | .float _, h => by simp [walk] at h

theorem holds_of_mem_walkFields {name : String} : (fields : List (String × Json)) →
    name ∈ walkFields fields → ∃ key value, (key, value) ∈ fields ∧
      ∃ keys s, Holds value keys s ∧ endsWith ".sol" s ∧
        filenameLike (keys.getLastD key) ∧ pathName s = name
  | [], h => by simp [walkFields] at h
  | (key, value) :: fields, h => by
    rw [walkFields, List.mem_append] at h
    rcases h with h | h
    · exact ⟨key, value, List.mem_cons_self, holds_of_mem_walk value h⟩
    · obtain ⟨key', value', hmem, hrest⟩ := holds_of_mem_walkFields fields h
      exact ⟨key', value', List.mem_cons_of_mem _ hmem, hrest⟩

theorem holds_of_mem_walkItems {keyHint name : String} : (items : List Json) →
    name ∈ walkItems keyHint items → ∃ item ∈ items, ∃ keys s, Holds item keys s ∧
      endsWith ".sol" s ∧ filenameLike (keys.getLastD keyHint) ∧ pathName s = name
  | [], h => by simp [walkItems] at h
  | item :: items, h => by
    rw [walkItems, List.mem_append] at h
    rcases h with h | h
    · exact ⟨item, List.mem_cons_self, holds_of_mem_walk item h⟩
    · obtain ⟨item', hmem, hrest⟩ := holds_of_mem_walkItems items h
      exact ⟨item', List.mem_cons_of_mem _ hmem, hrest⟩

end

theorem mem_collectSolFilenames {obj : Json} {name : String} :
    name ∈ collectSolFilenames obj ↔ NearFilename obj name := by
  have hwalk : name ∈ collectSolFilenames obj ↔ name ∈ walk "" obj := by
    rw [collectSolFilenames]
    have h := KeySet.mem_foldl_set (f := id) (l := walk "" obj) (s := KeySet.empty) (k := name)
    simpa using h
  -- the hint at the top
  have hempty : filenameLike "" = false := by decide
  rw [hwalk]
  constructor
  · intro h
    obtain ⟨keys, s, hholds, hsol, hlike, hname⟩ := holds_of_mem_walk obj h
    refine ⟨keys, s, hholds, hsol, ?_, hname⟩
    cases hlast : keys.getLast? with
    | none =>
      rw [List.getLastD_eq_getLast?, hlast, Option.getD_none, hempty] at hlike
      cases hlike
    | some key =>
      rw [List.getLastD_eq_getLast?, hlast, Option.getD_some] at hlike
      exact ⟨key, rfl, hlike⟩
  · intro h
    obtain ⟨keys, s, hholds, hsol, ⟨key, hkey, hlike⟩, hname⟩ := h
    rw [← hname]
    apply mem_walk_of_holds hholds hsol
    rw [List.getLastD_eq_getLast?, hkey]
    exact hlike

/-- What is collected is held below a filename-like key: no other text makes coverage. -/
theorem collectSolFilenames_sound {obj : Json} {name : String} (h : name ∈ collectSolFilenames obj) :
    UnderFilename obj name := by
  obtain ⟨keys, s, hholds, hsol, ⟨key, hkey, hlike⟩, hname⟩ := mem_collectSolFilenames.mp h
  exact ⟨keys, s, hholds, hsol, ⟨key, List.mem_of_getLast? hkey, hlike⟩, hname⟩

/-- The texts that the walk passes over, below a filename-like key but not right at one, all have
names that it finds elsewhere. -/
def NamedElsewhere (obj : Json) : Prop :=
  ∀ keys s, Holds obj keys s → endsWith ".sol" s → (∃ key ∈ keys, filenameLike key) →
    (∀ key, keys.getLast? = some key → filenameLike key = false) → NearFilename obj (pathName s)

/-- **Coverage is exact exactly when no name is lost in a nested map.** Nothing but the names held
below a filename-like key is ever collected; all of them are, if and only if each one that a map
below such a key holds at a key that is not filename-like is also held right at one that is. -/
theorem collectSolFilenames_exact (obj : Json) :
    (∀ name, name ∈ collectSolFilenames obj → UnderFilename obj name) ∧
      ((∀ name, name ∈ collectSolFilenames obj ↔ UnderFilename obj name) ↔ NamedElsewhere obj) := by
  refine ⟨fun name h => collectSolFilenames_sound h, ?_⟩
  constructor
  · intro hexact keys s hholds hsol hunder _
    apply mem_collectSolFilenames.mp
    apply (hexact (pathName s)).mpr
    exact ⟨keys, s, hholds, hsol, hunder, rfl⟩
  · intro hnamed name
    constructor
    · exact collectSolFilenames_sound
    · intro h
      obtain ⟨keys, s, hholds, hsol, hunder, hname⟩ := h
      rw [mem_collectSolFilenames, ← hname]
      by_cases hnear : ∃ key, keys.getLast? = some key ∧ filenameLike key
      · exact ⟨keys, s, hholds, hsol, hnear, rfl⟩
      · apply hnamed keys s hholds hsol hunder
        intro key hkey
        by_contra hlike
        exact hnear ⟨key, hkey, by simpa using hlike⟩

/-- A manifest map as the comment names it: its one contract is not collected. -/
def manifest : Json :=
  .obj [("filenames", .obj [("LaunchGuardrail.sol", .str "contracts/LaunchGuardrail.sol")])]

theorem manifest_missed :
    ¬ ∀ name, name ∈ collectSolFilenames manifest ↔ UnderFilename manifest name := by
  intro h
  have hnot : "LaunchGuardrail.sol" ∉ collectSolFilenames manifest := by decide
  apply hnot
  apply (h "LaunchGuardrail.sol").mpr
  refine ⟨["filenames", "LaunchGuardrail.sol"], "contracts/LaunchGuardrail.sol", ?_, by decide,
    ⟨"filenames", by decide, by decide⟩, by decide⟩
  exact Holds.field (List.mem_singleton_self _)
    (Holds.field (List.mem_singleton_self _) (Holds.text _))

end Ark.ReleaseGate
