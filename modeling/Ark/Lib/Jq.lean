import Ark.Lib.Shell

/- jq, as far as scripts use it to look into documents.

   A path leads to one value or fails (`follow`); a missing key and a missing item are
   null. A filter gives a stream of values, which a failure ends (`Stream`). jq runs a filter
   on one document after the other, fails if one of them did, and prints each value on lines
   of its own, texts as they are (`-r`).

   A filter that counts prints a number for each document (`run_numbers`); what reads as 1
   is one number, and it is 1 (`numbers_one`). -/
namespace Ark.Lib.Jq
open Ark.Lib.Python (Json Number)
open Ark.Lib.Shell

inductive Step where
  | key (name : String)
  | item (i : Nat)

def Step.follow : Step → Json → Option Json
  | .key name, .obj fields => some ((fields.lookup name).getD .null)
  | .key _, .null => some .null
  | .key _, _ => none
  | .item i, .arr items => some (items.getD i .null)
  | .item _, .null => some .null
  | .item _, _ => none

/-- `.a.b[0]`. -/
def follow (steps : List Step) (v : Json) : Option Json :=
  steps.foldlM (fun v step => step.follow v) v

/-- `length`. -/
def length : Json → Option Json
  | .null => some (.int 0)
  | .bool _ => none
  | .int n => some (.int n.natAbs)
  | .float (.finite q) => some (.float (.finite |q|))
  | .float (.infinity _) => some (.float (.infinity false))
  | .float .nan => some (.float .nan)
  | .str s => some (.int s.length)
  | .arr items => some (.int items.length)
  | .obj fields => some (.int fields.length)

/-! ## Streams -/

structure Stream where
  outputs : List Json
  failed : Bool

namespace Stream

def emit (v : Json) : Stream := ⟨[v], false⟩

def none : Stream := ⟨[], false⟩

def ofOption : Option Json → Stream
  | some v => emit v
  | Option.none => ⟨[], true⟩

/-- What follows is not reached after a failure. -/
def andThen (s t : Stream) : Stream :=
  if s.failed then s else ⟨s.outputs ++ t.outputs, t.failed⟩

def feed (f : Json → Stream) : List Json → Stream
  | [] => none
  | v :: vs => (f v).andThen (feed f vs)

/-- `s | f`. -/
def pipe (s : Stream) (f : Json → Stream) : Stream := (feed f s.outputs).andThen ⟨[], s.failed⟩

theorem mem_andThen {s t : Stream} {v : Json} (h : v ∈ (s.andThen t).outputs) :
    v ∈ s.outputs ∨ v ∈ t.outputs := by
  unfold andThen at h
  split at h
  · exact .inl h
  · exact List.mem_append.mp h

theorem mem_feed {f : Json → Stream} {vs : List Json} {w : Json}
    (h : w ∈ (feed f vs).outputs) : ∃ v ∈ vs, w ∈ (f v).outputs := by
  induction vs with
  | nil => cases h
  | cons v vs ih =>
    cases mem_andThen h with
    | inl h => exact ⟨v, List.mem_cons_self, h⟩
    | inr h =>
      obtain ⟨x, hx, hw⟩ := ih h
      exact ⟨x, List.mem_cons_of_mem v hx, hw⟩

/-- What a pipe puts out comes from something that went in. -/
theorem mem_pipe {s : Stream} {f : Json → Stream} {w : Json} (h : w ∈ (s.pipe f).outputs) :
    ∃ v ∈ s.outputs, w ∈ (f v).outputs := by
  cases mem_andThen h with
  | inl h => exact mem_feed h
  | inr h => cases h

end Stream

/-- A path as a filter. -/
def path (steps : List Step) (v : Json) : Stream := .ofOption (follow steps v)

def truthy : Json → Bool
  | .null => false
  | .bool b => b
  | _ => true

/-- `path // path // … // empty`. -/
def firstOf (paths : List (List Step)) (v : Json) : Stream :=
  match paths.findSome? fun steps => (follow steps v).filter truthy with
  | some w => .emit w
  | none => .none

/-- The values that `[]` goes through. -/
def items : Json → Option (List Json)
  | .arr items => some items
  | .obj fields => some (fields.map Prod.snd)
  | _ => none

/-- `path[]?`: the path may fail, what it leads to may be without values. -/
def iterate (steps : List Step) (v : Json) : Stream :=
  match follow steps v with
  | some u => ⟨(items u).getD [], false⟩
  | none => ⟨[], true⟩

/-- `select(path == text)`. -/
def selectText (steps : List Step) (text : String) (v : Json) : Stream :=
  match follow steps v with
  | some (.str s) => if s = text then .emit v else .none
  | some _ => .none
  | none => ⟨[], true⟩

theorem mem_iterate {steps : List Step} {v w : Json} (h : w ∈ (iterate steps v).outputs) :
    ∃ u ws, follow steps v = some u ∧ items u = some ws ∧ w ∈ ws := by
  unfold iterate at h
  cases hu : follow steps v with
  | none =>
    rw [hu] at h
    cases h
  | some u =>
    rw [hu] at h
    cases hws : items u with
    | none =>
      simp only [hws, Option.getD_none] at h
      cases h
    | some ws =>
      simp only [hws, Option.getD_some] at h
      exact ⟨u, ws, rfl, hws, h⟩

theorem mem_selectText {steps : List Step} {text : String} {v w : Json}
    (h : w ∈ (selectText steps text v).outputs) : w = v ∧ follow steps v = some (.str text) := by
  unfold selectText at h
  split at h
  · rename_i s hfollow
    split at h
    · rename_i heq
      rw [hfollow, heq]
      exact ⟨List.mem_singleton.mp h, rfl⟩
    · cases h
  · cases h
  · cases h

/-! ## Output -/

/-- A value as `-r` prints it; `render` prints what is neither a text nor an int. -/
def rawText (render : Json → List Char) : Json → List Char
  | .str s => s.toList
  | .int n => (toString n).toList
  | v => render v

/-- What jq prints for a filter, on all documents. -/
def run (render : Json → List Char) (filter : Json → Stream) (docs : List Json) :
    List Char × Bool :=
  let streams := docs.map filter
  (unlines ((streams.flatMap Stream.outputs).map (rawText render)), streams.any Stream.failed)

/-- What a variable holds after `$(jq -r …)` printed one value. -/
def text (render : Json → List Char) (v : Json) : List Char :=
  substitute (unlines [rawText render v])

theorem follow_append (steps steps' : List Step) (v : Json) :
    follow (steps ++ steps') v = (follow steps v).bind (follow steps') := by
  unfold follow
  rw [List.foldlM_append]
  rfl

theorem rawText_nat (render : Json → List Char) (n : Nat) :
    rawText render (.int n) = Nat.toDigits 10 n := by
  show (Nat.repr n).toList = Nat.toDigits 10 n
  exact Nat.toList_repr

theorem not_mem_digits {c : Char} {n : Nat} (h : c.isDigit = false) : c ∉ Nat.toDigits 10 n := by
  intro hc
  have hdigit := Nat.isDigit_of_mem_toDigits (by decide) (by decide) hc
  rw [h] at hdigit
  cases hdigit

/-- Numbers that read as 1 are the number 1. -/
theorem numbers_one {ns : List Nat}
    (h : substitute (unlines (ns.map (Nat.toDigits 10))) = ['1']) : ns = [1] := by
  have hdigits : (ns.map (Nat.toDigits 10)).flatten = ['1'] := by
    rw [← filter_substitute (List.forall_mem_map.mpr fun n _ => not_mem_digits (by decide))
      (List.forall_mem_map.mpr fun n _ => not_mem_digits (by decide)), h]
    rfl
  match ns, hdigits with
  | [n], hdigits =>
    have hn : Nat.toDigits 10 n = ['1'] := by simpa using hdigits
    have hone : n = 1 := calc n
      _ = Nat.ofDigitChars 10 (Nat.toDigits 10 n) 0 := Nat.ofDigitChars_ten_toDigits.symm
      _ = Nat.ofDigitChars 10 ['1'] 0 := by rw [hn]
      _ = 1 := by decide
    rw [hone]
  | n :: m :: ns, hdigits =>
    have hn : 0 < (Nat.toDigits 10 n).length := Nat.length_toDigits_pos
    have hm : 0 < (Nat.toDigits 10 m).length := Nat.length_toDigits_pos
    have hlen := congrArg List.length hdigits
    simp only [List.map_cons, List.flatten_cons, List.length_append, List.length_singleton] at hlen
    omega

/-- A number that reads as 1 is 1. -/
theorem text_one {render : Json → List Char} {n : Nat} (h : text render (.int n) = ['1']) :
    n = 1 := by
  unfold text at h
  rw [rawText_nat] at h
  have hone : [n] = [1] := numbers_one h
  exact List.head_eq_of_cons_eq hone

/-- A filter that gives each document a number prints the numbers. -/
theorem run_numbers {render : Json → List Char} {filter : Json → Stream} {docs : List Json}
    (h : ∀ doc ∈ docs, ∃ n : Nat, filter doc = .emit (.int n)) :
    ∃ ns : List Nat, ns.length = docs.length ∧
      run render filter docs = (unlines (ns.map (Nat.toDigits 10)), false) := by
  induction docs with
  | nil => exact ⟨[], rfl, rfl⟩
  | cons doc docs ih =>
    obtain ⟨⟨n, hn⟩, hdocs⟩ := List.forall_mem_cons.mp h
    obtain ⟨ns, hlen, hrun⟩ := ih hdocs
    obtain ⟨htext, hfailed⟩ := Prod.mk.inj hrun
    refine ⟨n :: ns, by rw [List.length_cons, hlen, List.length_cons], ?_⟩
    unfold run
    simp only [List.map_cons, List.flatMap_cons, List.any_cons, hn, Stream.emit, Bool.false_or,
      List.singleton_append, rawText_nat]
    refine Prod.ext ?_ hfailed
    show (Nat.toDigits 10 n ++ ['\n']) ++ unlines _ = (Nat.toDigits 10 n ++ ['\n']) ++ unlines _
    rw [htext]

end Ark.Lib.Jq
