import Mathlib.Data.List.Induction

/- States that a log records.

   `replay` folds a log into a state. What an observer of the state sees may depend on some
   of the entries only; `replay_filter` is the rule for that: entries that the observer
   does not see leave what it sees, the others carry it along. A log is `Grown` when each
   of its later entries was allowed by the entries before it. -/
namespace Ark.Lib.Replay

variable {State Entry : Type} {step : State → Entry → State} {init : State}

def replay (step : State → Entry → State) (init : State) (log : List Entry) : State :=
  log.foldl step init

theorem replay_append (log log' : List Entry) :
    replay step init (log ++ log') = replay step (replay step init log) log' :=
  List.foldl_append

theorem replay_concat (log : List Entry) (e : Entry) :
    replay step init (log ++ [e]) = step (replay step init log) e :=
  replay_append log [e]

/-- Two logs with the same entries that are seen give states that look the same. -/
theorem replay_filter {seen : Entry → Bool} {Alike : State → State → Prop}
    (refl : ∀ s, Alike s s) (trans : ∀ {r s t}, Alike r s → Alike s t → Alike r t)
    (unseen : ∀ s e, seen e = false → Alike (step s e) s)
    (carried : ∀ {s t} e, Alike s t → Alike (step s e) (step t e)) (log : List Entry) :
    Alike (replay step init log) (replay step init (log.filter seen)) := by
  induction log using List.reverseRecOn with
  | nil => exact refl init
  | append_singleton log e ih =>
    rw [replay_concat, List.filter_append]
    cases he : seen e with
    | false =>
      rw [List.filter_cons_of_neg (by simp [he]), List.filter_nil, List.append_nil]
      exact trans (unseen _ e he) ih
    | true =>
      rw [List.filter_cons_of_pos he, List.filter_nil, replay_concat]
      exact carried e ih

/-- A log that has grown from `start` by entries that the log before each of them allowed. -/
inductive Grown (Allowed : List Entry → Entry → Prop) (start : List Entry) : List Entry → Prop
  | start : Grown Allowed start start
  | entry {log : List Entry} {e : Entry} : Grown Allowed start log → Allowed log e →
      Grown Allowed start (log ++ [e])

namespace Grown
variable {Allowed Allowed' : List Entry → Entry → Prop} {start log log' : List Entry}

theorem mono (himp : ∀ log e, Allowed log e → Allowed' log e) (h : Grown Allowed start log) :
    Grown Allowed' start log := by
  induction h with
  | start => exact .start
  | entry _ he ih => exact ih.entry (himp _ _ he)

theorem trans (h : Grown Allowed start log) (h' : Grown Allowed log log') :
    Grown Allowed start log' := by
  induction h' with
  | start => exact h
  | entry _ he ih => exact ih.entry he

end Grown
end Ark.Lib.Replay
