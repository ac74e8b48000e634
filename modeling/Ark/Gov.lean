import Mathlib.Algebra.Group.Int.Defs
import Mathlib.Algebra.Group.Nat.Defs
import Mathlib.Data.Prod.Lex
import Mathlib.Order.Basic
import Ark.Lib.KeySet

/- x/gov as the governance timelock sees it.

   The records, queues and parameters are the part of x/gov's store the end
   blocker reads and writes by name: `collections` maps and key sets, keyed by
   proposal id or by (time, id). x/gov's own methods (tally, deposits, proposal
   writes, hooks, router) are not in this repository: `GovKeeper` holds them as
   parameters, each a computation on the state that the module cannot see into.

   A time is its number of nanoseconds after Go's zero time, January 1 of year 1,
   UTC; a duration is a number of nanoseconds. `sdk.TimeKey` writes a time with a
   four-digit year, so only the times of years 0 to 9999 have a key.

   Correspondence (Go ↔ Lean):
     `collections.Pair[time.Time, uint64]`, `Join`   ↔ `Pair`
     `govKeeper.Proposals.Get`                        ↔ `World.getProposal`
     `govKeeper.ActiveProposalsQueue`                 ↔ `World.activeProposalsQueue`
     `govKeeper.InactiveProposalsQueue`               ↔ `World.inactiveProposalsQueue`
     `govKeeper.Params.Get`                           ↔ `World.params`
     `NewPrefixUntilPairRange(t)`                     ↔ `untilPair t` -/
namespace Ark.Gov
open Ark.Lib

/-- Nanoseconds since Go's zero time. -/
abbrev Time := Int

/-- The time for which `IsZero` holds. -/
def zeroTime : Time := 0

/-- Nanoseconds. -/
abbrev Duration := Int

def second : Duration := 1000000000
def hour : Duration := 3600 * second

/-- The first instant of year 0. -/
def yearZero : Time := -(366 * 24 * hour)

/-- The first instant after year 9999. -/
def year10000 : Time := 3652059 * 24 * hour

/-- The times a four-digit year can write. -/
def HasTimeKey (t : Time) : Prop := yearZero ≤ t ∧ t < year10000

instance (t : Time) : Decidable (HasTimeKey t) :=
  inferInstanceAs (Decidable (yearZero ≤ t ∧ t < year10000))

/-- A key made of a time and a proposal id, compared time first. -/
structure Pair where
  k1 : Time
  k2 : Nat
  deriving DecidableEq, Repr

/-- The two parts of a key as a lexicographic pair, which is how keys are compared. -/
def Pair.lex (p : Pair) : Int ×ₗ Nat := toLex (p.k1, p.k2)

theorem Pair.lex_injective : Function.Injective Pair.lex := by
  intro p q h
  have h := congrArg ofLex h
  simp only [Pair.lex, ofLex_toLex, Prod.mk.injEq] at h
  obtain ⟨h1, h2⟩ := h
  cases p
  cases q
  simp only at h1 h2
  rw [h1, h2]

instance : LinearOrder Pair := LinearOrder.lift' Pair.lex Pair.lex_injective

theorem Pair.lt_iff {p q : Pair} : p < q ↔ p.k1 < q.k1 ∨ (p.k1 = q.k1 ∧ p.k2 < q.k2) := by
  show Pair.lex p < Pair.lex q ↔ _
  exact Prod.Lex.toLex_lt_toLex

/-- The keys of `NewPrefixUntilPairRange(t)`: every id, up to and including time `t`. -/
def untilPair (t : Time) (p : Pair) : Bool := decide (p.k1 ≤ t)

@[simp] theorem untilPair_iff {t : Time} {p : Pair} : untilPair t p = true ↔ p.k1 ≤ t := by
  simp [untilPair]

/-! ## Proposals -/

inductive ProposalStatus
  | unspecified
  | depositPeriod
  | votingPeriod
  | passed
  | rejected
  | failed
  | unrecognized (n : Int)
  deriving DecidableEq, Repr

def ProposalStatus.toString : ProposalStatus → String
  | .unspecified => "PROPOSAL_STATUS_UNSPECIFIED"
  | .depositPeriod => "PROPOSAL_STATUS_DEPOSIT_PERIOD"
  | .votingPeriod => "PROPOSAL_STATUS_VOTING_PERIOD"
  | .passed => "PROPOSAL_STATUS_PASSED"
  | .rejected => "PROPOSAL_STATUS_REJECTED"
  | .failed => "PROPOSAL_STATUS_FAILED"
  | .unrecognized n => ToString.toString n

structure TallyResult where
  yesCount : String
  abstainCount : String
  noCount : String
  noWithVetoCount : String
  deriving DecidableEq, Repr

/-- A v1 proposal; `Any` is the type of its packed messages. -/
structure Proposal (Any : Type) where
  id : Nat
  messages : List Any
  status : ProposalStatus
  finalTallyResult : Option TallyResult
  depositEndTime : Option Time
  votingStartTime : Option Time
  votingEndTime : Option Time
  expedited : Bool
  failedReason : String
  deriving DecidableEq

/-- A proposal stored under `id`: what its bytes decode to, and the decoding error when
decoding ends with one (a message type that is not registered). x/gov writes a proposal
under its own id only. -/
structure Record (Any : Type) (id : Nat) where
  value : Proposal Any
  decodeError : Option String
  keyed : decodeError = none → value.id = id

/-- What `Proposals.Get` returns. -/
inductive GetResult (Any : Type)
  | found (proposal : Proposal Any)
  | errEncoding (proposal : Proposal Any) (err : String)
  | errNotFound

/-- The text of `collections.ErrNotFound` for a proposal. -/
def proposalNotFound (id : Nat) : String :=
  "collections: not found: key '" ++ ToString.toString id ++
    "' of type github.com/cosmos/gogoproto/cosmos.gov.v1.Proposal"

/-- The parameters the end blocker reads; `votingPeriod` is a pointer. -/
structure Params where
  votingPeriod : Option Duration
  burnProposalDepositPrevote : Bool
  deriving DecidableEq

/-- The chain's state outside the timelock's own store: x/gov's collections, the
next proposal id, and everything else (`Rest`). -/
structure World (Any Rest : Type) where
  proposals : (id : Nat) → Option (Record Any id)
  activeProposalsQueue : KeySet Pair
  inactiveProposalsQueue : KeySet Pair
  params : Option Params
  proposalID : Nat
  rest : Rest

variable {Any Msg Rest : Type}

namespace World
variable {w : World Any Rest}

/-- A chain without proposals. -/
def empty (rest : Rest) : World Any Rest := ⟨fun _ => none, KeySet.empty, KeySet.empty, none, 1, rest⟩

/-- The proposal stored under `id`, whether or not it decodes. -/
def stored (w : World Any Rest) (id : Nat) : Option (Proposal Any) :=
  (w.proposals id).map Record.value

def getProposal (w : World Any Rest) (id : Nat) : GetResult Any :=
  match w.proposals id with
  | none => .errNotFound
  | some r =>
    match r.decodeError with
    | none => .found r.value
    | some err => .errEncoding r.value err

def removeActive (w : World Any Rest) (key : Pair) : World Any Rest :=
  { w with activeProposalsQueue := w.activeProposalsQueue.remove key }

def removeInactive (w : World Any Rest) (key : Pair) : World Any Rest :=
  { w with inactiveProposalsQueue := w.inactiveProposalsQueue.remove key }

def setActive (w : World Any Rest) (key : Pair) : World Any Rest :=
  { w with activeProposalsQueue := w.activeProposalsQueue.set key }

theorem getProposal_cases (w : World Any Rest) (id : Nat) :
    (w.getProposal id = .errNotFound ∧ w.stored id = none) ∨
    (∃ p, w.getProposal id = .found p ∧ w.stored id = some p ∧ p.id = id) ∨
    (∃ p err, w.getProposal id = .errEncoding p err ∧ w.stored id = some p) := by
  unfold getProposal stored
  cases hr : w.proposals id with
  | none => exact .inl ⟨rfl, rfl⟩
  | some r =>
    cases he : r.decodeError with
    | none => exact .inr (.inl ⟨r.value, by simp [he], rfl, r.keyed he⟩)
    | some err => exact .inr (.inr ⟨r.value, err, by simp [he], rfl⟩)

theorem stored_of_found {id : Nat} {p : Proposal Any} (h : w.getProposal id = .found p) :
    w.stored id = some p := by
  rcases w.getProposal_cases id with ⟨h', _⟩ | ⟨q, h', hq, _⟩ | ⟨q, err, h', _⟩
  all_goals rw [h] at h'; cases h'
  exact hq

theorem id_of_found {id : Nat} {p : Proposal Any} (h : w.getProposal id = .found p) :
    p.id = id := by
  rcases w.getProposal_cases id with ⟨h', _⟩ | ⟨q, h', _, hq⟩ | ⟨q, err, h', _⟩
  all_goals rw [h] at h'; cases h'
  exact hq

@[simp] theorem stored_removeActive (key : Pair) (id : Nat) :
    (w.removeActive key).stored id = w.stored id := rfl
@[simp] theorem stored_removeInactive (key : Pair) (id : Nat) :
    (w.removeInactive key).stored id = w.stored id := rfl
@[simp] theorem stored_setActive (key : Pair) (id : Nat) :
    (w.setActive key).stored id = w.stored id := rfl

end World

/-! ## The computations of x/gov and of message handlers -/

/-- How a computation stops: with an error it returns, or with a panic. -/
inductive Fault
  | err (msg : String)
  | panic (value : String)
  deriving DecidableEq, Repr

/-- A block's context: its height and its time. -/
structure Ctx where
  height : Int
  time : Time
  height_pos : 0 < height
  height_lt : height < 2 ^ 63
  time_nonneg : 0 ≤ time
  time_lt : time < year10000

/-- The block at a height and a time. -/
def blockAt (height time : Nat) (h : 0 < height ∧ height < 2 ^ 63 ∧ (time : Int) < year10000) : Ctx where
  height := height
  time := time
  height_pos := by exact_mod_cast h.1
  height_lt := by exact_mod_cast h.2.1
  time_nonneg := Int.natCast_nonneg _
  time_lt := h.2.2

structure SdkEvent where
  type : String
  attributes : List (String × String)
  deriving DecidableEq, Repr

/-- A computation on the state that keeps what it wrote before it stopped. -/
abbrev GovM (Any Rest : Type) := EStateM Fault (World Any Rest)

/-- A message handler; a `nil` result is `none`. -/
abbrev Handler (Any Msg Rest : Type) := Ctx → Msg → GovM Any Rest (Option (List SdkEvent))

/-- x/gov's keeper, its router and hooks, and the texts of messages and times. -/
structure GovKeeper (Any Msg Rest : Type) where
  tally : Ctx → Proposal Any → GovM Any Rest (Bool × Bool × TallyResult)
  refundAndDeleteDeposits : Ctx → Nat → GovM Any Rest Unit
  deleteAndBurnDeposits : Ctx → Nat → GovM Any Rest Unit
  setProposal : Ctx → Proposal Any → GovM Any Rest Unit
  deleteProposal : Ctx → Nat → GovM Any Rest Unit
  afterProposalVotingPeriodEnded : Ctx → Nat → GovM Any Rest Unit
  afterProposalFailedMinDeposit : Ctx → Nat → GovM Any Rest Unit
  getMsgs : List Any → Except String (List Msg)
  handler : Msg → Option (Handler Any Msg Rest)
  msgTypeURL : Msg → String
  msgString : Msg → String
  formatTime : Time → String

end Ark.Gov
