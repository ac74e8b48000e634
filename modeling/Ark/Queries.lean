import Ark.Lib.Pool
import Ark.Lib.Steps

/- Queries of contracts (`app/queries/queries.go`). Paths have to be whitelisted; the
   message that a response is decoded into comes from the path's `sync.Pool` and goes back
   there when the query ends. Queries run at the same time.

   A query is a task that goes through phases, between which other queries come in
   (`Step`). Getting a message takes any that is in the pool, or makes a new one; the pool
   may lose a message at any time. What a task decodes into its message nobody else reads
   or writes meanwhile, which is proved and not assumed, so decoding is one step.

   The router, the codec and the queries it routes to are not this repository's code
   (`Env`). That one of these panics, which ends the query with its message put back, is
   left out. The whitelist is a table that is filled when the program starts, and nothing
   is in it (`stargateResponsePools`); queries are modelled for any table.

   Correspondence (Go ↔ Lean):
     `StargateQuerier`, `GrpcQuerier`           ↔ `Step`, by the request's `Querier`
     `getWhitelistedQuery`                      ↔ `Step.reuse`, `Step.allocate`, `Step.lack`
     `defer returnStargateResponseToPool(…)`    ↔ `Step.put`
     `cdc.MarshalJSON(…)`, `proto.Clone(…)`     ↔ `Env.reply` -/
namespace Ark.Queries
open Ark.Lib

abbrev Bytes := List UInt8

inductive QueryError where
  /-- `wasmvmtypes.UnsupportedRequest`. -/
  | unsupportedRequest (kind : String)
  | err (text : String)
  deriving DecidableEq

/-- Which querier a request is for. -/
inductive Querier where
  | stargate
  | grpc
  deriving DecidableEq

structure Request (Ctx : Type) where
  querier : Querier
  ctx : Ctx
  path : String
  data : Bytes

/-- The JSON of a message, or a copy of it. -/
inductive Reply (M : Type) where
  | json (bz : Bytes)
  | message (m : M)
  deriving DecidableEq

structure Env (M Ctx : Type) where
  /-- `queryRouter.Route`; `none` for a nil route, and for a response without a value. -/
  route : String → Option (Ctx → Bytes → Except String (Option Bytes))
  /-- `cdc.Unmarshal`: what it leaves in the message, and its error. -/
  unmarshal : Bytes → M → M × Option String
  marshalJSON : M → Except String Bytes

/-- The `New` of a path's pool; `none` where it makes nothing that is a `proto.Message`. -/
abbrev Pools (M : Type) := String → Option (Option M)

/-- Nothing whitelisted by default. -/
def stargateResponsePools {M : Type} : Pools M := fun _ => none

def isWhitelistedQuery {M : Type} (pools : Pools M) (queryPath : String) : Except QueryError Unit :=
  match pools queryPath with
  | none => .error (.unsupportedRequest s!"'{queryPath}' path is not allowed from the contract")
  | some _ => .ok ()

def noMessage (queryPath : String) : QueryError :=
  .err s!"pool returned nil for query path '{queryPath}'"

section
variable {M Ctx : Type} (e : Env M Ctx)

/-- The value of the response. -/
def Env.answer (r : Request Ctx) : Except QueryError Bytes :=
  match e.route r.path with
  | none => .error (.unsupportedRequest s!"no route to query '{r.path}'")
  | some route =>
    match route r.ctx r.data with
    | .error err => .error (.err err)
    | .ok none => .error (.err "response value is nil")
    | .ok (some value) => .ok value

def unmarshalFailed (queryPath err : String) : QueryError :=
  .err s!"failed to unmarshal response for query path '{queryPath}': {err}"

/-- What a decoded message is returned as. -/
def Env.reply (querier : Querier) (m : M) : Except QueryError (Reply M) :=
  match querier with
  | .stargate =>
    match e.marshalJSON m with
    | .error err => .error (.err s!"failed to marshal response to JSON: {err}")
    | .ok bz => .ok (.json bz)
  | .grpc => .ok (.message m)

inductive Phase (M : Type) where
  | idle
  /-- Holds a message. -/
  | holding
  | answered (value : Bytes)
  /-- The response is in the message. -/
  | decoded
  /-- Has returned, with the deferred return of the message to come. -/
  | leaving (res : Except QueryError (Reply M))
  | done (res : Except QueryError (Reply M))

structure State (T M : Type) where
  pool : Pool String T M
  phase : T → Phase M

variable {T : Type} [DecidableEq T]

def State.goto (s : State T M) (t : T) (phase : Phase M) : State T M :=
  { s with phase := Function.update s.phase t phase }

def afterAnswer : Except QueryError Bytes → Phase M
  | .error err => .leaving (.error err)
  | .ok value => .answered value

def afterUnmarshal (queryPath : String) : Option String → Phase M
  | some err => .leaving (.error (unmarshalFailed queryPath err))
  | none => .decoded

/-- A step of a query, or a pool losing a message. -/
inductive Event (T : Type) where
  | query (t : T)
  | evict (queryPath : String) (i : Nat)
  deriving DecidableEq

/-- `req t` is what task `t` asks for. -/
inductive Step (pools : Pools M) (req : T → Request Ctx) :
    State T M → Event T → State T M → Prop
  | refuse {s : State T M} {t : T} {err : QueryError} : s.phase t = .idle →
    isWhitelistedQuery pools (req t).path = .error err →
    Step pools req s (.query t) (s.goto t (.done (.error err)))
  | reuse {s : State T M} {t : T} {new : Option M} {i : Nat} : s.phase t = .idle →
    pools (req t).path = some new → i ∈ s.pool.free (req t).path →
    Step pools req s (.query t) ({ s with pool := s.pool.take (req t).path t i }.goto t .holding)
  | allocate {s : State T M} {t : T} {m : M} : s.phase t = .idle →
    pools (req t).path = some (some m) →
    Step pools req s (.query t) ({ s with pool := s.pool.fresh (req t).path t m }.goto t .holding)
  | lack {s : State T M} {t : T} : s.phase t = .idle → pools (req t).path = some none →
    Step pools req s (.query t) (s.goto t (.done (.error (noMessage (req t).path))))
  | answer {s : State T M} {t : T} : s.phase t = .holding →
    Step pools req s (.query t) (s.goto t (afterAnswer (e.answer (req t))))
  | unmarshal {s : State T M} {t : T} {value : Bytes} {k : String} {i : Nat} :
    s.phase t = .answered value → s.pool.held t = some (k, i) →
    Step pools req s (.query t)
      ({ s with pool := s.pool.write i (e.unmarshal value (s.pool.cell i)).1 }.goto t
        (afterUnmarshal (req t).path (e.unmarshal value (s.pool.cell i)).2))
  | reply {s : State T M} {t : T} {k : String} {i : Nat} : s.phase t = .decoded →
    s.pool.held t = some (k, i) →
    Step pools req s (.query t) (s.goto t (.leaving (e.reply (req t).querier (s.pool.cell i))))
  | put {s : State T M} {t : T} {res : Except QueryError (Reply M)} : s.phase t = .leaving res →
    Step pools req s (.query t) ({ s with pool := s.pool.give t }.goto t (.done res))
  | evict {s : State T M} {queryPath : String} {i : Nat} :
    Step pools req s (.evict queryPath i) { s with pool := s.pool.evict queryPath i }

/-- No query has begun and no message was made. -/
def State.initial (m : M) : State T M := ⟨.empty m, fun _ => .idle⟩

/-! ## Without pools -/

/-- The response in a message, and what it is returned as. -/
def Env.conclude (r : Request Ctx) (value : Bytes) (m : M) : Except QueryError (Reply M) :=
  match (e.unmarshal value m).2 with
  | some err => .error (unmarshalFailed r.path err)
  | none => e.reply r.querier (e.unmarshal value m).1

/-- A query by itself, with a new message. -/
def Env.plain (pools : Pools M) (r : Request Ctx) : Except QueryError (Reply M) := do
  isWhitelistedQuery pools r.path
  match (pools r.path).join with
  | none => .error (noMessage r.path)
  | some m =>
    let value ← e.answer r
    e.conclude r value m

/-- As the program starts, no query is answered. -/
example (r : Request Ctx) : e.plain stargateResponsePools r = .error (.unsupportedRequest
    s!"'{r.path}' path is not allowed from the contract") := rfl

end
end Ark.Queries
