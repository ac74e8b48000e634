import Mathlib.Algebra.Order.Ring.Rat
import Mathlib.Data.Rat.Floor
import Mathlib.Logic.Function.Basic
import Ark.Lib.Python
import Ark.Lib.Quota
import Ark.Sdk

/- The devnet faucet (`ops/docker/faucet/faucet.py`): what a POST does, step by step.

   Requests are handled one after the other. What `arkd` does is given with the request
   (`Arkd`): each run of it as a subprocess ends, or raises, and what it printed is given
   as `json.loads` reads it. Whether the transfer that was sent is ever committed is not
   up to the faucet; `committed` says so.

   The state file is a dict from addresses to entries; an address it does not name has
   none. Times are seconds. The gas price, whose arithmetic is floating point, is given
   too, and the prefix of the addresses is the chain's, as it is by default.

   Correspondence (Python ↔ Lean):
     `raw.strip()`, `ADDR_0X_RE`, `ADDR_BECH32_RE`     ↔ `strip`, `matches0x`, `matchesBech32`
     `bech32_encode(HRP, convertbits(list(raw), 8, 5))` ↔ `Bech32.encode`
     `payload["address"]`, `data["txhash"]`            ↔ `subscript`
     `prune(entries, now)`, `sum(e["amount"] …)`       ↔ `prune`, `total`
     `for _ in range(15)`                              ↔ `confirm`
     an exception that leaves `do_POST`                ↔ `Answer.error` -/
namespace Ark.Faucet
open Ark.Lib Ark.Lib.Python Ark.Lib.Quota Ark.Sdk

structure Config where
  amountKash : Int
  dailyCapKash : Int
  printer : Printer

def Config.amountEsp (c : Config) : Int := c.amountKash * 10 ^ 18

def Config.dailyCapEsp (c : Config) : Int := c.dailyCapKash * 10 ^ 18

inductive Raised where
  | faucetError (value : Json)
  | jsonDecodeError
  | keyError
  | valueError
  | osError
  | python (e : Exception)

/-- What `subprocess.run` returns; what it printed as `json.loads` reads it. -/
structure Completed where
  stdout : Except Raised Json
  stderr : String
  returncode : Int

/-- What happens outside the faucet while it handles a request. -/
structure Arkd where
  /-- `current_gas_price()`. -/
  gasPrice : Except Raised Int
  send : Except Raised Completed
  /-- The attempts to find the transaction on the chain. -/
  query : Nat → Except Raised Completed
  /-- The transfer is committed, now or later, if it was sent. -/
  committed : Bool

structure Request where
  path : String
  /-- `json.loads` of the body. -/
  body : Except Raised Json
  now : ℚ
  arkd : Arkd

structure Reply where
  code : Nat
  obj : List (String × Json)

abbrev Answer := Except Raised Reply

/-! ## Addresses -/

/-- `^0x[0-9a-fA-F]{40}$`. -/
def matches0x : List Char → Bool
  | '0' :: 'x' :: digits => digits.length = 40 && digits.all fun c => (hexDigit c).isSome
  | _ => false

/-- The class `[0-9a-z]`. -/
def isLowerAlnum (c : Char) : Bool := ('0' ≤ c ∧ c ≤ '9') ∨ ('a' ≤ c ∧ c ≤ 'z')

def bech32Head : List Char := bech32Prefix ++ ['1']

/-- `^ark1[0-9a-z]{38}$`. -/
def matchesBech32 (text : List Char) : Bool :=
  let data := text.drop bech32Head.length
  bech32Head.isPrefixOf text && data.length = 38 && data.all isLowerAlnum

def ethHexToBech32 (hexaddr : List Char) : List Char :=
  Bech32.encode bech32Prefix (hexBytes (strip0x hexaddr))

def normalizeAddress (raw : String) : Option String :=
  let raw := strip raw.toList
  if matches0x raw then some (.ofList (ethHexToBech32 raw))
  else if matchesBech32 raw then some (.ofList raw)
  else none

/-! ## Sending -/

def lift {α : Type} : Except Exception α → Except Raised α
  | .ok a => .ok a
  | .error e => .error (.python e)

def subscript (v : Json) (key : String) : Except Raised Json :=
  match v with
  | .obj fields =>
    match fields.lookup key with
    | some value => .ok value
    | none => .error .keyError
  | _ => .error (.python .typeError)

/-- `data.get("code", 1) != 0`, with the error it raises then. -/
def checkCode (data : Json) (otherwise : String) : Except Raised Unit := do
  let code ← lift (data.get "code" (.int 1))
  if code.pyEq (.int 0) then pure ()
  else
    let rawLog ← lift (data.get "raw_log" .null)
    throw (.faucetError (rawLog.orElse (.str otherwise)))

/-- The attempts from the `i`-th on, of which `n` are left. -/
def confirm (query : Nat → Except Raised Completed) (txhash : Json) :
    Nat → Nat → Except Raised Json
  | 0, _ => throw (.faucetError (.str "timed out waiting for on-chain confirmation"))
  | n + 1, i => do
    let q ← query i
    if q.returncode = 0 then
      let qdata ← q.stdout
      checkCode qdata "tx failed on-chain"
      pure txhash
    else confirm query txhash n (i + 1)

/-- What the broadcast printed. -/
def broadcastData (result : Completed) : Except Raised Json :=
  match result.stdout with
  | .error .jsonDecodeError =>
    throw (.faucetError (Json.orElse (.str result.stderr) (.str "broadcast failed")))
  | stdout => stdout

def broadcastAndConfirm (arkd : Arkd) : Except Raised Json := do
  let _ ← arkd.gasPrice
  let result ← arkd.send
  let data ← broadcastData result
  checkCode data "broadcast rejected"
  let txhash ← subscript data "txhash"
  confirm arkd.query txhash 15 0

/-! ## Requests -/

/-- A time and an amount. -/
abbrev Entry := ℚ × Int

abbrev State := String → List Entry

def day : ℚ := 86400

/-- `int(x)`. -/
def truncate (x : ℚ) : Int := if x < 0 then ⌈x⌉ else ⌊x⌋

def readAddress (r : Request) : Except Answer String :=
  if r.path ≠ "/faucet" then throw (.ok ⟨404, [("error", .str "not found")]⟩)
  else
    match r.body >>= fun payload => subscript payload "address" with
    | .error .jsonDecodeError | .error .keyError =>
      throw (.ok ⟨400, [("error", .str "expected JSON body: \x7b\"address\": \"...\"\x7d")]⟩)
    | .error e => throw (.error e)
    | .ok (.str rawAddr) =>
      match normalizeAddress rawAddr with
      | none => throw (.ok ⟨400,
          [("error", .str "invalid address - expected ark1... or 0x... (40 hex chars)")]⟩)
      | some addr => pure addr
    | .ok _ => throw (.error (.python .attributeError))

/-- The entries that count at `now`, where the cap leaves room for one more. -/
def Config.room (c : Config) (s : State) (addr : String) (now : ℚ) :
    Except Answer (List Entry) :=
  let entries := prune day now (s addr)
  let used := total entries
  if used + c.amountEsp > c.dailyCapEsp then
    let resetIn :=
      match entries with
      | [] => 86400
      | e :: _ => truncate (86400 - (now - e.1))
    throw (.ok ⟨429,
      [("error", .str s!"daily cap of {c.dailyCapKash} KASH reached for this address"),
        ("retry_after_seconds", .int resetIn)]⟩)
  else pure entries

def doPost (c : Config) (s : State) (r : Request) : Answer × State :=
  match readAddress r with
  | .error answer => (answer, s)
  | .ok addr =>
    match c.room s addr r.now with
    | .error answer => (answer, s)
    | .ok entries =>
      match broadcastAndConfirm r.arkd with
      | .error (.faucetError value) =>
        (.ok ⟨502, [("error", .str (c.printer.text value))]⟩, s)
      | .error e => (.error e, s)
      | .ok txhash =>
        (.ok ⟨200, [("address", .str addr), ("amount_kash", .int c.amountKash),
          ("tx_hash", txhash)]⟩, Function.update s addr (entries ++ [(r.now, c.amountEsp)]))

/-! ## Runs -/

/-- A transfer that is committed at some time, for the request at `time`. -/
structure Transfer where
  receiver : Address
  time : ℚ
  amount : Int

/-- The transfer of a request that gets as far as `arkd tx bank send`. -/
def Config.sent (c : Config) (addr : String) (r : Request) : Option Transfer :=
  match r.arkd.gasPrice, arkCodec.accAddressFromBech32 addr with
  | .ok _, .ok a => if r.arkd.committed then some ⟨a, r.now, c.amountEsp⟩ else none
  | _, _ => none

def transfer (c : Config) (s : State) (r : Request) : Option Transfer :=
  match readAddress r with
  | .error _ => none
  | .ok addr =>
    match c.room s addr r.now with
    | .error _ => none
    | .ok _ => c.sent addr r

structure World where
  state : State
  transfers : List Transfer

def step (c : Config) (w : World) (r : Request) : World :=
  ⟨(doPost c w.state r).2, w.transfers ++ (transfer c w.state r).toList⟩

/-- The requests in order, from a faucet without a state file. -/
def run (c : Config) (rs : List Request) : World := rs.foldl (step c) ⟨fun _ => [], []⟩

end Ark.Faucet
