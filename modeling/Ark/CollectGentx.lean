import Ark.Lib.Bech32
import Ark.Lib.Checks
import Ark.Lib.Jq

/- Collecting gentxs (`scripts/genesis/collect-gentx.sh`): each gentx of a directory is
   checked and replayed in a throwaway node, and the final genesis is compiled from the
   ones that passed.

   A gentx comes with what the programs that are run on it do: whether `init`, the copies
   and `genesis collect-gentxs` succeed in its own home (`Boot`), and how its node goes
   (`NodeRun`). The log of a node is a text that grows; the script looks at it twice in
   each round of its loop, and once the node is killed and gone the log is `final`.

   A command that fails outside of a condition ends the script (`set -e`), here
   `Stop.abort`. Texts are what variables hold, after `$(…)`. A message can say more than
   is kept here only about the paths in it.

   Correspondence (shell ↔ Lean):
     `"$(jq -r path "$f")"`                     ↔ `Script.value`
     `"$(jq 'path | length' … || echo 0)"`      ↔ `Script.count`
     `bech32_reencode.py`                       ↔ `Reencode.reencode`
     `reject "$name" "…"; continue`             ↔ `Stop.reject`
     `SEEN_LOG` and the `awk` that reads it     ↔ `St.seen`, `Script.prior`
     `int(sys.argv[1])`                         ↔ `parseInt`
     `for _ in $(seq 1 "$BOOT_TIMEOUT")`        ↔ `poll`
     `ACCEPTED`, `REJECTED`, `VALID_DIR`        ↔ `St.accepted`, `St.rejected`, `St.valid` -/
namespace Ark.CollectGentx
open Ark.Lib Ark.Lib.Checks Ark.Lib.Jq Ark.Lib.Shell
open Ark.Lib.Python (Json parseInt)

/-! ## Addresses under another prefix -/

namespace Reencode
open Ark.Lib.Bech32

/-- `bech32_decode`: `none` where it raises. -/
def decode (bech : List Char) : Option (List Char × List Symbol) :=
  if bech.any fun c => c.toNat < 33 ∨ c.toNat > 126 then none
  else if bech.map Char.toLower ≠ bech ∧ bech.map Char.toUpper ≠ bech then none
  else
    let bech := bech.map Char.toLower
    let dataPart := (bech.reverse.takeWhile fun c => c ≠ '1').reverse
    let pos := bech.length - dataPart.length - 1
    if '1' ∉ bech ∨ pos < 1 ∨ bech.length < pos + 7 then none
    else
      let hrp := bech.take pos
      match dataPart.mapM charSymbol with
      | none => none
      | some data =>
        if polymod (hrpExpand hrp ++ data.map Fin.val) ≠ 1 then none
        else some (hrp, data.take (data.length - 6))

def encode (hrp : List Char) (data : List Symbol) : List Char :=
  hrp ++ '1' :: (data ++ checksum hrp data).map symbolChar

/-- What the script prints, if it prints anything. -/
def reencode (address newHrp : List Char) : Option (List Char) :=
  (decode address).map fun decoded => encode newHrp decoded.2

end Reencode

/-! ## Gentxs and nodes -/

/-- A throwaway node: whether it is alive in a round, and what its log says. -/
structure NodeRun where
  alive : Nat → Bool
  log : Nat → List Char
  final : List Char
  grows : ∀ i, log i <+: log (i + 1)
  ends : ∀ i, log i <+: final
  /-- What `grep` and `sed` find of the reason of a panic. -/
  panicReason : String

structure Boot where
  init : Bool
  copied : Bool
  /-- `genesis collect-gentxs`, with the end of its log where it fails. -/
  collect : Except String Unit
  logPath : String
  node : NodeRun

/-- A file of the directory; the script takes those that `*.json` matches. -/
structure Gentx where
  name : List Char
  name_json : ".json".toList <:+ name
  name_noNul : Char.ofNat 0 ∉ name
  /-- The JSON documents of the file; `none` where it is not valid JSON. -/
  docs : Option (List Json)
  /-- `python3 -c` exits with 0. -/
  python : Bool
  boot : Boot
  /-- The copy to `VALID_DIR` succeeds. -/
  kept : Bool

/-- The base genesis, and what else the script is run with. -/
structure Script where
  /-- The first check of the arguments that fails. -/
  usage : Option String
  base : Option (List Json)
  bootTimeout : Nat
  render : Json → List Char
  unicode : Char → Option Nat
  /-- How `awk -v` reads a backslash. -/
  awkEscapes : List Char → List Char
  /-- Both texts look like numbers, and equal ones. -/
  awkNumbers : List Char → List Char → Bool
  /-- The copies to the home that the genesis is compiled in succeed. -/
  copied : Bool
  /-- The final `collect-gentxs` and `validate-genesis`, with these files in the gentx directory. -/
  compiles : List Gentx → Bool
  validates : List Gentx → Bool
  /-- The genesis is copied to the output. -/
  written : Bool

inductive Stop where
  | reject (reason : String)
  | abort

namespace Script
variable {α : Type} (s : Script)

/-- `"$(jq -r … "$f")"`: a failure of jq ends the script. -/
def value (filter : Json → Stream) (docs : List Json) : Except Stop (List Char) :=
  let (text, failed) := Jq.run s.render filter docs
  if failed then .error .abort else .ok (substitute text)

/-- `"$(jq … "$f" || echo 0)"`. -/
def count (filter : Json → Stream) (docs : List Json) : List Char :=
  let (text, failed) := Jq.run s.render filter docs
  substitute (if failed then text ++ ['0', '\n'] else text)

/-! ## The base genesis -/

/-- `ACCOUNT_ADDR_SAMPLE`. -/
def sample : Json → Stream := firstOf
  [[.key "app_state", .key "bank", .key "balances", .item 0, .key "address"],
    [.key "app_state", .key "auth", .key "accounts", .item 0, .key "address"]]

def accountPrefix : List Char :=
  match s.value sample (s.base.getD []) with
  | .ok text => beforeLast '1' text
  | .error _ => []

/-- A failure of jq before the loop: its exit code is the script's. -/
def orJq : Except Stop α → Except String α
  | .ok a => pure a
  | .error _ => throw "jq"

/-- The checks before the loop. -/
def setup : Except String Unit :=
  match s.usage with
  | some message => throw message
  | none =>
    match s.base with
    | none => throw "jq"
    | some base => do
      let chainID ← orJq (s.value (path [.key "chain_id"]) base)
      failIf (chainID = [] ∨ chainID = "null".toList) "base genesis has no chain_id"
      let address ← orJq (s.value sample base)
      failIf (address = []) ("base genesis has no funded bank balances or auth accounts to " ++
        "derive the bech32 account prefix from")
      failIf (s.accountPrefix = [])
        s!"could not derive a bech32 prefix from address: {String.ofList address}"

/-- The amounts of a denom that an address has. -/
def amounts (addr denom : List Char) (v : Json) : Stream :=
  (((iterate [.key "app_state", .key "bank", .key "balances"] v).pipe
    (selectText [.key "address"] (.ofList addr))).pipe (iterate [.key "coins"])).pipe
      fun coin =>
        (selectText [.key "denom"] (.ofList denom) coin).pipe (path [.key "amount"])

/-! ## The checks of a gentx -/

def messages : List Step := [.key "body", .key "messages"]

def message : List Step := messages ++ [.item 0]

def signatures : List Step := [.key "signatures"]

def lengthAt (steps : List Step) (v : Json) : Stream := .ofOption ((follow steps v).bind length)

/-- What a gentx says it delegates. -/
structure Claim where
  moniker : List Char
  valAddr : List Char
  selfAmount : List Char
  selfDenom : List Char

def msgCreateValidator : List Char := "/cosmos.staking.v1beta1.MsgCreateValidator".toList

def structuralChecks (g : Gentx) : Except Stop Claim :=
  match g.docs with
  | none => throw (.reject "not valid JSON")
  | some docs => do
    let msgCount := s.count (lengthAt messages) docs
    failIf (msgCount ≠ ['1'])
      (.reject s!"expected exactly 1 message, got {String.ofList msgCount}")
    let msgType ← s.value (path (message ++ [.key "@type"])) docs
    failIf (msgType ≠ msgCreateValidator)
      (.reject s!"expected MsgCreateValidator, got {String.ofList msgType}")
    let sigCount := s.count (lengthAt signatures) docs
    failIf (sigCount ≠ ['1'])
      (.reject s!"expected exactly 1 signature, got {String.ofList sigCount}")
    let moniker ← s.value (path (message ++ [.key "description", .key "moniker"])) docs
    let valAddr ← s.value (path (message ++ [.key "validator_address"])) docs
    let selfAmount ← s.value (path (message ++ [.key "value", .key "amount"])) docs
    let selfDenom ← s.value (path (message ++ [.key "value", .key "denom"])) docs
    failIf (valAddr = [] ∨ valAddr = "null".toList) (.reject "missing validator_address")
    pure ⟨moniker, valAddr, selfAmount, selfDenom⟩

/-- The delegator's address: that of the validator under the account prefix. -/
def resolve (valAddr : List Char) : Except Stop (List Char) :=
  let delAddr := substitute (unlines (Reencode.reencode valAddr s.accountPrefix).toList)
  if delAddr = [] then
    throw (.reject <| "could not resolve delegator address from validator_address=" ++
      String.ofList valAddr)
  else pure delAddr

def awkVariable (text : List Char) : List Char :=
  if '\\' ∈ text then s.awkEscapes text else text

def awkEqual (a b : List Char) : Bool := a = b || s.awkNumbers a b

/-- `awk -v a="$del_addr" '$1 == a {print $2; exit}'`. -/
def prior (seen delAddr : List Char) : List Char :=
  let found := (splitLines seen).find? fun line =>
    s.awkEqual (firstField line) (s.awkVariable delAddr)
  substitute (unlines (found.map fun line => firstField (afterFirstField line)).toList)

def checkDuplicate (seen delAddr : List Char) : Except Stop Unit :=
  let prior := s.prior seen delAddr
  failIf (prior ≠ []) (.reject <| s!"duplicate gentx for address {String.ofList delAddr} " ++
    s!"(already accepted from {String.ofList prior})")

def checkFunds (g : Gentx) (claim : Claim) (delAddr : List Char) : Except Stop Unit := do
  let balance ← s.value (amounts delAddr claim.selfDenom) (s.base.getD [])
  let ofBalance := s!"(balance={String.ofList balance}, claimed={String.ofList claim.selfAmount})"
  failIf (balance = []) (.reject <| s!"account {String.ofList delAddr} not found in base genesis " ++
    s!"bank balances (denom {String.ofList claim.selfDenom}) - add it with " ++
    "'genesis add-genesis-account' first")
  failIf (g.python = false) (.reject s!"could not parse amounts {ofBalance}")
  match parseInt s.unicode balance, parseInt s.unicode claim.selfAmount with
  | some available, some claimed =>
    failIf (available < claimed) (.reject <| "insufficient self-delegation funds: account " ++
      s!"{String.ofList delAddr} has {String.ofList (balance ++ claim.selfDenom)}, gentx claims " ++
      String.ofList (claim.selfAmount ++ claim.selfDenom))
  | _, _ => throw (.reject s!"non-numeric amount in gentx {ofBalance}")

/-- The gentx alone in a new home. -/
def prepare (g : Gentx) : Except Stop Unit := do
  failIf (g.boot.init = false) .abort
  failIf (g.boot.copied = false) .abort
  match g.boot.collect with
  | .error tail => throw (.reject s!"genesis collect-gentxs failed: {tail}")
  | .ok () => pure ()

/-- Everything before the node is started; the delegator's address. -/
def checks (seen : List Char) (g : Gentx) : Except Stop (List Char) := do
  let claim ← s.structuralChecks g
  let delAddr ← s.resolve claim.valAddr
  s.checkDuplicate seen delAddr
  s.checkFunds g claim delAddr
  prepare g
  pure delAddr

/-! ## The node -/

/-- `"InitChain"`, in quotes, or `initializing blockchain state`. -/
def showsStart (log : List Char) : Bool :=
  shows "\"InitChain\"".toList log || shows "initializing blockchain state".toList log

def showsInitChain (log : List Char) : Bool := shows "InitChain".toList log

/-- `committed state` or `indexed block`. -/
def showsBlock (log : List Char) : Bool :=
  shows "committed state".toList log || shows "indexed block".toList log

def showsPanic (log : List Char) : Bool := shows "panic: failed to execute DeliverTx".toList log

/-- The rounds from the `i`-th on, of which `n` are left: `boot_ok`. -/
def poll (node : NodeRun) : Nat → Nat → Bool
  | 0, _ => false
  | n + 1, i =>
    if node.alive i = false then false
    else if showsStart (node.log (2 * i)) && showsBlock (node.log (2 * i + 1)) then true
    else poll node n (i + 1)

def replay (g : Gentx) : Except Stop Unit := do
  let node := g.boot.node
  let bootOk := poll node s.bootTimeout 0
  failIf (showsPanic node.final) (.reject <|
    if node.panicReason = "" then "InitChain panicked replaying this gentx (likely bad signature) " ++
      s!"- see {g.boot.logPath}"
    else node.panicReason)
  failIf (bootOk = false ∧ ¬ (showsBlock node.final || showsInitChain node.final)) (.reject <|
    s!"node did not complete InitChain within {s.bootTimeout}s - see {g.boot.logPath}")

/-! ## The directory -/

structure St where
  seen : List Char
  accepted : List Gentx
  rejected : List (List Char × String)
  valid : List Gentx

def St.empty : St := ⟨[], [], [], []⟩

inductive Progress where
  | go (st : St)
  | aborted (st : St)

def Progress.state : Progress → St
  | go st => st
  | aborted st => st

def St.stop (st : St) (g : Gentx) : Stop → Progress
  | .reject reason => .go { st with rejected := st.rejected ++ [(g.name, reason)] }
  | .abort => .aborted st

def seenLine (delAddr name : List Char) : List Char := delAddr ++ ' ' :: name

def St.accept (st : St) (g : Gentx) (delAddr : List Char) : Progress :=
  let st := { st with
    seen := st.seen ++ unlines [seenLine delAddr g.name]
    accepted := st.accepted ++ [g] }
  if g.kept then .go { st with valid := st.valid ++ [g] } else .aborted st

def judge (st : St) (g : Gentx) : Progress :=
  match s.checks st.seen g with
  | .error stop => st.stop g stop
  | .ok delAddr =>
    match s.replay g with
    | .error stop => st.stop g stop
    | .ok () => st.accept g delAddr

def judgeAll : St → List Gentx → Progress
  | st, [] => .go st
  | st, g :: files =>
    match s.judge st g with
    | .go st => judgeAll st files
    | .aborted st => .aborted st

inductive Exit where
  | success
  | failed (message : String)
  | aborted
  deriving DecidableEq

structure Outcome where
  exit : Exit
  accepted : List Gentx
  /-- The gentxs that the written genesis was compiled from. -/
  compiled : Option (List Gentx)

def St.outcome (st : St) (exit : Exit) (compiled : Option (List Gentx)) : Outcome :=
  ⟨exit, st.accepted, compiled⟩

/-- What comes after the loop. -/
def finish (st : St) : Outcome :=
  if st.accepted.isEmpty then st.outcome (.failed "no valid gentx files - nothing to compile") none
  else if s.copied = false then st.outcome .aborted none
  else if s.compiles st.valid = false then
    st.outcome (.failed
      "final collect-gentxs failed unexpectedly after per-file validation passed") none
  else if s.validates st.valid = false then
    st.outcome (.failed "compiled genesis failed validate-genesis") none
  else if s.written = false then st.outcome .aborted none
  else if st.rejected.isEmpty then st.outcome .success (some st.valid)
  else
    st.outcome (.failed <| s!"{st.rejected.length} gentx file(s) were rejected and are NOT in " ++
      "the compiled genesis:") (some st.valid)

def run (files : List Gentx) : Outcome :=
  match s.setup with
  | .error message => St.empty.outcome (.failed message) none
  | .ok () =>
    if files.isEmpty then St.empty.outcome (.failed "no *.json files found") none
    else
      match s.judgeAll .empty files with
      | .aborted st => st.outcome .aborted none
      | .go st => s.finish st

end Script
end Ark.CollectGentx
