import Mathlib.Data.String.Basic
import Ark.Lib.KeySet
import Ark.Lib.Python

/- The release gate: the script that decides from the committed evidence whether a release
   may be tagged.

   The evidence is the git history, three markdown reports, a contract and nine JSON
   artifacts. The script collects failures as it goes, and the gate passes when there
   are none. A part of it returns the failures it records, in order, or raises, which
   ends the script; what it prints on the console besides is left out.

   `loadJson` gives null for an artifact that is missing or cannot be parsed, after
   recording a failure, and `artifactChecks` does nothing more for null.

   Correspondence (Python ↔ Lean):
     `Gate.errors`                        ↔ the list a `Part` returns
     `Gate.check`, `Gate.load_json`       ↔ `check`, `loadJson`
     `collect_sol_filenames`, its `walk`  ↔ `collectSolFilenames`, `walk`
     `if gosec is not None: …`            ↔ `artifactChecks`, `gosecChecks`, …
     `verify_gate`                        ↔ `verifyGate` -/
namespace Ark.ReleaseGate
open Ark.Lib Ark.Lib.Python

/-! ## Evidence -/

structure Git where
  /-- `git_output`: what a git command prints, if it succeeds and prints something. -/
  output : List String → Option String
  /-- `git merge-base --is-ancestor`. -/
  mergeBase : String → String → Except Exception Bool

inductive Report where
  | missing
  | unreadable
  | text (content : String)
  deriving DecidableEq

inductive Artifact where
  | missing
  | unparseable (exc : String)
  | document (json : Json)

inductive ArtifactName where
  | gosec | semgrep | slither | mempool | validator | breaker | rpc | rateLimit | reboot
  deriving DecidableEq

namespace ArtifactName

def all : List ArtifactName :=
  [.gosec, .semgrep, .slither, .mempool, .validator, .breaker, .rpc, .rateLimit, .reboot]

def fileName : ArtifactName → String
  | .gosec => "gosec-raw.json"
  | .semgrep => "semgrep-raw.json"
  | .slither => "slither-raw.json"
  | .mempool => "mempool-flood-results.json"
  | .validator => "validator-failure-results.json"
  | .breaker => "circuit-breaker-results.json"
  | .rpc => "rpc-test-results.json"
  | .rateLimit => "rate-limit-results.json"
  | .reboot => "hard-reboot-results.json"

def label : ArtifactName → String
  | .gosec => "GoSec"
  | .semgrep => "Semgrep"
  | .slither => "Slither"
  | .mempool => "Mempool Flood"
  | .validator => "Validator Failure"
  | .breaker => "Circuit Breaker"
  | .rpc => "JSON-RPC Suite"
  | .rateLimit => "Rate Limiter"
  | .reboot => "Hard Reboot"

end ArtifactName

structure Evidence where
  git : Git
  day1 : Report
  day2 : Report
  day3 : Report
  /-- The size of the guardrail contract, if it is there. -/
  contract : Option Nat
  artifact : ArtifactName → Artifact

/-! ## Failures -/

/-- The failures that a part of the script records. -/
abbrev Part := Except Exception (List String)

def check (condition : Bool) (failMsg : String) : List String :=
  if condition then [] else [failMsg]

def reportsDir : String := "scripts/chaos/reports"

/-- The parsed document, or null and a failure. -/
def loadJson (name : ArtifactName) : Artifact → Json × List String
  | .missing => (.null, [s!"{name.label}: missing artifact {reportsDir}/{name.fileName}"])
  | .unparseable exc => (.null, [s!"{name.label}: unparseable JSON in {name.fileName} ({exc})"])
  | .document json => (json, [])

/-! ## Commit binding -/

def evidencePaths : List String := [reportsDir]

def sourcePaths : List String :=
  ["app/ante", "scripts/chaos/contracts", "scripts/chaos/*.py", "scripts/chaos/*.sh",
    "scripts/release", ".github/workflows/release.yml"]

def resolveCommit (git : Git) (ref : String) : Option String :=
  git.output ["rev-parse", "--verify", "--quiet", ref ++ "^\x7bcommit\x7d"]

def lastCommitTouching (git : Git) (commit : String) (paths : List String) : Option String :=
  git.output (["log", "-1", "--format=%H", commit, "--"] ++ paths)

def isAncestor (git : Git) (older newer : String) : Except Exception Bool :=
  if older = newer then .ok true else git.mergeBase older newer

/-- The commit of the tag, or else of the checkout. -/
def targetCommit (git : Git) (targetTag : String) : Option String :=
  (if targetTag ≠ "" then resolveCommit git targetTag else none).or (resolveCommit git "HEAD")

def short (commit : String) : String := String.ofList (commit.toList.take 12)

def commitBinding (git : Git) (targetTag : String) : Part :=
  match targetCommit git targetTag with
  | none =>
    let ref := if targetTag ≠ "" then targetTag else "HEAD"
    .ok [s!"Commit binding: could not resolve a git commit for {ref} — is this a full git " ++
      "checkout (fetch-depth: 0, fetch-tags: true)?"]
  | some target =>
    match lastCommitTouching git target evidencePaths with
    | none =>
      .ok [s!"Commit binding: {reportsDir} has no history as of {short target} — no evidence was " ++
        "ever committed for this ref"]
    | some evidence =>
      match lastCommitTouching git target sourcePaths with
      | none => .ok []
      | some source => do
        let ancestor ← isAncestor git source evidence
        pure (check ancestor (s!"Commit binding: evidence last updated at {short evidence} but " ++
          s!"security-relevant source last changed at {short source} (both as of {short target}) " ++
          "— evidence predates the code it must certify, re-run the Eng 3 harnesses against this " ++
          "commit"))

/-! ## Reports and contract -/

def markdownReports (e : Evidence) : Part := do
  let present := check (e.day1 ≠ .missing)
      s!"Missing markdown report: {reportsDir}/day1-static-analysis.md" ++
    check (e.day2 ≠ .missing) s!"Missing markdown report: {reportsDir}/day2-chaos-report.md" ++
    check (e.day3 ≠ .missing) s!"Missing markdown report: {reportsDir}/day3-final-signoff.md"
  match e.day3 with
  | .missing => pure present
  | .unreadable => throw .unicodeDecodeError
  | .text content =>
    pure (present ++ check (contains "CERTIFIED PRODUCTION READY" content)
      "Day 3 report missing explicit 'CERTIFIED PRODUCTION READY' certification")

def guardrailContract : String := "LaunchGuardrail.sol"

def contractCheck (e : Evidence) : Part :=
  .ok (check (0 < e.contract.getD 0) s!"Missing or empty {guardrailContract} contract")

/-! ## Static analysis -/

def isGenerated (path : String) : Bool := endsWith ".pb.go" path || endsWith ".pb.gw.go" path

mutual

/-- The names of the contracts that a filename-like key holds. -/
def walk (keyHint : String) : Json → List String
  | .obj fields => walkFields fields
  -- the items of a list are held by the key that holds the list
  | .arr items => walkItems keyHint items
  | .str node =>
    if endsWith ".sol" node && searchIgnoreCase "filename" keyHint then [pathName node] else []
  | _ => []

def walkFields : List (String × Json) → List String
  | [] => []
  | (key, value) :: fields => walk key value ++ walkFields fields

def walkItems (keyHint : String) : List Json → List String
  | [] => []
  | item :: items => walk keyHint item ++ walkItems keyHint items

end

def collectSolFilenames (obj : Json) : KeySet String :=
  (walk "" obj).foldl KeySet.set KeySet.empty

section
variable (p : Printer)

def gosecChecks (gosec : Json) : Part := do
  let golangErrors ← gosec.get "Golang errors" (.obj [])
  let fatal := check (!golangErrors.truthy)
    s!"GoSec reported fatal Golang errors: {p.text golangErrors}"
  let issues ← ((← gosec.get "Issues" (.arr [])).orElse (.arr [])).iterate
  -- findings in generated code are counted on the console only
  let blocking ← issues.filterM fun i => do
    let severity ← i.get "severity" (.str "")
    if upper (p.text severity) = "HIGH" then
      let file ← i.get "file" (.str "")
      pure (!isGenerated (p.text file))
    else pure false
  pure (fatal ++ check blocking.isEmpty
    s!"GoSec: {blocking.length} HIGH severity finding(s) in hand-written code")

def semgrepChecks (semgrep : Json) : Part := do
  let scanErrors := (← semgrep.get "errors" (.arr [])).orElse (.arr [])
  -- the message is built also when the check succeeds
  let errorCount ← scanErrors.len
  let scan := check (!scanErrors.truthy)
    s!"Semgrep: scan reported {errorCount} error(s) — incomplete scan"
  let results ← ((← semgrep.get "results" (.arr [])).orElse (.arr [])).iterate
  let blocking ← results.filterM fun r => do
    let extra ← r.get "extra" (.obj [])
    let severity ← extra.get "severity" (.str "")
    pure (upper (p.text severity) = "ERROR")
  -- each finding is printed with its line
  blocking.forM fun r => do
    let start ← r.get "start" (.obj [])
    let _ ← start.get "line" .null
  pure (scan ++ check blocking.isEmpty s!"Semgrep: {blocking.length} ERROR severity finding(s)")

def slitherChecks (slither : Json) : Part := do
  let success ← slither.get "success" .null
  let error ← slither.get "error" .null
  let results := (← slither.get "results" .null).orElse (.obj [])
  let detectors ← ((← results.get "detectors" (.arr [])).orElse (.arr [])).iterate
  let blocking ← detectors.filterM fun d => do
    let impact ← d.get "impact" (.str "")
    pure (lower (p.text impact) = "high" || lower (p.text impact) = "medium")
  let scanned := collectSolFilenames results
  let covered :=
    if scanned.keys = [] then "nothing" else p.text (.arr (scanned.keys.map Json.str))
  pure (check success.isTrue s!"Slither: analysis did not succeed (error: {p.repr error})" ++
    check blocking.isEmpty s!"Slither: {blocking.length} High/Medium impact finding(s)" ++
    check (guardrailContract ∈ scanned) (s!"Slither: {guardrailContract} was never scanned " ++
      s!"(covered: {covered}) — an unscanned contract trivially reports zero findings"))

/-! ## Test results -/

def checkSuiteCounts (data : Json) (label : String) : Part := do
  let total ← data.get "total" (.int 0)
  let passed ← data.get "passed" (.int 0)
  -- an absent count of failures fails the suite
  let failed ← data.get "failed" (.int 1)
  let skipped ← data.get "skipped" (.int 0)
  let condition ← pyAnd (total.gt (.int 0))
    (.ok (failed.pyEq (.int 0) && skipped.pyEq (.int 0) && passed.pyEq total))
  pure (check condition (s!"{label}: {p.text passed}/{p.text total} passed, {p.text failed} failed, " ++
    s!"{p.text skipped} skipped (require all executed and passing)"))

def checkExecuted (data : Json) (label : String) (livenessFields : List String) : Part := do
  let executed ← data.get "executed" .null
  -- artifacts without the flag are judged by the liveness fields
  let fields ← livenessFields.mapM fun f => do pure (f, ← data.get f .null)
  let live := if executed.isNull then fields.all (·.2.isTrue) else executed.isTrue
  let detail :=
    if executed.isNull then " / ".intercalate (fields.map fun (f, v) => s!"{f}={p.repr v}")
    else s!"executed={p.repr executed}"
  pure (check live (s!"{label}: NOT executed against a live chain ({detail}) — " ++
    "evidence was produced with nothing running"))

def mempoolChecks (mempool : Json) : Part := do
  let submits ← mempool.get "successful_submits" (.int 0)
  let mined ← mempool.get "mined_txs" (.int 0)
  let blocks := (← mempool.get "blocks_tracked" (.arr [])).orElse (.arr [])
  let initial ← mempool.get "initial_base_fee" (.int 0)
  let peak ← mempool.get "peak_base_fee" (.int 0)
  let reached ← pyAnd (submits.gt (.int 0)) (mined.gt (.int 0))
  let blockCount ← blocks.len
  let scaled ← peak.gt initial
  pure (check reached (s!"Mempool Flood: {p.text submits} submitted / {p.text mined} mined — no " ++
      "transactions reached the chain") ++
    check (0 < blockCount) "Mempool Flood: no blocks observed under load (blocks_tracked empty)" ++
    check scaled ("Mempool Flood: base fee never rose under load " ++
      s!"({p.text initial} -> {p.text peak})"))

def validatorChecks (validator : Json) : Part := do
  let executed ← checkExecuted p validator "Validator Failure" ["cluster_online"]
  let faultInjected ← validator.get "fault_injected" .null
  let observed ← (← validator.get "total_validators" (.int 0)).gt (.int 0)
  let startH ← validator.get "start_height" (.int 0)
  let endH ← validator.get "end_height" (.int 0)
  let advanced ← endH.gt startH
  let faultBlocks := (← validator.get "fault_blocks" (.arr [])).orElse (.arr [])
  let faultCount ← faultBlocks.len
  let lastHeight ← validator.get "fault_window_last_height" (.int 0)
  let recovered ← pyAnd (lastHeight.gt (.int 0)) (endH.ge lastHeight)
  pure (executed ++
    check faultInjected.isTrue
      "Validator Failure: fault_injected is false — no outage was ever simulated" ++
    check observed "Validator Failure: total_validators is 0 — no cluster was observed" ++
    check advanced s!"Validator Failure: no block progress ({p.text startH} -> {p.text endH})" ++
    check (0 < faultCount) ("Validator Failure: no blocks observed committing during the outage " ++
      "(fault_blocks empty) — liveness not proven by raw data") ++
    check recovered (s!"Validator Failure: recovered height {p.text endH} never reached the " ++
      s!"outage-window height {p.text lastHeight} — fast-sync not proven by raw data"))

def breakerChecks (breaker : Json) : Part := do
  let executed ← checkExecuted p breaker "Circuit Breaker" ["node_online"]
  let total ← breaker.get "total" (.int 0)
  let passed ← breaker.get "passed" (.int 0)
  let allPassed ← breaker.get "all_passed" .null
  let condition ← pyAnd (.ok allPassed.isTrue)
    (pyAnd (total.gt (.int 0)) (.ok (passed.pyEq total)))
  pure (executed ++ check condition
    s!"Circuit Breaker: {p.text passed}/{p.text total} checks passed (require all)")

def rebootChecks (reboot : Json) : Part := do
  let executed ← checkExecuted p reboot "Hard Reboot" ["cluster_online"]
  let preHeight ← reboot.get "pre_height" (.int 0)
  let preHash := (← reboot.get "pre_app_hash" (.str "")).orElse (.str "")
  let captured ← preHeight.gt (.int 0)
  let hashed ← stripTruthy preHash
  let allPassed ← reboot.get "all_passed" .null
  pure (executed ++
    check captured (s!"Hard Reboot: pre_height is {p.text preHeight} — no pre-reboot state was " ++
      "captured") ++
    check hashed "Hard Reboot: pre_app_hash is empty — no state root to compare against" ++
    check allPassed.isTrue "Hard Reboot: invariant checks failed")

/-! ## The gate -/

def documentChecks : ArtifactName → Json → Part
  | .gosec => gosecChecks p
  | .semgrep => semgrepChecks p
  | .slither => slitherChecks p
  | .mempool => mempoolChecks p
  | .validator => validatorChecks p
  | .breaker => breakerChecks p
  | .rpc => fun rpc => checkSuiteCounts p rpc "JSON-RPC Suite"
  | .rateLimit => fun rateLimit => checkSuiteCounts p rateLimit "Rate Limiter & Deposit Caps"
  | .reboot => rebootChecks p

/-- An artifact, and what is checked of it unless it is null. -/
def artifactChecks (e : Evidence) (name : ArtifactName) : Part :=
  let (json, failures) := loadJson name (e.artifact name)
  -- null after a failure, or as the content of the file
  if json.isNull then .ok failures
  else do
    let more ← documentChecks p name json
    pure (failures ++ more)

def verifyGate (e : Evidence) (targetTag : String) : Except Exception Bool := do
  let binding ← commitBinding e.git targetTag
  let reports ← markdownReports e
  let gosec ← artifactChecks p e .gosec
  let semgrep ← artifactChecks p e .semgrep
  let slither ← artifactChecks p e .slither
  let mempool ← artifactChecks p e .mempool
  let validator ← artifactChecks p e .validator
  let breaker ← artifactChecks p e .breaker
  let rpc ← artifactChecks p e .rpc
  let contract ← contractCheck e
  let rateLimit ← artifactChecks p e .rateLimit
  let reboot ← artifactChecks p e .reboot
  let errors := binding ++ reports ++ gosec ++ semgrep ++ slither ++ mempool ++ validator ++
    breaker ++ rpc ++ contract ++ rateLimit ++ reboot
  pure errors.isEmpty

end
end Ark.ReleaseGate
