import Mathlib.Logic.Function.Basic
import Mathlib.Logic.Relation
import Ark.ReleaseGate

/- Weaker evidence and the gate.

   The gate passes when the commit binding, the reports and the contract pass and every
   artifact is a document that is null or passes its checks (`verifyGate_passes`).
   Evidence is weakened by deleting artifact files, deleting keys at any depth, and
   replacing documents by null (`Weakens`). What is not a document stays that way, and
   nothing else is touched; but nine documents can always be weakened to nine nulls. So
   some weakening passes exactly when the evidence outside the documents passes and all
   nine are documents (`Grounded`), whatever the documents say. -/
namespace Ark.ReleaseGate
open Ark.Lib Ark.Lib.Python Ark.Lib.Checks

variable {p : Printer} {e e' : Evidence} {targetTag : String}

/-! ## What the gate passes -/

theorem check_nil {condition : Bool} {failMsg : String} :
    check condition failMsg = [] ↔ condition = true := by
  unfold check
  cases condition with
  | true => simp
  | false => simp

/-- The evidence was committed no earlier than the source it is about. -/
def Bound (git : Git) (targetTag : String) : Prop :=
  ∃ target evidence, targetCommit git targetTag = some target ∧
    lastCommitTouching git target evidencePaths = some evidence ∧
    ∀ source, lastCommitTouching git target sourcePaths = some source →
      isAncestor git source evidence = .ok true

theorem commitBinding_passes {git : Git} :
    commitBinding git targetTag = .ok [] ↔ Bound git targetTag := by
  unfold commitBinding Bound
  cases htarget : targetCommit git targetTag with
  | none => simp
  | some target =>
    cases hevidence : lastCommitTouching git target evidencePaths with
    | none => simp [hevidence]
    | some evidence =>
      cases hsource : lastCommitTouching git target sourcePaths with
      | none => simp [hevidence, hsource]
      | some source =>
        simp only [hevidence, hsource, bind_ok, pure_ok, check_nil, exists_eq_right]
        constructor
        · intro hancestor
          refine ⟨target, evidence, rfl, hevidence, fun other hother => ?_⟩
          rw [hsource, Option.some.injEq] at hother
          rw [← hother]
          exact hancestor
        · intro h
          obtain ⟨target', evidence', htarget', hevidence', hancestor⟩ := h
          rw [Option.some.injEq] at htarget'
          rw [← htarget', hevidence, Option.some.injEq] at hevidence'
          rw [hevidence']
          exact hancestor source (htarget' ▸ hsource)

theorem markdownReports_passes : markdownReports e = .ok [] ↔
    e.day1 ≠ .missing ∧ e.day2 ≠ .missing ∧
      ∃ content, e.day3 = .text content ∧ contains "CERTIFIED PRODUCTION READY" content = true := by
  unfold markdownReports
  cases hday3 : e.day3 with
  | missing => simp [check_nil]
  | unreadable => simp
  | text content => simp [check_nil]

theorem contractCheck_passes :
    contractCheck e = .ok [] ↔ ∃ size, e.contract = some size ∧ 0 < size := by
  unfold contractCheck
  cases e.contract with
  | none => simp [check_nil]
  | some size => simp [check_nil]

/-- The artifact is a document that is null or passes its checks. -/
def Accepted (p : Printer) (e : Evidence) (name : ArtifactName) : Prop :=
  ∃ json, e.artifact name = .document json ∧
    (json.isNull = true ∨ documentChecks p name json = .ok [])

theorem artifactChecks_passes {name : ArtifactName} :
    artifactChecks p e name = .ok [] ↔ Accepted p e name := by
  unfold artifactChecks Accepted
  cases e.artifact name with
  | missing => simp [loadJson, Json.isNull]
  | unparseable exc => simp [loadJson, Json.isNull]
  | document json =>
    cases hnull : json.isNull with
    | true => simp [loadJson, hnull]
    | false => simp [loadJson, hnull]

theorem verifyGate_passes : verifyGate p e targetTag = .ok true ↔
    commitBinding e.git targetTag = .ok [] ∧ markdownReports e = .ok [] ∧
      contractCheck e = .ok [] ∧ ∀ name, Accepted p e name := by
  unfold verifyGate
  simp only [bind_ok, pure_ok, List.isEmpty_iff, List.append_eq_nil_iff]
  constructor
  · intro h
    obtain ⟨_, hbinding, _, hreports, _, hgosec, _, hsemgrep, _, hslither, _, hmempool, _, hvalidator,
      _, hbreaker, _, hrpc, _, hcontract, _, hrateLimit, _, hreboot, hempty⟩ := h
    obtain ⟨⟨⟨⟨⟨⟨⟨⟨⟨⟨⟨rfl, rfl⟩, rfl⟩, rfl⟩, rfl⟩, rfl⟩, rfl⟩, rfl⟩, rfl⟩, rfl⟩, rfl⟩, rfl⟩ := hempty
    refine ⟨hbinding, hreports, hcontract, fun name => artifactChecks_passes.mp ?_⟩
    cases name with
    | gosec => exact hgosec
    | semgrep => exact hsemgrep
    | slither => exact hslither
    | mempool => exact hmempool
    | validator => exact hvalidator
    | breaker => exact hbreaker
    | rpc => exact hrpc
    | rateLimit => exact hrateLimit
    | reboot => exact hreboot
  · intro h
    obtain ⟨hbinding, hreports, hcontract, haccepted⟩ := h
    have hartifact : ∀ name, artifactChecks p e name = .ok [] :=
      fun name => artifactChecks_passes.mpr (haccepted name)
    exact ⟨_, hbinding, _, hreports, _, hartifact _, _, hartifact _, _, hartifact _, _, hartifact _, _,
      hartifact _, _, hartifact _, _, hartifact _, _, hcontract, _, hartifact _, _, hartifact _,
      by simp⟩

/-! ## Weakening -/

/-- Deleting one key, at any depth. -/
inductive DeletesKey : Json → Json → Prop
  | here (before after : List (String × Json)) (field : String × Json) :
      DeletesKey (.obj (before ++ field :: after)) (.obj (before ++ after))
  | field (before after : List (String × Json)) (key : String) {v w : Json} (h : DeletesKey v w) :
      DeletesKey (.obj (before ++ (key, v) :: after)) (.obj (before ++ (key, w) :: after))
  | item (before after : List Json) {v w : Json} (h : DeletesKey v w) :
      DeletesKey (.arr (before ++ v :: after)) (.arr (before ++ w :: after))

def Evidence.withArtifact (e : Evidence) (name : ArtifactName) (a : Artifact) : Evidence :=
  { e with artifact := Function.update e.artifact name a }

theorem withArtifact_self {name : ArtifactName} {a : Artifact} :
    (e.withArtifact name a).artifact name = a := by
  unfold Evidence.withArtifact
  simp

theorem withArtifact_of_ne {name other : ArtifactName} {a : Artifact} (h : other ≠ name) :
    (e.withArtifact name a).artifact other = e.artifact other := by
  unfold Evidence.withArtifact
  simp [h]

/-- Deleting one file, deleting one key of one document, or replacing one document by null. -/
inductive WeakenStep : Evidence → Evidence → Prop
  | deleteFile (e : Evidence) (name : ArtifactName) : WeakenStep e (e.withArtifact name .missing)
  | deleteKey (e : Evidence) (name : ArtifactName) {v w : Json}
      (hdoc : e.artifact name = .document v) (h : DeletesKey v w) :
      WeakenStep e (e.withArtifact name (.document w))
  | replaceByNull (e : Evidence) (name : ArtifactName) {v : Json}
      (hdoc : e.artifact name = .document v) : WeakenStep e (e.withArtifact name (.document .null))

def Weakens : Evidence → Evidence → Prop := Relation.ReflTransGen WeakenStep

/-- Outside the documents nothing is wrong, and there are nine documents. -/
structure Grounded (e : Evidence) (targetTag : String) : Prop where
  bound : Bound e.git targetTag
  day1 : e.day1 ≠ .missing
  day2 : e.day2 ≠ .missing
  day3 : ∃ content, e.day3 = .text content ∧ contains "CERTIFIED PRODUCTION READY" content = true
  contract : ∃ size, e.contract = some size ∧ 0 < size
  documents : ∀ name, ∃ json, e.artifact name = .document json

theorem Grounded.of_passes (h : verifyGate p e targetTag = .ok true) : Grounded e targetTag := by
  obtain ⟨hbinding, hreports, hcontract, haccepted⟩ := verifyGate_passes.mp h
  obtain ⟨hday1, hday2, hday3⟩ := markdownReports_passes.mp hreports
  refine ⟨commitBinding_passes.mp hbinding, hday1, hday2, hday3, contractCheck_passes.mp hcontract, ?_⟩
  intro name
  obtain ⟨json, hdoc, _⟩ := haccepted name
  exact ⟨json, hdoc⟩

/-- Weakening makes no document out of what was none, and touches nothing else. -/
theorem Grounded.of_step (hstep : WeakenStep e e') (h : Grounded e' targetTag) :
    Grounded e targetTag := by
  -- every step replaces one artifact, so the eight others are documents already
  have hdocuments : ∀ {name : ArtifactName} {a : Artifact}, e' = e.withArtifact name a →
      (∀ json, a = .document json → ∃ v, e.artifact name = .document v) →
      ∀ other, ∃ json, e.artifact other = .document json := by
    intro name a he hdoc other
    obtain ⟨json, hjson⟩ := h.documents other
    rw [he] at hjson
    by_cases hother : other = name
    · subst hother
      apply hdoc json
      rw [← hjson, withArtifact_self]
    · rw [withArtifact_of_ne hother] at hjson
      exact ⟨json, hjson⟩
  cases hstep with
  | deleteFile name => exact ⟨h.bound, h.day1, h.day2, h.day3, h.contract, hdocuments rfl nofun⟩
  | deleteKey name hdoc hkey =>
    exact ⟨h.bound, h.day1, h.day2, h.day3, h.contract, hdocuments rfl fun _ _ => ⟨_, hdoc⟩⟩
  | replaceByNull name hdoc =>
    exact ⟨h.bound, h.day1, h.day2, h.day3, h.contract, hdocuments rfl fun _ _ => ⟨_, hdoc⟩⟩

theorem Grounded.of_weakens (hw : Weakens e e') (h : Grounded e' targetTag) :
    Grounded e targetTag := by
  induction hw with
  | refl => exact h
  | tail _ hstep ih => exact ih (h.of_step hstep)

/-- The same evidence with nothing in some of its documents. -/
def Evidence.nulled (e : Evidence) (names : List ArtifactName) : Evidence :=
  { e with artifact := fun name => if name ∈ names then Artifact.document .null else e.artifact name }

theorem nulled_cons {name : ArtifactName} {names : List ArtifactName} :
    e.nulled (name :: names) = (e.nulled names).withArtifact name (.document .null) := by
  unfold Evidence.nulled Evidence.withArtifact
  congr 1
  funext other
  by_cases hother : other = name
  · rw [hother, Function.update_self, if_pos List.mem_cons_self]
  · rw [Function.update_of_ne hother]
    simp [hother]

/-- One document after the other is replaced by null. -/
theorem weakens_nulled (h : ∀ name, ∃ json, e.artifact name = .document json)
    (names : List ArtifactName) : Weakens e (e.nulled names) := by
  induction names with
  | nil => exact Relation.ReflTransGen.refl
  | cons name names ih =>
    -- a name may come twice: then its document is null already
    have hdoc : ∃ v, (e.nulled names).artifact name = .document v := by
      by_cases hmem : name ∈ names
      · exact ⟨.null, if_pos hmem⟩
      · obtain ⟨v, hv⟩ := h name
        exact ⟨v, (if_neg hmem).trans hv⟩
    obtain ⟨v, hv⟩ := hdoc
    rw [nulled_cons]
    exact ih.tail (WeakenStep.replaceByNull _ name hv)

theorem mem_all (name : ArtifactName) : name ∈ ArtifactName.all := by
  cases name with
  | gosec | semgrep | slither | mempool | validator | breaker | rpc | rateLimit | reboot => decide

theorem Grounded.nulled_passes (h : Grounded e targetTag) :
    verifyGate p (e.nulled ArtifactName.all) targetTag = .ok true := by
  rw [verifyGate_passes]
  refine ⟨commitBinding_passes.mpr h.bound, ?_, contractCheck_passes.mpr h.contract, fun name => ?_⟩
  · exact markdownReports_passes.mpr ⟨h.day1, h.day2, h.day3⟩
  · exact ⟨.null, if_pos (mem_all name), .inl rfl⟩

/-- The gate fails closed on some evidence, so that it passes no weakening of it, exactly when the
evidence fails outside its documents: the commit binding, a report or the contract fails, or one of
the nine artifacts is missing or cannot be parsed. -/
theorem fails_closed_iff (p : Printer) (e : Evidence) (targetTag : String) :
    (∀ e', Weakens e e' → verifyGate p e' targetTag ≠ .ok true) ↔ ¬ Grounded e targetTag := by
  constructor
  · intro h hgrounded
    exact h _ (weakens_nulled hgrounded.documents ArtifactName.all) hgrounded.nulled_passes
  · intro h e' hw hpasses
    exact h ((Grounded.of_passes hpasses).of_weakens hw)

/-! ## A release with one finding -/

def smallPrinter : Printer := ⟨fun _ => "…", fun _ => "…"⟩

/-- One commit, for the source and the evidence. -/
def smallGit : Git where
  output _ := some "7e5c1a0f9b2d"
  mergeBase _ _ := .ok false

/-- Documents that pass their checks. -/
def soundDocument : ArtifactName → Json
  | .gosec => .obj [("Golang errors", .obj []), ("Issues", .arr [])]
  | .semgrep => .obj [("errors", .arr []), ("results", .arr [])]
  | .slither => .obj [("success", .bool true), ("error", .null), ("results", .obj [("detectors",
      .arr [.obj [("impact", .str "Low"), ("elements", .arr [.obj [("source_mapping",
        .obj [("filename_relative", .str "contracts/LaunchGuardrail.sol")])]])]])])]
  | .mempool => .obj [("successful_submits", .int 500), ("mined_txs", .int 480),
      ("blocks_tracked", .arr [.int 11, .int 12]), ("initial_base_fee", .int 7),
      ("peak_base_fee", .float (.finite (17 / 2)))]
  | .validator => .obj [("cluster_online", .bool true), ("fault_injected", .bool true),
      ("total_validators", .int 4), ("start_height", .int 20), ("end_height", .int 31),
      ("fault_blocks", .arr [.int 24]), ("fault_window_last_height", .int 28)]
  | .breaker => .obj [("executed", .bool true), ("total", .int 6), ("passed", .int 6),
      ("all_passed", .bool true)]
  | .rpc | .rateLimit => .obj [("total", .int 9), ("passed", .int 9), ("failed", .int 0),
      ("skipped", .int 0)]
  | .reboot => .obj [("executed", .bool true), ("pre_height", .int 40),
      ("pre_app_hash", .str "9F3C"), ("all_passed", .bool true)]

def soundEvidence : Evidence where
  git := smallGit
  day1 := .text ""
  day2 := .text ""
  day3 := .text "CERTIFIED PRODUCTION READY"
  contract := some 4096
  artifact name := .document (soundDocument name)

/-- A finding of high severity, in code that is not generated. -/
def findings : Json :=
  .arr [.obj [("severity", .str "HIGH"), ("file", .str "/src/ArkConstellation/app/app.go")]]

def gosecWithFindings : Json := .obj ([("Golang errors", .obj [])] ++ ("Issues", findings) :: [])

def blockedEvidence : Evidence := soundEvidence.withArtifact .gosec (.document gosecWithFindings)

/-- The finding fails the gate. With the document of the finding replaced by null, or with its list
of issues deleted, the gate passes. -/
theorem weaker_evidence_passes :
    verifyGate smallPrinter blockedEvidence "" = .ok false ∧
    (∃ e', Weakens blockedEvidence e' ∧ e'.artifact .gosec = .document .null ∧
      verifyGate smallPrinter e' "" = .ok true) ∧
    ∃ e', Weakens blockedEvidence e' ∧
      e'.artifact .gosec = .document (.obj [("Golang errors", .obj [])]) ∧
      verifyGate smallPrinter e' "" = .ok true := by
  refine ⟨by decide +kernel, ?_, ?_⟩
  · refine ⟨blockedEvidence.withArtifact .gosec (.document .null), ?_, rfl, by decide +kernel⟩
    apply Relation.ReflTransGen.single
    exact WeakenStep.replaceByNull _ .gosec withArtifact_self
  · refine ⟨blockedEvidence.withArtifact .gosec (.document (.obj [("Golang errors", .obj [])])),
      ?_, rfl, by decide +kernel⟩
    apply Relation.ReflTransGen.single
    apply WeakenStep.deleteKey _ .gosec withArtifact_self
    exact DeletesKey.here [("Golang errors", .obj [])] [] ("Issues", findings)

end Ark.ReleaseGate
