import Ark.ReleaseGate.Weakening
import Ark.Lib.Steps

/- Releases over the life of a repository (`scripts/release/tag-release.sh`).

   A branch grows by commits, others make tags, and the script tags what is checked out when
   the gate passes. Git is not this repository's code. `Answers` says what it prints for a
   branch without merges: which commit a name is, which commit touched some paths last, and
   which of two commits is older.

   There the commit binding is exact (`bound_iff`): evidence was committed no earlier than
   the last change of the source (`Fresh`). So over any run a release is cut on fresh
   evidence, and never on the evidence of a release before it if the source has changed
   since (`released_on_fresh_evidence`).

   The script asks the gate about the name of the tag. Where the name is that of another
   branch, the gate looks at the commits of that branch, while the tag is put on what is
   checked out (`released_stale`).

   Where there is an origin its tags are fetched first, and a fetch that fails ends the script
   (`set -e`); what it fetches is a move of its own.

   Correspondence (shell ↔ Lean):
     `git fetch origin --tags`                        ↔ `Move.fetch`, `Repository.fetches`
     `refs/tags/$TAG_NAME`                            ↔ `Repository.tags`
     `verify-eng3-signoff.py "$TAG_NAME"`             ↔ `verifyGate`, in `releases`
     `git tag -a "$TAG_NAME"`, where it is accepted   ↔ `Step.tagRelease` -/
namespace Ark.ReleaseGate
open Ark.Lib Ark.Lib.Python Ark.Lib.Checks

/-! ## The repository -/

structure Commit where
  id : String
  /-- It changes a path that the pathspec matches. -/
  touches : String → Bool

def Commit.touchesAny (c : Commit) (paths : List String) : Bool := paths.any c.touches

structure Repository where
  /-- The branch that is checked out, newest commit first. -/
  log : List Commit
  /-- What a name is besides the name of a tag: a branch, the beginning of an id. -/
  refs : String → Option String
  tags : List (String × String)
  /-- There is no origin, or its tags can be fetched. -/
  fetches : Bool
  evidence : Evidence

/-- Git answers as it does where the branch has no merges. -/
structure Answers (r : Repository) : Prop where
  head : resolveCommit r.evidence.git "HEAD" = r.log.head?.map Commit.id
  ref : ∀ name, r.tags.lookup name = none → resolveCommit r.evidence.git name = r.refs name
  lastTouching : ∀ c older paths, r.log = c :: older →
    lastCommitTouching r.evidence.git c.id paths =
      (r.log.find? fun c => c.touchesAny paths).map Commit.id
  ancestor : ∀ newer c between d older, r.log = newer ++ c :: (between ++ d :: older) →
    r.evidence.git.mergeBase d.id c.id = .ok true ∧ r.evidence.git.mergeBase c.id d.id = .ok false
  ids : (r.log.map Commit.id).Nodup

/-- `tag-release.sh` comes to `git tag`. -/
def releases (p : Printer) (r : Repository) (name : String) : Bool :=
  if name = "" then false
  else if r.fetches = false then false
  else if (r.tags.lookup name).isSome then false
  else
    match verifyGate p r.evidence name with
    | .ok passed => passed
    | .error _ => false

/-- What happens to a repository. -/
inductive Move where
  | commit (c : Commit)
  /-- Tags that others made are fetched. -/
  | fetch
  | tagRelease (name : String)

/-- One move; the files in the checkout and the other branches may change with it. -/
inductive Step (p : Printer) : Repository → Move → Repository → Prop where
  | commit {r r' : Repository} {c : Commit} :
    r'.log = c :: r.log → r'.tags = r.tags → Step p r (.commit c) r'
  | fetch {r r' : Repository} :
    r'.log = r.log →
    (∀ name id, r.tags.lookup name = some id → r'.tags.lookup name = some id) → Step p r .fetch r'
  | tagRelease {r r' : Repository} {name : String} {c : Commit} {older : List Commit} :
    Answers r → releases p r name = true → r.log = c :: older →
    r'.log = r.log → r'.tags = (name, c.id) :: r.tags → Step p r (.tagRelease name) r'

/-- The commits among some moves, newest first. -/
def commits (moves : List Move) : List Commit :=
  (moves.filterMap fun
    | .commit c => some c
    | _ => none).reverse

/-- Evidence was committed, and no source after it. -/
def Fresh (log : List Commit) : Prop :=
  ∃ newer c older, log = newer ++ c :: older ∧ c.touchesAny evidencePaths = true ∧
    ∀ d ∈ newer, d.touchesAny sourcePaths = false

/-- What the gate checks besides the commits. -/
def FilesPass (p : Printer) (e : Evidence) : Prop :=
  markdownReports e = .ok [] ∧ contractCheck e = .ok [] ∧ ∀ name, Accepted p e name

variable {p : Printer} {r r' : Repository} {name : String} {log : List Commit}

/-! ## Commits in a log -/

/-- Two commits of one log: the same, or one is newer. -/
theorem two_splits {newer older newer' older' : List Commit} {c d : Commit}
    (h : newer ++ c :: older = newer' ++ d :: older') :
    (c = d ∧ newer = newer') ∨
      (∃ between, newer' = newer ++ c :: between ∧ older = between ++ d :: older') ∨
      ∃ between, newer = newer' ++ d :: between ∧ older' = between ++ c :: older := by
  rcases List.append_eq_append_iff.mp h with ⟨between, hnewer, hrest⟩ | ⟨between, hnewer, hrest⟩
  · cases between with
    | nil => exact .inl ⟨(List.cons.inj hrest).1, by rw [hnewer, List.append_nil]⟩
    | cons x between =>
      obtain ⟨hx, holder⟩ := List.cons.inj hrest
      exact .inr (.inl ⟨between, hx ▸ hnewer, holder⟩)
  · cases between with
    | nil => exact .inl ⟨(List.cons.inj hrest).1.symm, by rw [hnewer, List.append_nil]⟩
    | cons x between =>
      obtain ⟨hx, holder⟩ := List.cons.inj hrest
      exact .inr (.inr ⟨between, hx ▸ hnewer, holder⟩)

theorem ids_ne {newer older : List Commit} {c d : Commit}
    (h : ((newer ++ older).map Commit.id).Nodup) (hd : d ∈ newer) (hc : c ∈ older) :
    d.id ≠ c.id := by
  rw [List.map_append] at h
  intro heq
  have hdisjoint := (List.nodup_append'.mp h).2.2
  exact hdisjoint (List.mem_map.mpr ⟨d, hd, heq⟩) (List.mem_map.mpr ⟨c, hc, rfl⟩)

theorem find?_split {P : Commit → Bool} {c : Commit} (h : log.find? P = some c) :
    ∃ newer older, log = newer ++ c :: older ∧ P c = true ∧ ∀ d ∈ newer, P d = false := by
  obtain ⟨hc, newer, older, hlog, hnewer⟩ := List.find?_eq_some_iff_append.mp h
  exact ⟨newer, older, hlog, hc, fun d hd => by simpa using hnewer d hd⟩

/-- The newest evidence is as good as any. -/
theorem Fresh.newest (h : Fresh log) :
    ∃ newer c older, log.find? (·.touchesAny evidencePaths) = some c ∧
      log = newer ++ c :: older ∧ ∀ d ∈ newer, d.touchesAny sourcePaths = false := by
  obtain ⟨newer, c, older, hlog, hc, hnewer⟩ := h
  cases hfind : log.find? (·.touchesAny evidencePaths) with
  | none =>
    have hnone := List.find?_eq_none.mp hfind c (hlog ▸ by simp)
    exact absurd hc hnone
  | some e =>
    obtain ⟨newer', older', hlog', _, hnewer'⟩ := find?_split hfind
    refine ⟨newer', e, older', rfl, hlog', ?_⟩
    rcases two_splits (hlog.symm.trans hlog') with ⟨_, hsame⟩ | ⟨m, hm, _⟩ | ⟨m, hm, _⟩
    · exact hsame ▸ hnewer
    · rw [hnewer' c (hm ▸ List.mem_append_right _ List.mem_cons_self)] at hc
      cases hc
    · intro x hx
      exact hnewer x (hm ▸ List.mem_append_left _ hx)

/-- Where the source has changed lately, the evidence is as late. -/
theorem Fresh.of_append {newer older : List Commit} (h : Fresh (newer ++ older))
    (hsource : ∃ d ∈ newer, d.touchesAny sourcePaths = true) : Fresh newer := by
  obtain ⟨after, c, before, hlog, hc, hafter⟩ := h
  obtain ⟨d, hd, htouches⟩ := hsource
  have hnot : d ∉ after := by
    intro hmem
    rw [hafter d hmem] at htouches
    cases htouches
  rcases List.append_eq_append_iff.mp hlog with ⟨rest, hall, _⟩ | ⟨rest, hall, hrest⟩
  · exact absurd (hall ▸ List.mem_append_left rest hd) hnot
  · cases rest with
    | nil =>
      rw [List.append_nil] at hall
      exact absurd (hall ▸ hd) hnot
    | cons x rest =>
      obtain ⟨hx, _⟩ := List.cons.inj hrest
      exact ⟨after, c, rest, hx ▸ hall, hc, hafter⟩

/-! ## The commit binding -/

theorem targetCommit_new (hr : Answers r) (hnew : r.tags.lookup name = none)
    (href : r.refs name = none) :
    targetCommit r.evidence.git name = r.log.head?.map Commit.id := by
  unfold targetCommit
  rw [hr.head, hr.ref name hnew, href]
  split <;> rfl

/-- Of two commits that `git log` found, git says which is older. -/
theorem isAncestor_iff (hr : Answers r) {newer older newer' older' : List Commit} {c d : Commit}
    (hc : r.log = newer ++ c :: older) (hd : r.log = newer' ++ d :: older') :
    isAncestor r.evidence.git d.id c.id = .ok true ↔ d ∉ newer := by
  have hids := hr.ids
  rw [hc] at hids
  have hnot : d ∈ c :: older → d ∉ newer := fun hold hmem => ids_ne hids hmem hold rfl
  unfold isAncestor
  rcases two_splits (hc.symm.trans hd) with ⟨heq, _⟩ | ⟨between, _, holder⟩ |
      ⟨between, hnewer, holder⟩
  · rw [if_pos (congrArg Commit.id heq.symm)]
    exact iff_of_true rfl (hnot (heq ▸ List.mem_cons_self))
  · -- the evidence is newer
    have hancestor := (hr.ancestor newer c between d older' (holder ▸ hc)).1
    have hold : d ∈ c :: older := by
      rw [holder]
      simp
    split
    · exact iff_of_true rfl (hnot hold)
    · exact iff_of_true hancestor (hnot hold)
  · -- the source is newer
    have hancestor := (hr.ancestor newer' d between c older (holder ▸ hd)).2
    have hmem : d ∈ newer := by
      rw [hnewer]
      exact List.mem_append_right _ List.mem_cons_self
    rw [if_neg (ids_ne hids hmem List.mem_cons_self), hancestor]
    exact iff_of_false (by simp) (fun hnone => hnone hmem)

/-- **The commit binding is exact** on a branch without merges. -/
theorem bound_iff (hr : Answers r) (hnew : r.tags.lookup name = none)
    (href : r.refs name = none) : Bound r.evidence.git name ↔ Fresh r.log := by
  unfold Bound
  rw [targetCommit_new hr hnew href]
  cases hlog : r.log with
  | nil =>
    constructor
    · intro h
      obtain ⟨_, _, htarget, _⟩ := h
      cases htarget
    · intro h
      obtain ⟨newer, c, older, hsplit, _⟩ := h
      exact absurd hsplit (by simp)
  | cons head rest =>
    rw [← hlog]
    have hlast := fun paths => hr.lastTouching head rest paths hlog
    constructor
    · intro h
      obtain ⟨target, evidence, htarget, hevidence, hancestor⟩ := h
      rw [hlog] at htarget
      cases htarget
      rw [hlast] at hevidence
      obtain ⟨c, hc, rfl⟩ := Option.map_eq_some_iff.mp hevidence
      obtain ⟨newer, older, hsplit, htouches, _⟩ := find?_split hc
      refine ⟨newer, c, older, hsplit, htouches, ?_⟩
      cases hsource : r.log.find? (·.touchesAny sourcePaths) with
      | none =>
        intro d hd
        have hnone := List.find?_eq_none.mp hsource d (hsplit ▸ List.mem_append_left _ hd)
        simpa using hnone
      | some d =>
        obtain ⟨newer', older', hsplit', _, hnewer'⟩ := find?_split hsource
        have hnot := (isAncestor_iff hr hsplit hsplit').mp
          (hancestor d.id (by rw [hlast, hsource]; rfl))
        rcases two_splits (hsplit.symm.trans hsplit') with ⟨_, hm⟩ | ⟨m, hm, _⟩ | ⟨m, hm, _⟩
        · exact hm ▸ hnewer'
        · intro x hx
          exact hnewer' x (hm ▸ List.mem_append_left _ hx)
        · exact absurd (hm ▸ List.mem_append_right _ List.mem_cons_self) hnot
    · intro h
      obtain ⟨newer, c, older, hevidence, hsplit, hnewer⟩ := h.newest
      refine ⟨head.id, c.id, by rw [hlog]; rfl, by rw [hlast, hevidence]; rfl, ?_⟩
      intro source hsource
      rw [hlast] at hsource
      obtain ⟨d, hd, rfl⟩ := Option.map_eq_some_iff.mp hsource
      obtain ⟨_, _, hsplit', htouches, _⟩ := find?_split hd
      apply (isAncestor_iff hr hsplit hsplit').mpr
      intro hmem
      rw [hnewer d hmem] at htouches
      cases htouches

/-! ## Runs -/

theorem releases_eq_true : releases p r name = true ↔ name ≠ "" ∧ r.fetches = true ∧
    r.tags.lookup name = none ∧ verifyGate p r.evidence name = .ok true := by
  unfold releases
  by_cases hname : name = ""
  · simp [hname]
  · rw [if_neg hname]
    cases r.fetches with
    | false => simp
    | true =>
      cases r.tags.lookup name with
      | some id => simp
      | none =>
        cases verifyGate p r.evidence name with
        | error e => simp
        | ok passed => simp [hname]

/-- When the script tags. -/
theorem releases_iff (hr : Answers r) (href : r.refs name = none) :
    releases p r name = true ↔ name ≠ "" ∧ r.fetches = true ∧ r.tags.lookup name = none ∧
      Fresh r.log ∧ FilesPass p r.evidence := by
  rw [releases_eq_true]
  constructor
  · intro h
    obtain ⟨hname, hfetch, hnew, hgate⟩ := h
    obtain ⟨hbinding, hfiles⟩ := verifyGate_passes.mp hgate
    have hfresh := (bound_iff hr hnew href).mp (commitBinding_passes.mp hbinding)
    exact ⟨hname, hfetch, hnew, hfresh, hfiles⟩
  · intro h
    obtain ⟨hname, hfetch, hnew, hfresh, hfiles⟩ := h
    have hbinding := commitBinding_passes.mpr ((bound_iff hr hnew href).mpr hfresh)
    exact ⟨hname, hfetch, hnew, verifyGate_passes.mpr ⟨hbinding, hfiles⟩⟩

theorem commits_append (L M : List Move) : commits (L ++ M) = commits M ++ commits L := by
  unfold commits
  rw [List.filterMap_append, List.reverse_append]

/-- The branch has the commits of the run on top. -/
theorem log_of_run {L : List Move} (h : Steps (Step p) r L r') : r'.log = commits L ++ r.log := by
  induction h with
  | nil s => rfl
  | @cons s u t m L hm _ ih =>
    rw [ih, ← List.singleton_append, commits_append, List.append_assoc]
    congr 1
    cases hm with
    | commit hlog _ => exact hlog
    | fetch hlog _ => exact hlog
    | tagRelease _ _ _ hlog _ => exact hlog

/-- A tag stays where it is. -/
theorem tag_kept {L : List Move} (h : Steps (Step p) r L r') {id : String}
    (htag : r.tags.lookup name = some id) : r'.tags.lookup name = some id := by
  apply Steps.invariant (fun s => s.tags.lookup name = some id) ?_ h htag
  intro s m t _ hs hm
  cases hm with
  | commit _ htags => rwa [htags]
  | fetch _ hkept => exact hkept name id hs
  | @tagRelease _ other _ _ _ hreleases _ _ htags =>
    have hne : name ≠ other := by
      intro heq
      rw [heq, (releases_eq_true.mp hreleases).2.2.1] at hs
      cases hs
    rw [htags, List.lookup_cons, beq_false_of_ne hne]
    exact hs

/-- **Releases are cut on fresh evidence.** Where it can fetch, the script tags exactly where the
files pass and evidence was committed no earlier than the source. So in every run a release is on the commit that
was checked out, for good, and was cut on fresh evidence; and if the source has changed since some
moment before, the release before it say, then the evidence has too, no earlier. -/
theorem released_on_fresh_evidence {L : List Move} (h : Steps (Step p) r L r') :
    (∀ name, Answers r' → r'.refs name = none → (releases p r' name = true ↔
      name ≠ "" ∧ r'.fetches = true ∧ r'.tags.lookup name = none ∧ Fresh r'.log ∧
        FilesPass p r'.evidence)) ∧
    ∀ earlier recent name later, L = earlier ++ (recent ++ .tagRelease name :: later) →
      ∃ s s' c, Steps (Step p) r (earlier ++ recent) s ∧ Step p s (.tagRelease name) s' ∧
        Steps (Step p) s' later r' ∧ s.log = commits (earlier ++ recent) ++ r.log ∧
        s.log.head? = some c ∧ r'.tags.lookup name = some c.id ∧
        (s.refs name = none → FilesPass p s.evidence ∧ Fresh s.log ∧
          ((∃ d ∈ commits recent, d.touchesAny sourcePaths = true) → Fresh (commits recent))) := by
  refine ⟨fun name hr href => releases_iff hr href, ?_⟩
  intro earlier recent name later heq
  rw [heq, ← List.append_assoc] at h
  obtain ⟨s, s', hbefore, htag, hafter⟩ := h.split_at
  have hlog := log_of_run hbefore
  cases htag with
  | @tagRelease _ _ c older hr hreleases hhead hkept htags =>
    have hfound : s'.tags.lookup name = some c.id := by
      rw [htags, List.lookup_cons, beq_self_eq_true]
    refine ⟨s, s', c, hbefore, .tagRelease hr hreleases hhead hkept htags, hafter, hlog, ?_,
      tag_kept hafter hfound, ?_⟩
    · rw [hhead]
      rfl
    · intro href
      obtain ⟨_, _, _, hfresh, hfiles⟩ := (releases_iff hr href).mp hreleases
      refine ⟨hfiles, hfresh, fun hsource => ?_⟩
      rw [hlog, commits_append, List.append_assoc] at hfresh
      exact hfresh.of_append hsource

/-! ## A branch and its git -/

/-- Git on a branch without merges, with other branches by the names of their heads. -/
def linearGit (log : List Commit) (branches : List (String × String)) : Git where
  output
    | ["rev-parse", "--verify", "--quiet", ref] =>
      if ref = "HEAD^\x7bcommit\x7d" then log.head?.map Commit.id
      else (branches.find? fun branch => branch.1 ++ "^\x7bcommit\x7d" = ref).map Prod.snd
    | "log" :: "-1" :: "--format=%H" :: commit :: "--" :: paths =>
      ((log.dropWhile fun c => c.id ≠ commit).find? fun c => c.touchesAny paths).map Commit.id
    | _ => none
  mergeBase older newer :=
    .ok (((log.dropWhile fun c => c.id ≠ newer).map Commit.id).contains older)

def onBranch (log : List Commit) (branches tags : List (String × String)) : Repository where
  log := log
  refs := resolveCommit (linearGit log branches)
  tags := tags
  fetches := true
  evidence := { soundEvidence with git := linearGit log branches }

theorem dropWhile_to {newer older : List Commit} {c : Commit}
    (h : ((newer ++ c :: older).map Commit.id).Nodup) :
    (newer ++ c :: older).dropWhile (fun d => d.id ≠ c.id) = c :: older := by
  rw [List.dropWhile_append_of_pos, List.dropWhile_cons_of_neg (by simp)]
  intro d hd
  simpa using ids_ne h hd List.mem_cons_self

theorem onBranch_answers {log : List Commit} {branches tags : List (String × String)}
    (hids : (log.map Commit.id).Nodup) : Answers (onBranch log branches tags) where
  head := by
    show resolveCommit (linearGit log branches) "HEAD" = log.head?.map Commit.id
    unfold resolveCommit linearGit
    simp only
    rw [if_pos (by decide)]
  ref _ _ := rfl
  lastTouching c older paths hlog := by
    have hlog : log = c :: older := hlog
    show lastCommitTouching (linearGit log branches) c.id paths =
      (log.find? fun c => c.touchesAny paths).map Commit.id
    have hdrop : log.dropWhile (fun d => d.id ≠ c.id) = log := by
      rw [hlog, List.dropWhile_cons_of_neg (by simp)]
    unfold lastCommitTouching linearGit
    simp only [List.cons_append, List.nil_append, hdrop]
  ancestor newer c between d older hlog := by
    have hlog : log = newer ++ c :: (between ++ d :: older) := hlog
    have hsplit : log = (newer ++ c :: between) ++ d :: older := by
      rw [hlog, List.append_assoc, List.cons_append]
    have hdown : log.dropWhile (fun x => x.id ≠ c.id) = c :: (between ++ d :: older) := by
      rw [hlog]
      exact dropWhile_to (hlog ▸ hids)
    have hup : log.dropWhile (fun x => x.id ≠ d.id) = d :: older := by
      rw [hsplit]
      exact dropWhile_to (hsplit ▸ hids)
    have hnot : c.id ∉ (d :: older).map Commit.id := by
      intro hmem
      obtain ⟨x, hx, heq⟩ := List.mem_map.mp hmem
      exact ids_ne (hsplit ▸ hids) (by simp) hx heq.symm
    show (linearGit log branches).mergeBase d.id c.id = _ ∧
      (linearGit log branches).mergeBase c.id d.id = _
    unfold linearGit
    simp only [hdown, hup]
    refine ⟨?_, ?_⟩
    · simp
    · simpa using hnot
  ids := hids

def sourceCommit : Commit := ⟨"4f2b9a71c0de", fun path => path = "app/ante"⟩

def evidenceCommit : Commit := ⟨"9c81d3e5b207", fun path => path = "scripts/chaos/reports"⟩

/-- The source, the evidence, and a release. -/
theorem evidence_released :
    ∃ r', Steps (Step smallPrinter) (onBranch [] [] [])
        [.commit sourceCommit, .commit evidenceCommit, .tagRelease "ark-v1.0.0"] r' ∧
      r'.tags.lookup "ark-v1.0.0" = some evidenceCommit.id ∧ Fresh r'.log := by
  let r' := onBranch [evidenceCommit, sourceCommit] [] [("ark-v1.0.0", evidenceCommit.id)]
  have hsource : Step smallPrinter (onBranch [] [] []) (.commit sourceCommit)
      (onBranch [sourceCommit] [] []) := .commit rfl rfl
  have hevidence : Step smallPrinter (onBranch [sourceCommit] [] []) (.commit evidenceCommit)
      (onBranch [evidenceCommit, sourceCommit] [] []) := .commit rfl rfl
  have htag : Step smallPrinter (onBranch [evidenceCommit, sourceCommit] [] [])
      (.tagRelease "ark-v1.0.0") r' :=
    .tagRelease (onBranch_answers (by decide)) (by decide +kernel) rfl rfl rfl
  have hrun := Steps.cons hsource (.cons hevidence (.cons htag (.nil r')))
  obtain ⟨hexact, hreleases⟩ := released_on_fresh_evidence hrun
  obtain ⟨s, _, c, _, _, _, hlog, hhead, hfound, _⟩ :=
    hreleases [] [.commit sourceCommit, .commit evidenceCommit] "ark-v1.0.0" [] rfl
  rw [hlog] at hhead
  cases hhead
  -- it could be tagged again, under another name
  have hagain : releases smallPrinter r' "ark-v1.1.0" = true := by decide +kernel
  obtain ⟨_, _, _, hfresh, _⟩ :=
    (hexact "ark-v1.1.0" (onBranch_answers (by decide)) rfl).mp hagain
  exact ⟨r', hrun, hfound, hfresh⟩

/-- A release with the name of another branch, on which nothing has changed since the evidence. -/
theorem released_stale :
    ∃ r r', Answers r ∧ Step smallPrinter r (.tagRelease "ark-v1.0.0") r' ∧ ¬ Fresh r.log := by
  have hanswers : Answers
      (onBranch [sourceCommit, evidenceCommit] [("ark-v1.0.0", evidenceCommit.id)] []) :=
    onBranch_answers (by decide)
  have htag : Step smallPrinter
      (onBranch [sourceCommit, evidenceCommit] [("ark-v1.0.0", evidenceCommit.id)] [])
      (.tagRelease "ark-v1.0.0")
      (onBranch [sourceCommit, evidenceCommit] [("ark-v1.0.0", evidenceCommit.id)]
        [("ark-v1.0.0", sourceCommit.id)]) :=
    .tagRelease hanswers (by decide +kernel) rfl rfl rfl
  refine ⟨_, _, hanswers, htag, ?_⟩
  intro h
  obtain ⟨newer, c, older, hlog, hc, hnewer⟩ := h
  cases newer with
  | nil =>
    obtain ⟨rfl, _⟩ := List.cons.inj hlog
    exact absurd hc (by decide)
  | cons d newer =>
    obtain ⟨rfl, _⟩ := List.cons.inj hlog
    exact absurd (hnewer _ List.mem_cons_self) (by decide)

end Ark.ReleaseGate
