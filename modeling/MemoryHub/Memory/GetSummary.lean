import MemoryHub.Memory.CycleIsolation
import MemoryHub.Memory.SummaryRun

/-!
# Serving summaries

A caller asks for the summary of a tier: its own, that of one of its agents, or the global
one.  The latest file of the tier's folder is looked up and read.  Beside it the store holds
raw files and the summaries of other tiers; to a caller it is one current summary for each
tier.

Main results:

- Theorem `current_of_run`: in every run of summary and file writes, the folder of a tier
  ends with its current summary.
- Theorem `getSummary_refines`: in every state of such a run, a caller gets the current
  summary of the tier it asks for, unless the scan of the folder or the read fails.
-/

namespace MemoryHub
namespace Memory

open Collections Machine Synthesizer
open Prog (exec_bind wp wp_mono wp_run_bind wp_run_lift_bind)

/-! ## The message -/

/-- Which synthesized summary tier to fetch. -/
inductive SummaryScope where
  | user
  | agent
  | global
deriving DecidableEq, Repr

/-- Resolve to a target; `agent` needs an agent id. -/
def SummaryScope.target (scope : SummaryScope) (username : String) (agentId : Option Uuid) :
    Option SynthesisTarget :=
  match scope with
  | .user => some (.user username)
  | .global => some .global
  | .agent => agentId.map fun id => .agent username id.hyphenated

/-- `GetSummary`. -/
structure GetSummary where
  username : String
  agentId : Option Uuid
  scope : SummaryScope
deriving DecidableEq, Repr

/-- A synthesized summary, with its path. -/
structure Summary where
  content : String
  path : String
deriving DecidableEq, Repr

/-- The tier the message asks for. -/
def GetSummary.target (msg : GetSummary) : Option SynthesisTarget :=
  msg.scope.target msg.username msg.agentId

/-- `Handler<GetSummary>`. -/
def getSummary (msg : GetSummary) : FallibleSynthesis (Option Summary) :=
  match msg.target with
  | none => return none
  | some target => do
      match ← ExceptT.lift (getLatestSynthesisFile target) with
      | none => return none
      | some rel => do
          let content ← Synthesizer.storageRead rel
          return content.map fun content => ⟨content, rel⟩

/-- The tiers of a known user are targets of their own. -/
theorem isTarget_of_target {msg : GetSummary}
    (huser : Http.validateUsername msg.username = .ok ()) {target : SynthesisTarget}
    (h : msg.target = some target) : IsTarget target := by
  unfold GetSummary.target SummaryScope.target at h
  cases hscope : msg.scope with
  | user =>
      simp only [hscope, Option.some.injEq] at h
      rw [← h]
      exact huser
  | global =>
      simp only [hscope, Option.some.injEq] at h
      rw [← h]
      trivial
  | agent =>
      simp only [hscope, Option.map_eq_some_iff] at h
      rcases h with ⟨id, -, rfl⟩
      exact ⟨huser, id, rfl⟩

/-! ## The store over time -/

/-- A change of the store: a summary is written, or a raw file is written or deleted. -/
inductive StoreChange where
  | summary (write : SummaryWrite)
  | file (path : String) (content : Option String)

/-- The store, beside the summary each tier was given last. -/
structure SummaryTree where
  store : SummaryState
  current : SynthesisTarget → Option Summary

/-- An empty store, on no date. -/
def SummaryTree.fresh : SummaryTree :=
  ⟨⟨∅, none⟩, fun _ => none⟩

/-- One change. -/
def SummaryTree.step (maxSize : Nat) (s : SummaryTree) : StoreChange → Option SummaryTree
  | .summary a =>
      (summaryStep maxSize s.store a).map fun store =>
        ⟨store, Function.update s.current a.target
          (some ⟨a.content, a.path maxSize s.store.disk⟩)⟩
  | .file path (some content) =>
      some { s with store := { s.store with disk := s.store.disk.insert path content } }
  | .file path none =>
      some { s with store := { s.store with disk := s.store.disk.erase path } }

/-- Summaries are written for targets, whose folders are scanned to the end, the clock does not
go back, and there are fewer files of each date than numbers; files are raw ones. -/
def Orderly (s : SummaryTree) : StoreChange → Prop
  | .summary a => IsTarget a.target ∧ Advances a.target s.store a
  | .file path _ => IsRawKey path

/-! ## What the folders hold -/

section

variable {d : Disk} {target : SynthesisTarget} {path : String}

/-- A file outside a folder adds nothing to it. -/
theorem mem_namesIn_insert_of_outside (h : ¬ InFolder target path) (content : String)
    {name : String} :
    name ∈ Disk.namesIn (d.insert path content) (synthesisFolder target) ↔
      name ∈ d.namesIn (synthesisFolder target) := by
  rw [Disk.mem_namesIn, Disk.mem_namesIn, AList.mem_insert]
  constructor
  · rintro ⟨hslash, heq | hmem⟩
    · exact absurd ⟨name, hslash, heq.symm⟩ h
    · exact ⟨hslash, hmem⟩
  · rintro ⟨hslash, hmem⟩
    exact ⟨hslash, Or.inr hmem⟩

/-- Nor does deleting it take anything away. -/
theorem mem_namesIn_erase_of_outside (h : ¬ InFolder target path) {name : String} :
    name ∈ Disk.namesIn (d.erase path) (synthesisFolder target) ↔
      name ∈ d.namesIn (synthesisFolder target) := by
  rw [Disk.mem_namesIn, Disk.mem_namesIn, AList.mem_erase]
  constructor
  · rintro ⟨hslash, -, hmem⟩
    exact ⟨hslash, hmem⟩
  · rintro ⟨hslash, hmem⟩
    refine ⟨hslash, ?_, hmem⟩
    intro heq
    exact h ⟨name, hslash, heq.symm⟩

end

/-- What a folder has to do with the current summary of its tier: it holds none, or the
greatest of its names is that of the current one. -/
def Current (target : SynthesisTarget) (s : SummaryTree) : Prop :=
  (s.current target = none ∧ s.store.disk.namesIn (synthesisFolder target) = []) ∨
    ∃ date n c content, EndsWith (s.store.disk.namesIn (synthesisFolder target)) date n ∧
      s.store.clock = some c ∧ ¬ c.Before date ∧
      s.store.disk.lookup (summaryPath target (summaryName date.format n)) = some content ∧
      s.current target = some ⟨content, summaryPath target (summaryName date.format n)⟩

theorem Current.inOrder {target : SynthesisTarget} {s : SummaryTree} (h : Current target s) :
    InOrder target s.store := by
  rcases h with ⟨-, hempty⟩ | ⟨date, n, c, content, hends, hclock, hcome, -, -⟩
  · exact Or.inl hempty
  · exact Or.inr ⟨date, n, c, hends, hclock, hcome⟩

/-- A change outside the folder, by which the clock does not go back, keeps the current summary. -/
theorem Current.of_outside {target : SynthesisTarget} {s t : SummaryTree}
    (h : Current target s) (hcurrent : t.current target = s.current target)
    (hnames : ∀ name, name ∈ t.store.disk.namesIn (synthesisFolder target) ↔
      name ∈ s.store.disk.namesIn (synthesisFolder target))
    (hlookup : ∀ name : String, '/' ∉ name.toList →
      t.store.disk.lookup (summaryPath target name) =
        s.store.disk.lookup (summaryPath target name))
    (hclock : ∀ date c, s.store.clock = some c → ¬ c.Before date →
      ∃ c', t.store.clock = some c' ∧ ¬ c'.Before date) : Current target t := by
  rcases h with ⟨hnone, hempty⟩ | ⟨date, n, c, content, hends, hc, hcome, hcontent, hsome⟩
  · refine Or.inl ⟨hcurrent.trans hnone, ?_⟩
    rw [List.eq_nil_iff_forall_not_mem]
    intro name hname
    rw [hnames, hempty] at hname
    exact List.not_mem_nil hname
  · rcases hclock date c hc hcome with ⟨c', hc', hcome'⟩
    refine Or.inr ⟨date, n, c', content, ?_, hc', hcome', ?_, hcurrent.trans hsome⟩
    · refine ⟨hends.fourDigits, hends.pos, hends.le_max, ?_, ?_⟩
      · intro k hpos hk
        exact (hnames _).mpr (hends.numbered k hpos hk)
      · intro name hname
        exact hends.known name ((hnames name).mp hname)
    · rw [hlookup _ (slash_notMem_summaryName date n)]
      exact hcontent

/-- A summary goes to the folder of its target. -/
theorem SummaryWrite.inFolder_path (a : SummaryWrite) (maxSize : Nat) {s t : SummaryState}
    (horder : InOrder a.target s) (ha : Advances a.target s a)
    (h : summaryStep maxSize s a = some t) : InFolder a.target (a.path maxSize s.disk) := by
  rcases endsWith_of_write horder ha h with ⟨date, n, hpath, -, -⟩
  exact ⟨_, slash_notMem_summaryName date n, hpath⟩

/-- The summary of another tier goes to another folder. -/
theorem current_other {target : SynthesisTarget} (htarget : IsTarget target) {maxSize : Nat}
    {s : SummaryTree} (h : Current target s) {a : SummaryWrite} (ha : IsTarget a.target)
    (hadvance : Advances a.target s.store a) (horder : InOrder a.target s.store)
    (hne : target ≠ a.target) {t : SummaryState} (hstep : summaryStep maxSize s.store a = some t)
    {current : SynthesisTarget → Option Summary} (hcurrent : current target = s.current target) :
    Current target ⟨t, current⟩ := by
  have hfolder := a.inFolder_path maxSize horder hadvance hstep
  have houtside : ¬ InFolder target (a.path maxSize s.store.disk) := by
    intro hin
    exact hne (inFolder_unique htarget ha hin hfolder)
  cases hstep
  refine h.of_outside hcurrent ?_ ?_ ?_
  · intro name
    exact mem_namesIn_insert_of_outside houtside a.content
  · intro name hname
    refine AList.lookup_insert_ne ?_
    intro heq
    exact houtside ⟨name, hname, heq.symm⟩
  · intro date c hc hcome
    refine ⟨a.today, rfl, ?_⟩
    intro hbefore
    rcases NaiveDate.before_trichotomy c a.today with hlt | heq | hgt
    · exact hcome (hlt.trans hbefore)
    · exact hcome (heq ▸ hbefore)
    · exact hadvance.clock c hc hgt

/-- A change keeps every tier's folder and its current summary together. -/
theorem current_step {maxSize : Nat} {s t : SummaryTree} {change : StoreChange}
    (h : ∀ target, IsTarget target → Current target s) (horderly : Orderly s change)
    (hstep : s.step maxSize change = some t) : ∀ target, IsTarget target → Current target t := by
  intro target htarget
  cases change with
  | summary a =>
      rcases horderly with ⟨ha, hadvance⟩
      unfold SummaryTree.step at hstep
      rcases Option.map_eq_some_iff.mp hstep with ⟨store, hstore, rfl⟩
      have horder := (h a.target ha).inOrder
      by_cases hsame : target = a.target
      · subst hsame
        rcases endsWith_of_write horder hadvance hstore with ⟨date, n, hpath, hends, hcome⟩
        cases hstore
        refine Or.inr ⟨date, n, a.today, a.content, hends, rfl, hcome, ?_, ?_⟩
        · rw [← hpath]
          exact AList.lookup_insert _
        · simp only [Function.update_self, hpath]
      · exact current_other htarget (h target htarget) ha hadvance horder hsame hstore
          (Function.update_of_ne hsame _ _)
  | file path content =>
      have houtside : ¬ InFolder target path := by
        rintro ⟨name, hname, hpath⟩
        exact IsRawKey.ne_summary horderly hname target hpath
      cases content with
      | some content =>
          cases hstep
          refine (h target htarget).of_outside rfl ?_ ?_ fun _ c hc hcome => ⟨c, hc, hcome⟩
          · intro name
            exact mem_namesIn_insert_of_outside houtside content
          · intro name hname
            refine AList.lookup_insert_ne ?_
            intro heq
            exact houtside ⟨name, hname, heq.symm⟩
      | none =>
          cases hstep
          refine (h target htarget).of_outside rfl ?_ ?_ fun _ c hc hcome => ⟨c, hc, hcome⟩
          · intro name
            exact mem_namesIn_erase_of_outside houtside
          · intro name hname
            refine AList.lookup_erase_ne ?_
            intro heq
            exact houtside ⟨name, hname, heq.symm⟩

/-- In every run, the folder of each tier and its current summary belong together. -/
theorem current_of_run {maxSize : Nat} {changes : List StoreChange}
    (hmeet : StepsMeet (SummaryTree.step maxSize) Orderly .fresh changes) {s : SummaryTree}
    (hrun : run (SummaryTree.step maxSize) .fresh changes = some s) :
    ∀ target, IsTarget target → Current target s := by
  refine run_invariant_of_stepsMeet (I := fun s => ∀ target, IsTarget target → Current target s)
    ?_ ?_ hmeet hrun
  · intro s change t h horderly hstep
    exact current_step h horderly hstep
  · intro target _
    exact Or.inl ⟨rfl, rfl⟩

/-! ## What is served -/

/-- The summary is what a file in the tier's folder holds. -/
def OfTier (d : Disk) (target : SynthesisTarget) (summary : Summary) : Prop :=
  InFolder target summary.path ∧ d.lookup summary.path = some summary.content

/-- The answer to a message is the current summary of the tier; or, when the scan of its folder
has failed, nothing or some summary of the tier; or the error with which storage fails to read
after the scan. -/
inductive Answers (script : CycleScript) (s : SummaryTree) (msg : GetSummary) :
    Except MemoryError (Option Summary) → Prop where
  | current : Answers script s msg (.ok (msg.target.bind s.current))
  | scanFailed (target : SynthesisTarget) (found : Option Summary) :
      msg.target = some target → ¬ Scans script target s.store.disk →
        (∀ summary, found = some summary → OfTier s.store.disk target summary) →
          Answers script s msg (.ok found)
  | readFailed (target : SynthesisTarget) (e : MemoryError) : msg.target = some target →
      script.readFails (script.exec (getLatestSynthesisFile target) ⟨s.store.disk, []⟩).2.events =
        some e → Answers script s msg (.error e)

/-- After a scan that goes through, the path served is that of the current summary. -/
theorem Current.servedPath {target : SynthesisTarget} {s : SummaryTree} (h : Current target s)
    {script : CycleScript} (hscans : Scans script target s.store.disk) :
    servedPath script target s.store.disk = (s.current target).map Summary.path := by
  have hperm := listed_perm hscans
  rw [servedPath_eq]
  rcases h with ⟨hnone, hempty⟩ | ⟨date, n, c, content, hends, -, -, -, hsome⟩
  · rw [hempty] at hperm
    rw [hnone, latestIn, hperm.eq_nil]
    rfl
  · rcases latestIn_eq (fun _ h => hperm.subset h) (hends.isGreatest hperm) with
      ⟨content', -, hlatest⟩
    rw [hlatest, hsome]
    rfl

/-- The current summary of a tier is what a file in its folder holds. -/
theorem Current.ofTier {target : SynthesisTarget} {s : SummaryTree} (h : Current target s)
    {summary : Summary} (hsome : s.current target = some summary) :
    OfTier s.store.disk target summary := by
  rcases h with ⟨hnone, -⟩ | ⟨date, n, c, content, -, -, -, hcontent, hcurrent⟩
  · rw [hnone] at hsome
    contradiction
  · rw [hcurrent, Option.some.injEq] at hsome
    subst hsome
    exact ⟨⟨_, slash_notMem_summaryName date n, rfl⟩, hcontent⟩

/-- What is found in a folder that belongs together with its current summary is that summary,
unless the scan has failed. -/
theorem Current.answers {msg : GetSummary} {target : SynthesisTarget} {s : SummaryTree}
    (h : Current target s) (htarget : msg.target = some target) {script : CycleScript}
    {found : Option Summary}
    (hpath : Memory.servedPath script target s.store.disk = found.map Summary.path)
    (hfound : ∀ summary, found = some summary → OfTier s.store.disk target summary) :
    Answers script s msg (.ok found) := by
  by_cases hscans : Scans script target s.store.disk
  · have hsame := h.servedPath hscans
    rw [hpath] at hsame
    have hcurrent : found = msg.target.bind s.current := by
      rw [htarget, Option.bind_some]
      cases hcurrent : s.current target with
      | none =>
          rw [hcurrent, Option.map_none] at hsame
          exact Option.map_eq_none_iff.mp hsame
      | some summary =>
          rw [hcurrent, Option.map_some] at hsame
          rcases Option.map_eq_some_iff.mp hsame with ⟨file, hfile, hsamePath⟩
          have hcontent := (hfound file hfile).2
          rw [hsamePath, (h.ofTier hcurrent).2, Option.some.injEq] at hcontent
          rw [hfile]
          exact congrArg some (by
            cases file
            cases summary
            simp_all)
    rw [hcurrent]
    exact .current
  · exact .scanFailed target found htarget hscans hfound

/-- The latest file is looked up, and the disk stays as it is. -/
theorem getLatestSynthesisFile_served (script : CycleScript) (target : SynthesisTarget)
    (d : Disk) :
    wp script.handle (getLatestSynthesisFile target) (fun latest t =>
      latest = servedPath script target d ∧ t.disk = d ∧
        t = (script.exec (getLatestSynthesisFile target) ⟨d, []⟩).2) ⟨d, []⟩ := by
  rcases findLatest_exec script (synthesisFolder target) ⟨d, []⟩ with ⟨events, hexec⟩
  refine ⟨rfl, ?_, rfl⟩
  unfold getLatestSynthesisFile
  rw [exec_bind]
  unfold CycleScript.exec at hexec
  rw [hexec]
  rfl

/-- Where the folder of a tier and its current summary belong together, a message is answered
so, however the folder is listed and whatever fails. -/
theorem Current.served {msg : GetSummary} {target : SynthesisTarget} {s : SummaryTree}
    (h : Current target s) (htarget : msg.target = some target) (script : CycleScript) :
    Answers script s msg (script.exec (getSummary msg).run ⟨s.store.disk, []⟩).1 := by
  change wp script.handle (getSummary msg).run (fun reply _ => Answers script s msg reply)
    ⟨s.store.disk, []⟩
  unfold getSummary
  simp only [htarget]
  apply wp_run_lift_bind
  apply wp_mono (getLatestSynthesisFile_served script target s.store.disk)
  rintro latest t ⟨rfl, hdisk, hscanned⟩
  cases hserved : Memory.servedPath script target s.store.disk with
  | none => exact h.answers htarget hserved (by simp)
  | some path =>
      rw [servedPath_eq, Option.map_eq_some_iff] at hserved
      rcases hserved with ⟨file, hfile, rfl⟩
      rcases latestIn_inFolder hfile with ⟨hfolder, content, hcontent⟩
      apply wp_run_bind
      cases hfails : script.readFails t.events with
      | some e =>
          have hread : (Prog.exec script.handle (Synthesizer.storageRead
              (summaryPath target file.1)).run t).1 = .error e := by
            change (script.respond t (.storageRead _)).1 = .error e
            simp only [CycleScript.respond, hfails]
          unfold wp
          rw [hread]
          refine ⟨fun a ha => absurd ha (by simp), ?_⟩
          rintro e' ⟨⟩
          rw [hscanned] at hfails
          exact .readFailed target e htarget hfails
      | none =>
          have hread : (Prog.exec script.handle (Synthesizer.storageRead
              (summaryPath target file.1)).run t).1 = .ok (some content) := by
            change (script.respond t (.storageRead _)).1 = .ok (some content)
            simp only [CycleScript.respond, hfails, hdisk, hcontent]
          unfold wp
          rw [hread]
          refine ⟨?_, fun e' he => absurd he (by simp)⟩
          rintro a ⟨⟩
          refine h.answers htarget (by rw [servedPath_eq, hfile]; rfl) ?_
          rintro summary ⟨⟩
          exact ⟨hfolder, hcontent⟩

/-- In every run of summary and file writes, a known user is served the summary the tier was given
last, and nothing where it was given none or no agent is named; unless the scan of the folder or
the read fails. -/
theorem getSummary_refines {maxSize : Nat} {changes : List StoreChange}
    (hmeet : StepsMeet (SummaryTree.step maxSize) Orderly .fresh changes) {s : SummaryTree}
    (hrun : run (SummaryTree.step maxSize) .fresh changes = some s) {msg : GetSummary}
    (huser : Http.validateUsername msg.username = .ok ()) (script : CycleScript) :
    Answers script s msg (script.exec (getSummary msg).run ⟨s.store.disk, []⟩).1 := by
  cases htarget : msg.target with
  | none =>
      have hcurrent : Answers script s msg (.ok (msg.target.bind s.current)) := .current
      rw [htarget] at hcurrent
      unfold getSummary
      rw [htarget]
      exact hcurrent
  | some target =>
      exact (current_of_run hmeet hrun target (isTarget_of_target huser htarget)).served htarget
        script

/-- A summary of alice of one byte, then a note of hers. -/
def sampleChanges : List StoreChange :=
  [.summary ⟨.user "alice", may19, "x", .quiet may19 fun _ => ""⟩,
    .file (rawPath "alice" .nil "_default" "a.md") (some "y")]

theorem getSummary_refines_sample :
    ∃ s, run (SummaryTree.step 1) .fresh sampleChanges = some s ∧
      Answers (.quiet may20 fun _ => "") s ⟨"alice", none, .user⟩
        ((CycleScript.quiet may20 fun _ => "").exec
          (getSummary ⟨"alice", none, .user⟩).run ⟨s.store.disk, []⟩).1 := by
  have huser : Http.validateUsername "alice" = .ok () := by decide
  have hmeet : StepsMeet (SummaryTree.step 1) Orderly .fresh sampleChanges := by
    intro s _
    refine ⟨⟨huser, rfl, ⟨rfl, rfl⟩, by decide, ?_, fewFiles_of_length (by decide +kernel)⟩, ?_⟩
    · intro date hdate
      cases hdate
    · intro t _
      exact ⟨⟨"alice", .nil, none, "a.md", rfl⟩, trivial⟩
  refine ⟨_, rfl, ?_⟩
  exact @getSummary_refines 1 sampleChanges hmeet _ rfl ⟨"alice", none, .user⟩ huser _

end Memory
end MemoryHub
