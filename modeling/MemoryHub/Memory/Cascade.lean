import MemoryHub.Lib.Machine
import MemoryHub.Memory.Cycle

/-!
# What becomes of a change

A cycle takes all pending changes, and whatever fails in it is logged and skipped.  A part that
succeeds has had all its files as sources, and the next tier is given exactly the targets whose
parts have succeeded in the same cycle.  Nothing is kept for a later one.

Main results:

- Theorem `agentPart_ok`: an agent's part that succeeds has folded in all its files.
- Theorem `tick_accounts`: what a tick does with the changes it takes, whatever fails.
- Theorem `changes_accounted`: what becomes of the changes notified in a run.
-/

namespace MemoryHub
namespace Memory

open Collections Machine Prog

namespace Synthesizer

/-! ## Parts that succeed -/

/-- A synthesis for the target that had the file as a source, or listed it as deleted, has been
answered. -/
def FoldedIn (target : SynthesisTarget) (file : String)
    (exchanges : List (Σ c : SynthesizerCall, c.Response)) : Prop :=
  ∃ prior sources reply, ⟨.synthesize target prior sources, .ok reply⟩ ∈ exchanges ∧
    ((∃ content, ⟨file, content⟩ ∈ sources) ∨
      ∃ deleted, file ∈ deleted ∧ deletedSources deleted ∈ sources)

section

variable {σ : Type} {handle : (c : SynthesizerCall) → σ → c.Response × σ} {config : MemoryConfig}

/-- Each file read is a source or deleted. -/
theorem readChanged_ok {files deleted deleted' : List String} {sources sources' : List SourceDoc}
    {s t : σ}
    (h : Prog.exec handle (readChanged files sources deleted).run s =
      (.ok (sources', deleted'), t)) :
    (∀ doc ∈ sources, doc ∈ sources') ∧ (∀ file ∈ deleted, file ∈ deleted') ∧
      ∀ file ∈ files, (∃ content, ⟨file, content⟩ ∈ sources') ∨ file ∈ deleted' := by
  induction files generalizing sources deleted s with
  | nil =>
      rcases Prod.mk.inj (Except.ok.inj (congrArg Prod.fst h)) with ⟨rfl, rfl⟩
      exact ⟨fun _ hdoc => hdoc, fun _ hfile => hfile, fun _ hfile => absurd hfile (by simp)⟩
  | cons file files ih =>
      rcases exec_run_bind_ok h with ⟨content, u, -, hrest, -⟩
      cases content with
      | none =>
          rcases ih hrest with ⟨hsources, hdeleted, hfiles⟩
          refine ⟨hsources, fun f hf => hdeleted f (List.mem_append_left _ hf), ?_⟩
          intro f hf
          rcases List.mem_cons.mp hf with rfl | hf
          · exact Or.inr (hdeleted f (by simp))
          · exact hfiles f hf
      | some content =>
          rcases ih hrest with ⟨hsources, hdeleted, hfiles⟩
          refine ⟨fun doc hdoc => hsources doc (List.mem_append_left _ hdoc), hdeleted, ?_⟩
          intro f hf
          rcases List.mem_cons.mp hf with rfl | hf
          · exact Or.inl ⟨content, hsources _ (by simp)⟩
          · exact hfiles f hf

/-- Sources are folded in only with an answer from the language model. -/
theorem foldSources_ok {target : SynthesisTarget} {sources : List SourceDoc} {s t : σ}
    (h : Prog.exec handle (foldSources config target sources).run s = (.ok (), t)) :
    ∃ prior reply, ⟨.synthesize target prior sources, .ok reply⟩ ∈
      Prog.trace handle (foldSources config target sources).run s := by
  rcases exec_run_bind_ok h with ⟨prior, u, -, hrest, htrace⟩
  rcases exec_run_bind_ok hrest with ⟨reply, v, hreply, -, htrace'⟩
  refine ⟨prior, reply, ?_⟩
  have hanswer : (handle (.synthesize target prior sources) u).1 = .ok reply :=
    congrArg Prod.fst hreply
  have hasked : Prog.trace handle (requestSynthesis target prior sources).run u =
      [⟨.synthesize target prior sources, .ok reply⟩] := by
    rw [← hanswer]
    rfl
  unfold foldSources
  rw [htrace, htrace', hasked]
  simp

/-- An agent's part that succeeds has changed its agent's summary as far as it can tell, and has
folded in all its files. -/
theorem agentPart_ok {entry : Σ _ : String × Uuid, Finset String} (hne : entry.2.Nonempty)
    {changed : Bool} {s t : σ}
    (h : Prog.exec handle (agentPart config entry).run s = (.ok changed, t)) :
    changed = true ∧ ∀ file ∈ entry.2, FoldedIn (.agent entry.1.1 entry.1.2.hyphenated) file
      (Prog.trace handle (agentPart config entry).run s) := by
  unfold agentPart synthesizeAgent at h ⊢
  rcases exec_run_bind_ok h with ⟨⟨sources, deleted⟩, u, hread, hrest, htrace⟩
  rcases readChanged_ok hread with ⟨-, -, hfiles⟩
  rcases hne with ⟨first, hfirst⟩
  have hsome : (sources.isEmpty && deleted.isEmpty) = false := by
    rcases hfiles first ((Finset.mem_sort _).mpr hfirst) with ⟨content, hmem⟩ | hmem
    · simp [List.ne_nil_of_mem hmem]
    · simp [List.ne_nil_of_mem hmem]
  simp only [hsome, Bool.false_eq_true, if_false] at hrest htrace
  rcases exec_run_bind_ok hrest with ⟨⟨⟩, v, hfold, hend, htrace'⟩
  rcases foldSources_ok hfold with ⟨prior, reply, hasked⟩
  refine ⟨(Except.ok.inj (congrArg Prod.fst hend)).symm, ?_⟩
  intro file hfile
  refine ⟨prior, if deleted.isEmpty then sources else sources ++ [deletedSources deleted], reply,
    ?_, ?_⟩
  · rw [htrace, htrace']
    exact List.mem_append_right _ (List.mem_append_left _ hasked)
  · rcases hfiles file ((Finset.mem_sort _).mpr hfile) with ⟨content, hmem⟩ | hmem
    · left
      refine ⟨content, ?_⟩
      split
      · exact hmem
      · exact List.mem_append_left _ hmem
    · right
      refine ⟨deleted, hmem, ?_⟩
      rw [if_neg (by simp [List.ne_nil_of_mem hmem])]
      simp

end

end Synthesizer

/-! ## Turns -/

/-- The synthesizer and its surroundings. -/
structure CascadeState (σ : Type) where
  synthesizer : Synthesizer
  surroundings : σ

/-- The synthesizer handles a message, or something happens around it. -/
inductive SynthesizerTurn (σ : Type) where
  | fileChanged (msg : FileChanged)
  | cooldownTick (orders : Synthesizer.CycleOrders)
  | elsewhere (surroundings : σ)

namespace SynthesizerTurn

/-- The turn notifies the synthesizer of this change. -/
def Notifies {σ : Type} (file : FileChanged) (a : SynthesizerTurn σ) : Prop :=
  a = .fileChanged file

/-- The turn is a whole cycle. -/
def IsTick {σ : Type} : SynthesizerTurn σ → Prop
  | .cooldownTick _ => True
  | _ => False

end SynthesizerTurn

namespace CascadeState

variable {σ : Type} (handle : (c : SynthesizerCall) → σ → c.Response × σ)
  (config : Synthesizer.MemoryConfig)

/-- Nothing has changed yet. -/
def start (surroundings : σ) : CascadeState σ :=
  ⟨.new, surroundings⟩

/-- One turn.  A cycle's calls are answered one by one; messages that come meanwhile wait. -/
def step (s : CascadeState σ) : SynthesizerTurn σ → Option (CascadeState σ)
  | .fileChanged msg => some ⟨(s.synthesizer.handleFileChanged msg).1, s.surroundings⟩
  | .cooldownTick orders =>
      let cycle := s.synthesizer.handleCooldownTick config orders
      some ⟨cycle.1, (Prog.exec handle cycle.2 s.surroundings).2⟩
  | .elsewhere surroundings => some ⟨s.synthesizer, surroundings⟩

end CascadeState

open Synthesizer

section

variable {σ : Type} (handle : (c : SynthesizerCall) → σ → c.Response × σ) (config : MemoryConfig)
  (orders : CycleOrders)

/-- What a cycle from `s` to `t` does with the changes it takes. -/
structure CycleAccounts (s t : CascadeState σ) : Prop where
  /-- Nothing that was taken is still pending. -/
  cleared : t.synthesizer.changedFiles = []
  /-- A change is folded in by its agent's part, or that part has failed. -/
  folded : ∀ file ∈ s.synthesizer.changedFiles,
    ∃ run ∈ agentRuns handle config orders s.synthesizer.changedFiles s.surroundings,
      run.entry.1 = (file.username, file.agentId) ∧
        ((run.result = .ok true ∧ FoldedIn (.agent file.username file.agentId.hyphenated) file.path
            (Prog.trace handle (agentPart config run.entry).run run.before)) ∨
          ∃ e, run.result = .error e)
  /-- Only agents with a change have a part. -/
  changed : ∀ run ∈ agentRuns handle config orders s.synthesizer.changedFiles s.surroundings,
    ∃ path, ⟨run.entry.1.1, run.entry.1.2, path⟩ ∈ s.synthesizer.changedFiles
  /-- The users' parts are given the agents whose parts have succeeded. -/
  agents : ∀ username agentId,
    (∃ run ∈ userRuns handle config orders s.synthesizer.changedFiles s.surroundings,
        run.entry.1 = username ∧ agentId ∈ run.entry.2) ↔
      ∃ run ∈ agentRuns handle config orders s.synthesizer.changedFiles s.surroundings,
        run.entry.1 = (username, agentId) ∧ run.result = .ok true
  /-- The global part is given the users whose parts have succeeded. -/
  users : ∃ users : Finset String,
    (∀ username, username ∈ users ↔
      ∃ run ∈ userRuns handle config orders s.synthesizer.changedFiles s.surroundings,
        run.entry.1 = username ∧ run.result = .ok true) ∧
    t.surroundings =
      let after :=
        (afterUsers handle config orders s.synthesizer.changedFiles s.surroundings).2
      if users = ∅ then after
      else (Prog.exec handle (synthesizeGlobal config users).run after).2

variable {handle config orders}

/-- A cycle without changes is over at once. -/
theorem process_exec_nil (s : σ) :
    (Prog.exec handle (process config orders []) s).2 = s ∧
      afterUsers handle config orders [] s = (∅, s) := by
  have hentries : agentEntries orders [] = [] := by
    apply List.eq_nil_iff_forall_not_mem.mpr
    rintro ⟨⟨user, agent⟩, files⟩ hentry
    rcases mem_agentEntries.mp hentry with ⟨rfl, path, hpath⟩
    exact absurd (mem_fileGroups.mp hpath) (by simp)
  have hagents : afterAgents handle config orders [] s = (∅, s) := by
    rw [afterAgents, hentries]
    rfl
  have husers : userEntries handle config orders [] s = [] := by
    rw [userEntries, hagents]
    exact List.perm_nil.mp (orders.agentGroups.perm _)
  refine ⟨rfl, ?_⟩
  rw [afterUsers, husers, hagents]
  rfl

/-- What a tick does with the changes it takes, whatever its calls are answered with. -/
theorem tick_accounts {s t : CascadeState σ}
    (h : s.step handle config (.cooldownTick orders) = some t) :
    CycleAccounts handle config orders s t := by
  rw [← Option.some.inj h]
  refine ⟨rfl, ?_, ?_, ?_, ?_⟩
  · rintro ⟨user, agent, path⟩ hfile
    have hmember := mem_fileGroups.mpr hfile
    have hpart : ∃ run ∈ agentRuns handle config orders s.synthesizer.changedFiles s.surroundings,
        run.entry =
          ⟨(user, agent), (fileGroups s.synthesizer.changedFiles).members (user, agent)⟩ :=
      exists_mem_partRuns (mem_agentEntries.mpr ⟨rfl, path, hmember⟩) _
    rcases hpart with ⟨run, hrun, hentry⟩
    refine ⟨run, hrun, by rw [hentry], ?_⟩
    have hexec := exec_of_mem_partRuns hrun
    cases hresult : run.result with
    | error e => exact Or.inr ⟨e, rfl⟩
    | ok changed =>
        rw [hresult, hentry] at hexec
        rcases agentPart_ok ⟨path, hmember⟩ hexec with ⟨rfl, hfolded⟩
        rw [hentry]
        exact Or.inl ⟨rfl, hfolded path hmember⟩
  · intro run hrun
    rcases mem_agentEntries.mp (entry_of_mem_partRuns hrun) with ⟨hfiles, path, hpath⟩
    rw [← hfiles] at hpath
    exact ⟨path, mem_fileGroups.mp hpath⟩
  · intro username agentId
    rw [← mem_afterAgents]
    constructor
    · rintro ⟨run, hrun, rfl, hagent⟩
      rcases mem_userEntries.mp (entry_of_mem_partRuns hrun) with ⟨hmembers, -⟩
      rw [hmembers]
      exact hagent
    · intro hagent
      have hpart : ∃ run ∈ userRuns handle config orders s.synthesizer.changedFiles s.surroundings,
          run.entry = ⟨username, (afterAgents handle config orders s.synthesizer.changedFiles
            s.surroundings).1.members username⟩ :=
        exists_mem_partRuns (mem_userEntries.mpr ⟨rfl, agentId, hagent⟩) _
      rcases hpart with ⟨run, hrun, hentry⟩
      refine ⟨run, hrun, by rw [hentry], ?_⟩
      rw [hentry]
      exact hagent
  · refine ⟨_, fun username => mem_afterUsers, ?_⟩
    by_cases hne : s.synthesizer.changedFiles = []
    · rw [handleCooldownTick, hne]
      simp only [(process_exec_nil s.surroundings).2, if_true]
      exact (process_exec_nil s.surroundings).1
    · exact process_exec handle config orders _ _ hne

/-- What is pending has been notified since the last tick. -/
theorem pending_iff {s₀ : σ} {as : List (SynthesizerTurn σ)} {s : CascadeState σ}
    (hrun : run (CascadeState.step handle config) (.start s₀) as = some s) (file : FileChanged) :
    file ∈ s.synthesizer.changedFiles ↔
      Since (SynthesizerTurn.Notifies file) SynthesizerTurn.IsTick as := by
  refine @run_history _ _ _ _ (fun as s => file ∈ s.synthesizer.changedFiles ↔
    Since (SynthesizerTurn.Notifies file) SynthesizerTurn.IsTick as) ?_ ?_ _ _ hrun
  · simp [CascadeState.start, Synthesizer.new]
  · intro as a s t _ ih hstep
    rw [since_snoc, ← ih]
    cases a with
    | fileChanged msg =>
        rw [← Option.some.inj hstep]
        have hpending : (s.synthesizer.handleFileChanged msg).1.changedFiles =
            s.synthesizer.changedFiles.insert msg := by
          unfold handleFileChanged
          dsimp only
          split <;> rfl
        simp only [hpending, List.mem_insert_iff, SynthesizerTurn.Notifies,
          SynthesizerTurn.IsTick, SynthesizerTurn.fileChanged.injEq, not_false_eq_true, and_true]
        rw [eq_comm]
    | cooldownTick orders =>
        rw [← Option.some.inj hstep]
        simp [handleCooldownTick, SynthesizerTurn.Notifies, SynthesizerTurn.IsTick]
    | elsewhere surroundings =>
        rw [← Option.some.inj hstep]
        simp [SynthesizerTurn.Notifies, SynthesizerTurn.IsTick]

/-- What becomes of the changes notified in a run: the next tick takes those that have come since
the last one, and accounts for them. -/
theorem changes_accounted {s₀ : σ} {as : List (SynthesizerTurn σ)} {s t : CascadeState σ}
    (hrun : run (CascadeState.step handle config) (.start s₀) as = some s)
    (htick : s.step handle config (.cooldownTick orders) = some t) :
    (∀ file, file ∈ s.synthesizer.changedFiles ↔
        Since (SynthesizerTurn.Notifies file) SynthesizerTurn.IsTick as) ∧
      CycleAccounts handle config orders s t :=
  ⟨pending_iff hrun, tick_accounts htick⟩

end

/-! ## A change that is dropped -/

/-- Every call is answered, but for the syntheses of the targets that fail. -/
def answering (fails : SynthesisTarget → Bool) :
    (c : SynthesizerCall) → Unit → c.Response × Unit
  | .storageRead _, s => (.ok (some "x"), s)
  | .storageWrite _ _, s => (.ok (), s)
  | .embed texts, s => (.ok ⟨"m", texts.map fun _ => ⟨[0x3f800000], Embedding.one_length_lt⟩⟩, s)
  | .synthesize target _ _, s => (if fails target then .error .recvError else .ok "Summary.", s)
  | .indexInsert _, s => (.ok (), s)
  | .readDir _, s => (some [some "2026-05-19-01.md"], s)
  | .fileSize _, s => (some 8, s)
  | .today, s => (may19, s)

/-- The target is a user. -/
def isUser : SynthesisTarget → Bool
  | .user _ => true
  | _ => false

/-- One change has been notified. -/
def oneChange : CascadeState Unit :=
  ⟨⟨[noteOf "alice"], true⟩, ()⟩

theorem oneChange_reached (handle : (c : SynthesizerCall) → Unit → c.Response × Unit) :
    run (CascadeState.step handle .withDefaults) (.start ()) [.fileChanged (noteOf "alice")] =
      some oneChange :=
  rfl

/-- The target is an agent of bob. -/
def isBobs : SynthesisTarget → Bool
  | .agent username _ => username = "bob"
  | _ => false

/-- Changes of alice and of bob. -/
def twoChanges : List (SynthesizerTurn Unit) :=
  [.fileChanged (noteOf "alice"), .fileChanged (noteOf "bob")]

/-- Both changes are taken by the next tick, in which the part of bob's agent fails and that of
alice's succeeds. -/
theorem twoChanges_accounted :
    ∃ s, run (CascadeState.step (answering isBobs) .withDefaults) (.start ()) twoChanges = some s ∧
      (∀ file : FileChanged, file ∈ s.synthesizer.changedFiles ↔
        Since (SynthesizerTurn.Notifies file) SynthesizerTurn.IsTick twoChanges) ∧
      CycleAccounts (answering isBobs) .withDefaults .stored s ⟨.new, ()⟩ ∧
      (agentRuns (answering isBobs) .withDefaults .stored s.synthesizer.changedFiles ()).map
        (fun run => (run.entry.1.1, run.result.toOption)) =
          [("alice", some true), ("bob", none)] := by
  refine ⟨_, rfl, ?_⟩
  have haccounted := @changes_accounted Unit (answering isBobs) .withDefaults .stored () twoChanges
    _ _ rfl rfl
  exact ⟨haccounted.1, haccounted.2, by decide +kernel⟩

/-- Ticks without a change in between change nothing. -/
theorem idle_ticks {σ : Type} {handle : (c : SynthesizerCall) → σ → c.Response × σ}
    {config : MemoryConfig} (later : List CycleOrders) (surroundings : σ) :
    run (CascadeState.step handle config) ⟨.new, surroundings⟩ (later.map .cooldownTick) =
      some ⟨.new, surroundings⟩ := by
  induction later with
  | nil => rfl
  | cons orders later ih => exact ih

/-- Every change the cycle takes has had its agent's part succeed, or is still pending. -/
def ChangesKept (handle : (c : SynthesizerCall) → Unit → c.Response × Unit)
    (orders : CycleOrders) (s t : CascadeState Unit) : Prop :=
  ∀ file ∈ s.synthesizer.changedFiles, file ∈ t.synthesizer.changedFiles ∨
    ∃ run ∈ agentRuns handle .withDefaults orders s.synthesizer.changedFiles s.surroundings,
      run.entry.1 = (file.username, file.agentId) ∧ run.result = .ok true

/-- An agent whose part has succeeded and whose user's part has failed is given to it again after
some more ticks. -/
def AgentsKept (handle : (c : SynthesizerCall) → Unit → c.Response × Unit)
    (orders : CycleOrders) (s t : CascadeState Unit) : Prop :=
  ∀ username agentId,
    (∃ run ∈ agentRuns handle .withDefaults orders s.synthesizer.changedFiles s.surroundings,
      run.entry.1 = (username, agentId) ∧ run.result = .ok true) →
    (∃ run ∈ userRuns handle .withDefaults orders s.synthesizer.changedFiles s.surroundings,
      run.entry.1 = username ∧ ∃ e, run.result = .error e) →
      ∃ (later : List CycleOrders) (u : CascadeState Unit) (orders' : CycleOrders),
        run (CascadeState.step handle .withDefaults) t (later.map .cooldownTick) = some u ∧
          ∃ run ∈ userRuns handle .withDefaults orders' u.synthesizer.changedFiles u.surroundings,
            run.entry.1 = username ∧ agentId ∈ run.entry.2

/-- A file is dropped when the synthesis of its agent fails, and an agent when that of its user
fails: no number of ticks brings it back. -/
theorem failed_syntheses_not_repeated :
    (¬ ∀ (handle : (c : SynthesizerCall) → Unit → c.Response × Unit)
        (as : List (SynthesizerTurn Unit)) (s t : CascadeState Unit) (orders : CycleOrders),
        run (CascadeState.step handle .withDefaults) (.start ()) as = some s →
          s.step handle .withDefaults (.cooldownTick orders) = some t →
            ChangesKept handle orders s t) ∧
      ¬ ∀ (handle : (c : SynthesizerCall) → Unit → c.Response × Unit)
          (as : List (SynthesizerTurn Unit)) (s t : CascadeState Unit) (orders : CycleOrders),
          run (CascadeState.step handle .withDefaults) (.start ()) as = some s →
            s.step handle .withDefaults (.cooldownTick orders) = some t →
              AgentsKept handle orders s t := by
  constructor
  · intro h
    have hkept := h (answering fun _ => true) _ oneChange ⟨.new, ()⟩ .stored
      (oneChange_reached _) rfl (noteOf "alice") List.mem_cons_self
    have hfailed : (agentRuns (answering fun _ => true) .withDefaults .stored
        oneChange.synthesizer.changedFiles ()).all fun run => !run.result.toBool := by
      decide +kernel
    rcases hkept with hpending | ⟨run, hrun, -, hok⟩
    · exact absurd hpending (by simp [Synthesizer.new])
    · have hresult := List.all_eq_true.mp hfailed run hrun
      rw [hok] at hresult
      exact absurd hresult (by decide)
  · intro h
    have hkept := h (answering isUser) _ oneChange ⟨.new, ()⟩ .stored (oneChange_reached _) rfl
      "alice" .nil ?_ ?_
    · rcases hkept with ⟨later, u, orders', hlater, run, hrun, -, hagent⟩
      rw [idle_ticks] at hlater
      rw [← Option.some.inj hlater] at hrun
      rcases mem_userEntries.mp (entry_of_mem_partRuns hrun) with ⟨hmembers, -⟩
      rw [← hmembers, mem_afterAgents] at hagent
      rcases hagent with ⟨first, hfirst, -, -⟩
      have haccounts :
          CycleAccounts (answering isUser) .withDefaults orders' ⟨.new, ()⟩ ⟨.new, ()⟩ :=
        tick_accounts rfl
      rcases haccounts.changed first hfirst with ⟨path, hpath⟩
      exact absurd hpath (by simp [Synthesizer.new])
    · have hruns : (("alice", Uuid.nil), Except.ok true) ∈ (agentRuns (answering isUser)
          .withDefaults .stored oneChange.synthesizer.changedFiles ()).map
            fun run => (run.entry.1, run.result) := by
        decide +kernel
      rcases List.mem_map.mp hruns with ⟨run, hrun, heq⟩
      exact ⟨run, hrun, congrArg Prod.fst heq, congrArg Prod.snd heq⟩
    · have hruns : ("alice", Except.error .recvError) ∈ (userRuns (answering isUser)
          .withDefaults .stored oneChange.synthesizer.changedFiles ()).map
            fun run => (run.entry.1, run.result) := by
        decide +kernel
      rcases List.mem_map.mp hruns with ⟨run, hrun, heq⟩
      exact ⟨run, hrun, congrArg Prod.fst heq, .recvError, congrArg Prod.snd heq⟩

end Memory
end MemoryHub
