import MemoryHub.Memory.Synthesizer

/-!
# The parts of a cycle

A pass runs one part for each of its targets, in the order its map is iterated, and goes on
whatever a part returns.  Here a cycle is taken apart into these runs, in any surroundings.

Main results:

- Theorem `around_run`: the run of one part starts from and leads to what the others keep.
- Theorem `agentPass_exec`, `userPass_exec`: what the passes return and where they end.
- Theorem `process_exec`: a cycle is its three passes.
-/

namespace MemoryHub
namespace Memory
namespace Synthesizer

open Collections Prog

/-! ## Runs of parts -/

/-- The run of one part: what it works on, the state before it, what it returns and the state
after it. -/
structure PartRun (ε σ : Type) where
  entry : ε
  before : σ
  result : Except MemoryError Bool
  after : σ

section

variable {ε σ : Type} (handle : (c : SynthesizerCall) → σ → c.Response × σ)
  (part : ε → FallibleSynthesis Bool)

/-- The runs of the parts, one after the other. -/
def partRuns : List ε → σ → List (PartRun ε σ)
  | [], _ => []
  | entry :: rest, s =>
      let r := Prog.exec handle (part entry).run s
      ⟨entry, s, r.1, r.2⟩ :: partRuns rest r.2

/-- The state after the last part. -/
def partsEnd : List ε → σ → σ
  | [], s => s
  | entry :: rest, s => partsEnd rest (Prog.exec handle (part entry).run s).2

variable {handle part}

theorem entry_of_mem_partRuns {entries : List ε} {s : σ} {run : PartRun ε σ}
    (h : run ∈ partRuns handle part entries s) : run.entry ∈ entries := by
  induction entries generalizing s with
  | nil => simp [partRuns] at h
  | cons entry rest ih =>
      rcases List.mem_cons.mp h with rfl | hrest
      · exact List.mem_cons_self
      · exact List.mem_cons_of_mem _ (ih hrest)

/-- Each part has run. -/
theorem exists_mem_partRuns {entries : List ε} {entry : ε} (h : entry ∈ entries) (s : σ) :
    ∃ run ∈ partRuns handle part entries s, run.entry = entry := by
  induction entries generalizing s with
  | nil => simp at h
  | cons first rest ih =>
      rcases List.mem_cons.mp h with rfl | hrest
      · exact ⟨_, List.mem_cons_self, rfl⟩
      · rcases ih hrest (Prog.exec handle (part first).run s).2 with ⟨run, hrun, hentry⟩
        exact ⟨run, List.mem_cons_of_mem _ hrun, hentry⟩

theorem exec_of_mem_partRuns {entries : List ε} {s : σ} {run : PartRun ε σ}
    (h : run ∈ partRuns handle part entries s) :
    Prog.exec handle (part run.entry).run run.before = (run.result, run.after) := by
  induction entries generalizing s with
  | nil => simp [partRuns] at h
  | cons entry rest ih =>
      rcases List.mem_cons.mp h with rfl | hrest
      · rfl
      · exact ih hrest

/-- What all parts but one keep relates the states around the run of that one to the first and
the last state. -/
theorem around_run {rel : σ → σ → Prop} (hrefl : ∀ s, rel s s)
    (htrans : ∀ s t u, rel s t → rel t u → rel s u) {entries : List ε} (hnodup : entries.Nodup)
    {entry : ε}
    (hframe : ∀ other ∈ entries, other ≠ entry →
      ∀ s, rel s (Prog.exec handle (part other).run s).2)
    {s : σ} {run : PartRun ε σ} (hrun : run ∈ partRuns handle part entries s)
    (hentry : run.entry = entry) :
    rel s run.before ∧ rel run.after (partsEnd handle part entries s) := by
  have hpass : ∀ (others : List ε) (s : σ), (∀ other ∈ others, other ∈ entries ∧ other ≠ entry) →
      rel s (partsEnd handle part others s) := by
    intro others
    induction others with
    | nil => exact fun s _ => hrefl s
    | cons other others ih =>
        intro s hothers
        rcases hothers other List.mem_cons_self with ⟨hmem, hne⟩
        exact htrans _ _ _ (hframe other hmem hne s)
          (ih _ fun o ho => hothers o (List.mem_cons_of_mem _ ho))
  have hsplit : ∀ (rest : List ε) (s : σ), rest.Nodup → (∀ e ∈ rest, e ∈ entries) →
      run ∈ partRuns handle part rest s →
        rel s run.before ∧ rel run.after (partsEnd handle part rest s) := by
    intro rest
    induction rest with
    | nil =>
        intro s _ _ h
        simp [partRuns] at h
    | cons first rest ih =>
        intro s hrest hmem h
        rcases List.nodup_cons.mp hrest with ⟨hfirst, hrest⟩
        rcases List.mem_cons.mp h with rfl | h
        · refine ⟨hrefl s, hpass rest _ ?_⟩
          intro other hother
          refine ⟨hmem other (List.mem_cons_of_mem _ hother), ?_⟩
          rintro rfl
          rw [← hentry] at hother
          exact hfirst hother
        · have hne : first ≠ entry := by
            rintro rfl
            rw [← hentry] at hfirst
            exact hfirst (entry_of_mem_partRuns h)
          rcases ih _ hrest (fun e he => hmem e (List.mem_cons_of_mem _ he)) h with
            ⟨hbefore, hafter⟩
          exact ⟨htrans _ _ _ (hframe first (hmem first List.mem_cons_self) hne s) hbefore,
            hafter⟩
  exact hsplit entries s hnodup (fun _ he => he) hrun

/-- An invariant of the parts is one of the pass. -/
theorem partsEnd_invariant {I : σ → Prop} {entries : List ε}
    (hpart : ∀ entry ∈ entries, ∀ s, I s → I (Prog.exec handle (part entry).run s).2) {s : σ}
    (hs : I s) : I (partsEnd handle part entries s) := by
  induction entries generalizing s with
  | nil => exact hs
  | cons entry rest ih =>
      exact ih (fun e he => hpart e (List.mem_cons_of_mem _ he))
        (hpart entry List.mem_cons_self s hs)

/-- What all parts keep, all of them together keep. -/
theorem partsEnd_keeps {rel : σ → σ → Prop} (hrefl : ∀ s, rel s s)
    (htrans : ∀ s t u, rel s t → rel t u → rel s u) {entries : List ε}
    (hframe : ∀ entry ∈ entries, ∀ s, rel s (Prog.exec handle (part entry).run s).2) (s : σ) :
    rel s (partsEnd handle part entries s) :=
  partsEnd_invariant (fun entry hentry t ht => htrans _ _ _ ht (hframe entry hentry t)) (hrefl s)

end

/-! ## The passes -/

/-- The part of pass 1 for an agent and its changed files. -/
def agentPart (config : MemoryConfig) (entry : Σ _ : String × Uuid, Finset String) :
    FallibleSynthesis Bool :=
  synthesizeAgent config entry.1.1 entry.1.2 entry.2

/-- The part of pass 2 for a user and its changed agents. -/
def userPart (config : MemoryConfig) (entry : Σ _ : String, Finset Uuid) :
    FallibleSynthesis Bool :=
  synthesizeUser config entry.1 entry.2

section

variable {σ : Type} {handle : (c : SynthesizerCall) → σ → c.Response × σ}

/-- Pass 1 collects the agents whose part returned that they changed. -/
theorem agentPass_exec (config : MemoryConfig)
    (entries : List (Σ _ : String × Uuid, Finset String)) (agentGroups : Groups String Uuid)
    (s : σ) :
    (Prog.exec handle (agentPass config entries agentGroups) s).2 =
        partsEnd handle (agentPart config) entries s ∧
      (agentGroups.NoneEmpty →
        (Prog.exec handle (agentPass config entries agentGroups) s).1.NoneEmpty) ∧
      ∀ username agentId,
        agentId ∈ (Prog.exec handle (agentPass config entries agentGroups) s).1.members username ↔
          agentId ∈ agentGroups.members username ∨
            ∃ run ∈ partRuns handle (agentPart config) entries s,
              run.entry.1 = (username, agentId) ∧ run.result = .ok true := by
  induction entries generalizing agentGroups s with
  | nil => exact ⟨rfl, id, fun username agentId => by simp [agentPass, partRuns]⟩
  | cons entry rest ih =>
      rcases entry with ⟨⟨user, agent⟩, files⟩
      simp only [agentPass, exec_bind, partsEnd, partRuns, List.exists_mem_cons_iff]
      have hpart : (agentPart config ⟨(user, agent), files⟩).run =
          (synthesizeAgent config user agent files).run := rfl
      rw [hpart]
      generalize Prog.exec handle (synthesizeAgent config user agent files).run s = r
      rcases r with ⟨result, s'⟩
      -- Only an agent that changed is added.
      match result with
      | .ok true =>
          rcases ih (agentGroups.add user agent) s' with ⟨hend, hnone, hmem⟩
          refine ⟨hend, fun h => hnone (h.add user agent), ?_⟩
          intro username agentId
          rw [hmem, Groups.members_add]
          by_cases huser : username = user
          · subst huser
            simp only [if_true, Finset.mem_insert, Prod.mk.injEq, true_and, and_true]
            rw [or_assoc, or_left_comm, eq_comm]
          · simp only [if_neg huser, Prod.mk.injEq, Ne.symm huser, false_and, false_or]
      | .ok false =>
          rcases ih agentGroups s' with ⟨hend, hnone, hmem⟩
          refine ⟨hend, hnone, ?_⟩
          intro username agentId
          simp [hmem]
      | .error e =>
          rcases ih agentGroups s' with ⟨hend, hnone, hmem⟩
          refine ⟨hend, hnone, ?_⟩
          intro username agentId
          simp [hmem]

/-- Pass 2 collects the users whose part returned that they changed. -/
theorem userPass_exec (config : MemoryConfig) (entries : List (Σ _ : String, Finset Uuid))
    (users : Finset String) (s : σ) :
    (Prog.exec handle (userPass config entries users) s).2 =
        partsEnd handle (userPart config) entries s ∧
      ∀ username, username ∈ (Prog.exec handle (userPass config entries users) s).1 ↔
        username ∈ users ∨ ∃ run ∈ partRuns handle (userPart config) entries s,
          run.entry.1 = username ∧ run.result = .ok true := by
  induction entries generalizing users s with
  | nil => exact ⟨rfl, fun username => by simp [userPass, partRuns]⟩
  | cons entry rest ih =>
      rcases entry with ⟨user, agentIds⟩
      simp only [userPass, exec_bind, partsEnd, partRuns, List.exists_mem_cons_iff]
      have hpart : (userPart config ⟨user, agentIds⟩).run =
          (synthesizeUser config user agentIds).run := rfl
      rw [hpart]
      generalize Prog.exec handle (synthesizeUser config user agentIds).run s = r
      rcases r with ⟨result, s'⟩
      match result with
      | .ok true =>
          rcases ih (insert user users) s' with ⟨hend, hmem⟩
          refine ⟨hend, ?_⟩
          intro username
          rw [hmem, Finset.mem_insert]
          simp only [and_true]
          rw [or_assoc, or_left_comm, eq_comm]
      | .ok false =>
          rcases ih users s' with ⟨hend, hmem⟩
          refine ⟨hend, ?_⟩
          intro username
          simp [hmem]
      | .error e =>
          rcases ih users s' with ⟨hend, hmem⟩
          refine ⟨hend, ?_⟩
          intro username
          simp [hmem]

end

/-! ## A cycle -/

/-- The agents and their changed files, in the order pass 1 takes them. -/
def agentEntries (orders : CycleOrders) (changedFiles : List FileChanged) :
    List (Σ _ : String × Uuid, Finset String) :=
  orders.fileGroups.arrange (fileGroups (orders.changedFiles.arrange changedFiles)).entries

/-- An agent is taken with all its changed files. -/
theorem mem_agentEntries {orders : CycleOrders} {changedFiles : List FileChanged}
    {username : String} {agentId : Uuid} {files : Finset String} :
    ⟨(username, agentId), files⟩ ∈ agentEntries orders changedFiles ↔
      (fileGroups changedFiles).members (username, agentId) = files ∧ files.Nonempty := by
  rw [agentEntries, IterationOrder.mem_arrange, fileGroups,
    Groups.mem_entries_iff (Groups.noneEmpty_group _ _ _),
    Groups.members_group_perm (orders.changedFiles.perm changedFiles), ← fileGroups]

theorem mem_fileGroups {changedFiles : List FileChanged} {username path : String}
    {agentId : Uuid} :
    path ∈ (fileGroups changedFiles).members (username, agentId) ↔
      ⟨username, agentId, path⟩ ∈ changedFiles := by
  rw [fileGroups, Groups.mem_members_group]
  constructor
  · rintro ⟨⟨user, agent, file⟩, hmem, hkey, hpath⟩
    cases hkey
    cases hpath
    exact hmem
  · intro hmem
    exact ⟨_, hmem, rfl, rfl⟩

theorem nodup_of_perm_entries {κ α : Type} [DecidableEq κ] [DecidableEq α]
    {groups : Groups κ α} {entries : List (Σ _ : κ, Finset α)}
    (h : entries.Perm groups.entries) : entries.Nodup :=
  h.nodup_iff.mpr groups.nodupKeys.nodup

theorem nodup_agentEntries (orders : CycleOrders) (changedFiles : List FileChanged) :
    (agentEntries orders changedFiles).Nodup :=
  nodup_of_perm_entries (orders.fileGroups.perm _)

section

variable {σ : Type} (handle : (c : SynthesizerCall) → σ → c.Response × σ)
  (config : MemoryConfig) (orders : CycleOrders) (changedFiles : List FileChanged) (s : σ)

/-- What pass 1 returns and where it ends. -/
def afterAgents : Groups String Uuid × σ :=
  Prog.exec handle (agentPass config (agentEntries orders changedFiles) ∅) s

/-- The users and their changed agents, in the order pass 2 takes them. -/
def userEntries : List (Σ _ : String, Finset Uuid) :=
  orders.agentGroups.arrange (afterAgents handle config orders changedFiles s).1.entries

/-- What pass 2 returns and where it ends. -/
def afterUsers : Finset String × σ :=
  Prog.exec handle (userPass config (userEntries handle config orders changedFiles s) ∅)
    (afterAgents handle config orders changedFiles s).2

/-- A cycle is its three passes, the last only if some user has changed. -/
theorem process_exec (hne : changedFiles ≠ []) :
    (Prog.exec handle (process config orders changedFiles) s).2 =
      if (afterUsers handle config orders changedFiles s).1 = ∅ then
        (afterUsers handle config orders changedFiles s).2
      else (Prog.exec handle
        (synthesizeGlobal config (afterUsers handle config orders changedFiles s).1).run
          (afterUsers handle config orders changedFiles s).2).2 := by
  have hempty : changedFiles.isEmpty = false := by simpa using hne
  -- An error is logged, and nothing else is made of it.
  have hlogged : ∀ (x : FallibleSynthesis Unit) (log : Except MemoryError Unit → Synthesis Unit)
      (t : σ), (∀ result s, (Prog.exec handle (log result) s).2 = s) →
      (Prog.exec handle (x.run >>= log) t).2 = (Prog.exec handle x.run t).2 := by
    intro x log t hlog
    rw [exec_bind, hlog]
  unfold process
  simp only [hempty, Bool.false_eq_true, if_false, exec_bind]
  change (Prog.exec handle (if (afterUsers handle config orders changedFiles s).1 = ∅ then _
    else _) (afterUsers handle config orders changedFiles s).2).2 = _
  split
  · rfl
  · apply hlogged
    intro result s
    cases result with
    | ok a => rfl
    | error e => rfl

variable {handle config orders changedFiles s}

/-- The runs of pass 1. -/
def agentRuns (handle : (c : SynthesizerCall) → σ → c.Response × σ) (config : MemoryConfig)
    (orders : CycleOrders) (changedFiles : List FileChanged) (s : σ) :
    List (PartRun (Σ _ : String × Uuid, Finset String) σ) :=
  partRuns handle (agentPart config) (agentEntries orders changedFiles) s

/-- The runs of pass 2. -/
def userRuns (handle : (c : SynthesizerCall) → σ → c.Response × σ) (config : MemoryConfig)
    (orders : CycleOrders) (changedFiles : List FileChanged) (s : σ) :
    List (PartRun (Σ _ : String, Finset Uuid) σ) :=
  partRuns handle (userPart config) (userEntries handle config orders changedFiles s)
    (afterAgents handle config orders changedFiles s).2

theorem afterAgents_end : (afterAgents handle config orders changedFiles s).2 =
    partsEnd handle (agentPart config) (agentEntries orders changedFiles) s :=
  (agentPass_exec config _ ∅ s).1

theorem afterUsers_end : (afterUsers handle config orders changedFiles s).2 =
    partsEnd handle (userPart config) (userEntries handle config orders changedFiles s)
      (afterAgents handle config orders changedFiles s).2 :=
  (userPass_exec config _ ∅ _).1

/-- An agent has changed if its part returned so. -/
theorem mem_afterAgents {username : String} {agentId : Uuid} :
    agentId ∈ (afterAgents handle config orders changedFiles s).1.members username ↔
      ∃ run ∈ agentRuns handle config orders changedFiles s,
        run.entry.1 = (username, agentId) ∧ run.result = .ok true := by
  rw [afterAgents, (agentPass_exec config _ ∅ s).2.2]
  simp [Groups.members, agentRuns]

/-- A user is taken with all its changed agents. -/
theorem mem_userEntries {username : String} {agentIds : Finset Uuid} :
    ⟨username, agentIds⟩ ∈ userEntries handle config orders changedFiles s ↔
      (afterAgents handle config orders changedFiles s).1.members username = agentIds ∧
        agentIds.Nonempty := by
  rw [userEntries, IterationOrder.mem_arrange]
  exact Groups.mem_entries_iff ((agentPass_exec config _ ∅ s).2.1 Groups.noneEmpty_empty)

theorem nodup_userEntries : (userEntries handle config orders changedFiles s).Nodup :=
  nodup_of_perm_entries (orders.agentGroups.perm _)

/-- A user has changed if its part returned so. -/
theorem mem_afterUsers {username : String} :
    username ∈ (afterUsers handle config orders changedFiles s).1 ↔
      ∃ run ∈ userRuns handle config orders changedFiles s,
        run.entry.1 = username ∧ run.result = .ok true := by
  rw [afterUsers, (userPass_exec config _ ∅ _).2]
  simp [userRuns]

end

/-- The maps are iterated as they are stored. -/
def CycleOrders.stored : CycleOrders :=
  ⟨IterationOrder.stored _, IterationOrder.stored _, IterationOrder.stored _⟩

end Synthesizer

/-- A note of a user's own agent has changed. -/
def noteOf (username : String) : FileChanged :=
  ⟨username, .nil, rawPath username .nil defaultProject "a.md"⟩

end Memory
end MemoryHub
